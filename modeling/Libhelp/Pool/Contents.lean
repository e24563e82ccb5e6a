import Libhelp.Lib.CString
import Libhelp.Pool.Account

/-!
# The contents of the regions

An allocation writes to no byte that a client can reach: `pool_alloc` leaves all bytes as
they are, and `pool_calloc` and `pool_cpy` write to the region that they give out, which
is apart from all regions in use.  So a region reads as what its owner has put there,
whatever is done with the other regions.
-/

namespace Libhelp

open Transition

namespace Memory

/-- The bytes from an address on. -/
def read (memory : Memory) (p size : ℕ) : Bytes :=
  (List.range size).map fun i => memory.bytes (p + i)

/-- `*p = byte` -/
def store (memory : Memory) (p : ℕ) (byte : UInt8) : Memory :=
  memory.memset p byte 1

/-- The bytes outside of a region are as they were. -/
def KeepsOutside (memory : Memory) (region : Region) (after : Memory) : Prop :=
  ∀ address, ¬region.Holds address → after.bytes address = memory.bytes address

/-- No byte has been written, and the chunks that have come are answers of `malloc`. -/
structure Grows (answer : Malloc) (memory after : Memory) : Prop where
  bytes : after.bytes = memory.bytes
  chunks : ∀ chunk ∈ after.chunks, chunk ∈ memory.chunks ∨
    ∃ calls chunks, answer calls chunks chunk.size = some chunk.addr

variable {answer : Malloc} {memory middle after : Memory} {region : Region}
  {p size source : ℕ}

section Read

@[simp]
theorem length_read : (memory.read p size).length = size := by
  simp [read]

theorem read_congr (same : ∀ i < size, after.bytes (p + i) = memory.bytes (p + i)) :
    after.read p size = memory.read p size := by
  apply List.map_congr_left
  intro i inside
  exact same i (List.mem_range.mp inside)

theorem keepsOutside_memset (memory : Memory) (p : ℕ) (value : UInt8) (size : ℕ) :
    memory.KeepsOutside ⟨p, size⟩ (memory.memset p value size) :=
  fun _ outside => if_neg outside

theorem keepsOutside_memcpy (memory : Memory) (p source size : ℕ) :
    memory.KeepsOutside ⟨p, size⟩ (memory.memcpy p source size) :=
  fun _ outside => if_neg outside

/-- A region that is apart from what is written reads as before. -/
theorem KeepsOutside.read (keeps : memory.KeepsOutside region after)
    (apart : Region.Apart ⟨p, size⟩ region) : after.read p size = memory.read p size := by
  apply read_congr
  intro i inside
  apply keeps
  apply apart
  exact ⟨Nat.le_add_right _ _, Nat.add_lt_add_left inside _⟩

theorem read_memset (memory : Memory) (p : ℕ) (value : UInt8) (size : ℕ) :
    (memory.memset p value size).read p size = List.replicate size value := by
  apply List.eq_replicate_iff.mpr
  refine ⟨length_read, ?_⟩
  intro byte isByte
  rcases List.mem_map.mp isByte with ⟨i, inside, rfl⟩
  have below := List.mem_range.mp inside
  exact if_pos ⟨Nat.le_add_right _ _, Nat.add_lt_add_left below _⟩

theorem read_memcpy (memory : Memory) (p source size : ℕ) :
    (memory.memcpy p source size).read p size = memory.read source size := by
  apply List.map_congr_left
  intro i inside
  have below := List.mem_range.mp inside
  have holds : p ≤ p + i ∧ p + i < p + size := by omega
  show (if p ≤ p + i ∧ p + i < p + size then _ else _) = _
  rw [if_pos holds, Nat.add_sub_cancel_left]

/-- A byte stored in a region is that byte of it. -/
theorem read_store {offset : ℕ} (byte : UInt8) :
    (memory.store (p + offset) byte).read p size = (memory.read p size).set offset byte := by
  apply List.ext_getElem
  · simp
  · intro i _ _
    rw [List.getElem_set]
    simp only [read, List.getElem_map, List.getElem_range]
    show (if p + offset ≤ p + i ∧ p + i < p + offset + 1 then _ else _) = _
    split_ifs
    · rfl
    · omega
    · omega
    · rfl

end Read

section Grows

theorem Grows.refl (answer : Malloc) (memory : Memory) : memory.Grows answer memory :=
  ⟨rfl, fun _ isChunk => Or.inl isChunk⟩

theorem Grows.trans (first : memory.Grows answer middle) (second : middle.Grows answer after) :
    memory.Grows answer after := by
  refine ⟨second.bytes.trans first.bytes, ?_⟩
  intro chunk isChunk
  rcases second.chunks chunk isChunk with older | answered
  · exact first.chunks chunk older
  · exact Or.inr answered

theorem grows_malloc (answer : Malloc) (memory : Memory) (size : ℕ) :
    memory.Grows answer (memory.malloc answer size).2 := by
  unfold malloc
  split
  case h_1 => exact ⟨rfl, fun _ isChunk => Or.inl isChunk⟩
  case h_2 p answered =>
    refine ⟨rfl, ?_⟩
    intro chunk isChunk
    rcases List.mem_cons.mp isChunk with rfl | older
    · exact Or.inr ⟨_, _, answered⟩
    · exact Or.inl older

theorem grows_free (answer : Malloc) (memory : Memory) (p : ℕ) :
    memory.Grows answer (memory.free p) :=
  ⟨rfl, fun _ isChunk => Or.inl (List.mem_of_mem_eraseP isChunk)⟩

end Grows

end Memory

section Allocate

variable {answer : Malloc} {pool after : Pool} {depth size rmd source : ℕ}
  {returned : Option ℕ × Pool}

theorem grows_poolNewBlock (answer : Malloc) (memory : Memory) (size rmd : ℕ) :
    memory.Grows answer (poolNewBlock answer memory size rmd).2 := by
  have grows := Memory.grows_malloc answer memory size
  unfold poolNewBlock
  split
  all_goals
    rename_i obtained
    rw [obtained] at grows
    exact grows

theorem grows_poolAllocBlock (answer : Malloc) (pool : Pool) (size : ℕ) :
    pool.memory.Grows answer (poolAllocBlock answer pool size).2.memory := by
  unfold poolAllocBlock
  split
  case h_1 => exact .refl _ _
  case h_2 =>
    split
    case h_1 i m cur walk =>
      show pool.memory.Grows answer (pool.setLast _ _).memory
      rw [Pool.setLast_memory]
      exact .refl _ _
    case h_2 p c cur walk =>
      have grows := grows_poolNewBlock answer pool.memory (sub64 p.endPtr p.addr) p.rmd
      split
      all_goals
        rename_i created
        rw [created] at grows
        exact grows

/-- `pool_alloc` writes to no byte. -/
theorem grows_poolAlloc (returns : poolAlloc answer depth pool size = some returned) :
    pool.memory.Grows answer returned.2.memory := by
  induction depth generalizing pool size returned with
  | zero => cases returns
  | succ depth ih =>
      rw [poolAlloc] at returns
      split at returns
      case isTrue small =>
        cases returns
        exact grows_poolAllocBlock answer pool size
      case isFalse large =>
        have grows := Memory.grows_malloc answer pool.memory size
        cases obtained : pool.memory.malloc answer size with
        | mk m memory =>
            rw [obtained] at returns grows
            cases m with
            | none =>
                cases returns
                exact grows
            | some m =>
                rcases Option.map_eq_some_iff.mp returns with ⟨⟨l, nested⟩, node, rfl⟩
                have growsNode := grows.trans (ih node)
                cases l with
                | none => exact growsNode.trans (Memory.grows_free answer nested.memory m)
                | some l => exact growsNode

end Allocate

namespace Pool

/-- What a call that allocates leaves: it gives a region out, or none, and writes to no byte
outside of it. -/
structure Allocates (answer : Malloc) (blockSize : ℕ) (pool : Pool) (live : List Region)
    (size : ℕ) (result : Option ℕ) (after : Pool) : Prop where
  holds : after.Holds blockSize (granted result size ++ live)
  keeps : ∀ address, (∀ region ∈ granted result size, ¬region.Holds address) →
    after.memory.bytes address = pool.memory.bytes address
  chunks : ∀ chunk ∈ after.memory.chunks, chunk ∈ pool.memory.chunks ∨
    ∃ calls chunks, answer calls chunks chunk.size = some chunk.addr
  counted : pool.Counted blockSize 0 → after.Counted blockSize 0

variable {answer : Malloc} {blockSize size depth p source : ℕ} {pool after : Pool}
  {live : List Region} {result : Option ℕ} {region : Region}

/-- What was in use reads as before. -/
theorem Allocates.read (allocates : Allocates answer blockSize pool live size result after)
    (isLive : region ∈ live) : after.memory.read region.addr region.size =
      pool.memory.read region.addr region.size := by
  apply Memory.read_congr
  intro i inside
  apply allocates.keeps
  intro new isGranted
  have apart := (List.pairwise_append.mp allocates.holds.apart).2.2 new isGranted region isLive
  exact apart.symm _ ⟨Nat.le_add_right _ _, Nat.add_lt_add_left inside _⟩

theorem Holds.perm {other : List Region} (holds : pool.Holds blockSize live)
    (permuted : live.Perm other) : pool.Holds blockSize other := by
  rcases holds with ⟨whole, data, invariant⟩
  exact ⟨whole, data, invariant.reuse (invariant.valid.perm (permuted.append_right _))⟩

theorem poolFree_memory (pool : Pool) (p size : ℕ) :
    (poolFree pool p size).memory = pool.memory := by
  unfold poolFree
  split
  · rfl
  · split
    · exact setLast_memory _ _ _
    · rfl

section Calls

variable (sound : answer.Sound) (multiple : alignment ∣ blockSize)
  (enough : sizeofPool + sizeofPoolLarge ≤ blockSize) (holds : pool.Holds blockSize live)

include sound multiple enough holds

theorem allocates_poolAlloc (returns : poolAlloc answer depth pool size = some (result, after)) :
    Allocates answer blockSize pool live size result after := by
  have grows := grows_poolAlloc returns
  refine ⟨holds.poolAlloc sound multiple enough returns, ?_, grows.chunks, ?_⟩
  · intro address _
    exact congrFun grows.bytes address
  · intro counted
    exact counted.poolAlloc sound multiple enough holds returns

/-- A region may be written to when it has been given out. -/
theorem allocates_written {memory : Memory}
    (returns : poolAlloc answer depth pool size = some (some p, after))
    (chunks : memory.chunks = after.memory.chunks)
    (keeps : after.memory.KeepsOutside ⟨p, size⟩ memory) :
    Allocates answer blockSize pool live size (some p) { after with memory := memory } := by
  have allocates := allocates_poolAlloc sound multiple enough holds returns
  constructor
  case holds => exact allocates.holds.written ⟨memory, rfl, chunks⟩
  case keeps =>
    intro address outside
    have unwritten := keeps address (outside _ (List.mem_singleton_self _))
    exact unwritten.trans (allocates.keeps address outside)
  case chunks =>
    intro chunk isChunk
    exact allocates.chunks chunk (chunks ▸ isChunk)
  case counted =>
    intro counted
    exact (allocates.counted counted).congr rfl chunks

theorem allocates_poolCalloc
    (returns : poolCalloc answer depth pool size = some (result, after)) :
    Allocates answer blockSize pool live size result after ∧
      ∀ p, result = some p → after.memory.read p size = List.replicate size 0 := by
  rcases Option.map_eq_some_iff.mp returns with ⟨⟨result, allocated⟩, alloc, same⟩
  cases result with
  | none =>
      cases same
      refine ⟨allocates_poolAlloc sound multiple enough holds alloc, ?_⟩
      intro p none
      cases none
  | some p =>
      cases same
      refine ⟨allocates_written sound multiple enough holds alloc rfl
        (Memory.keepsOutside_memset _ _ _ _), ?_⟩
      intro q isResult
      cases isResult
      exact Memory.read_memset _ _ _ _

theorem allocates_poolCpy
    (returns : poolCpy answer depth pool source size = some (result, after)) :
    Allocates answer blockSize pool live size result after ∧
      ∀ p, result = some p → after.memory.read p size = pool.memory.read source size := by
  rcases Option.map_eq_some_iff.mp returns with ⟨⟨result, allocated⟩, alloc, same⟩
  cases result with
  | none =>
      cases same
      refine ⟨allocates_poolAlloc sound multiple enough holds alloc, ?_⟩
      intro p none
      cases none
  | some p =>
      cases same
      refine ⟨allocates_written sound multiple enough holds alloc rfl
        (Memory.keepsOutside_memcpy _ _ _ _), ?_⟩
      intro q isResult
      cases isResult
      have unwritten := (grows_poolAlloc alloc).bytes
      have copied := Memory.read_memcpy allocated.memory p source size
      exact copied.trans (Memory.read_congr fun i _ => congrFun unwritten _)

end Calls

end Pool

/-- A pool and the regions it has handed out, with what their owners have put there. -/
structure PoolStore where
  pool : Pool
  live : List (Region × Bytes)

inductive PoolStoreEvent where
  | alloc (size : ℕ)
  | calloc (size : ℕ)
  | cpy (source size : ℕ)
  /-- The owner of a region stores a byte in it. -/
  | store (region : Region) (offset : ℕ) (byte : UInt8)
  | free (region : Region)

namespace PoolStore

def regions (store : PoolStore) : List Region :=
  store.live.map Prod.fst

/-- What the owners have after a call that allocates, when a new region has a content. -/
def receive (store : PoolStore) (size : ℕ) (content : ℕ → Bytes)
    (returned : Option ℕ × Pool) : PoolStore :=
  ⟨returned.2, (granted returned.1 size).map (fun region => (region, content region.addr)) ++
    store.live⟩

/-- The calls that return.  A region from `pool_alloc` has whatever was in memory. -/
def step (answer : Malloc) (store : PoolStore) : PoolStoreEvent → PoolStore → Prop
  | .alloc size, after => size < 2 ^ 64 ∧ ∃ depth returned,
      poolAlloc answer depth store.pool size = some returned ∧
        after = store.receive size (returned.2.memory.read · size) returned
  | .calloc size, after => size < 2 ^ 64 ∧ ∃ depth returned,
      poolCalloc answer depth store.pool size = some returned ∧
        after = store.receive size (fun _ => List.replicate size 0) returned
  | .cpy source size, after => size < 2 ^ 64 ∧ ∃ depth returned,
      poolCpy answer depth store.pool source size = some returned ∧
        after = store.receive size (fun _ => store.pool.memory.read source size) returned
  | .store region offset byte, after => offset < region.size ∧ ∃ before content behind,
      store.live = before ++ (region, content) :: behind ∧
        after = ⟨{ store.pool with memory := store.pool.memory.store (region.addr + offset) byte },
          before ++ (region, content.set offset byte) :: behind⟩
  | .free region, after => ∃ before content behind,
      store.live = before ++ (region, content) :: behind ∧
        after = ⟨poolFree store.pool region.addr region.size, before ++ behind⟩

def system (answer : Malloc) (blockSize rmd : ℕ) : System PoolStore PoolStoreEvent where
  init store := store.live = [] ∧ ∃ memory after, memory.chunks = [] ∧
    poolNew answer memory blockSize rmd = (some store.pool, after)
  step := step answer

/-- Every region reads as what its owner has put there. -/
structure Kept (blockSize : ℕ) (store : PoolStore) : Prop where
  holds : store.pool.Holds blockSize store.regions
  reads : ∀ entry ∈ store.live,
    store.pool.memory.read entry.1.addr entry.1.size = entry.2

variable {answer : Malloc} {blockSize rmd size : ℕ} {store after : PoolStore}
  {event : PoolStoreEvent} {result : Option ℕ} {pool : Pool} {content : ℕ → Bytes}

theorem Kept.receive (kept : store.Kept blockSize)
    (allocates : Pool.Allocates answer blockSize store.pool store.regions size result pool)
    (new : ∀ p, result = some p → pool.memory.read p size = content p) :
    (store.receive size content (result, pool)).Kept blockSize := by
  have regions : (store.receive size content (result, pool)).regions =
      granted result size ++ store.regions := by
    simp [PoolStore.regions, PoolStore.receive, Function.comp_def]
  constructor
  case holds =>
    rw [regions]
    exact allocates.holds
  case reads =>
    intro entry isEntry
    rcases List.mem_append.mp isEntry with isNew | isOld
    · rcases List.mem_map.mp isNew with ⟨region, isGranted, rfl⟩
      cases result with
      | none => cases isGranted
      | some p =>
          rw [List.mem_singleton.mp isGranted]
          exact new p rfl
    · have isLive : entry.1 ∈ store.regions := List.mem_map_of_mem isOld
      exact (allocates.read isLive).trans (kept.reads entry isOld)

theorem Kept.stored {before behind : List (Region × Bytes)} {region : Region} {old : Bytes}
    {offset : ℕ} (kept : store.Kept blockSize) (inside : offset < region.size)
    (split : store.live = before ++ (region, old) :: behind) (byte : UInt8) :
    Kept blockSize
      ⟨{ store.pool with memory := store.pool.memory.store (region.addr + offset) byte },
        before ++ (region, old.set offset byte) :: behind⟩ := by
  have apart := kept.holds.apart
  have reads := kept.reads
  rw [PoolStore.regions, split, List.map_append, List.map_cons] at apart
  rw [split] at reads
  have keeps : ∀ {other : Region}, other.Apart region →
      (store.pool.memory.store (region.addr + offset) byte).read other.addr other.size =
        store.pool.memory.read other.addr other.size := by
    intro other fromRegion
    apply (Memory.keepsOutside_memset _ _ _ _).read
    apply (fromRegion.symm.of_inside _).symm
    refine ⟨Nat.le_add_right _ _, ?_⟩
    simp only [Region.stop]
    omega
  constructor
  case holds =>
    have same : PoolStore.regions ⟨store.pool, before ++ (region, old.set offset byte) :: behind⟩ =
        store.regions := by
      rw [PoolStore.regions, PoolStore.regions, split]
      simp
    have written : store.pool.Written
        { store.pool with memory := store.pool.memory.store (region.addr + offset) byte } :=
      ⟨_, rfl, rfl⟩
    exact (same ▸ kept.holds).written written
  case reads =>
    rcases List.pairwise_append.mp apart with ⟨-, fromRegion, toRegion⟩
    intro entry isEntry
    rcases List.mem_append.mp isEntry with isBefore | isRest
    · rw [keeps]
      · exact reads entry (List.mem_append_left _ isBefore)
      · exact toRegion _ (List.mem_map_of_mem isBefore) _ List.mem_cons_self
    · rcases List.mem_cons.mp isRest with rfl | isBehind
      · have isOld := reads (region, old) (List.mem_append_right _ List.mem_cons_self)
        exact (Memory.read_store byte).trans (congrArg (List.set · offset byte) isOld)
      · rw [keeps]
        · exact reads entry (List.mem_append_right _ (List.mem_cons_of_mem _ isBehind))
        · exact ((List.pairwise_cons.mp fromRegion).1 _ (List.mem_map_of_mem isBehind)).symm

theorem Kept.free {before behind : List (Region × Bytes)} {region : Region} {old : Bytes}
    (kept : store.Kept blockSize) (split : store.live = before ++ (region, old) :: behind) :
    Kept blockSize ⟨poolFree store.pool region.addr region.size, before ++ behind⟩ := by
  have reads := kept.reads
  rw [split] at reads
  constructor
  case holds =>
    have isLive : region ∈ store.regions := by
      rw [PoolStore.regions, split]
      simp
    have permuted : store.regions.Perm (region :: (before ++ behind).map Prod.fst) := by
      rw [PoolStore.regions, split, List.map_append, List.map_append]
      exact List.perm_middle
    have erased := permuted.erase region
    rw [List.erase_cons_head] at erased
    exact (kept.holds.free isLive).perm erased
  case reads =>
    intro entry isEntry
    show (poolFree store.pool region.addr region.size).memory.read _ _ = _
    rw [Pool.poolFree_memory]
    apply reads
    rcases List.mem_append.mp isEntry with isBefore | isBehind
    · exact List.mem_append_left _ isBefore
    · exact List.mem_append_right _ (List.mem_cons_of_mem _ isBehind)

theorem Kept.step (sound : answer.Sound) (multiple : alignment ∣ blockSize)
    (enough : sizeofPool + sizeofPoolLarge ≤ blockSize) (kept : store.Kept blockSize)
    (stepped : store.step answer event after) : after.Kept blockSize := by
  cases event with
  | alloc size =>
      rcases stepped with ⟨-, depth, ⟨result, pool⟩, returns, rfl⟩
      apply kept.receive (Pool.allocates_poolAlloc sound multiple enough kept.holds returns)
      exact fun _ _ => rfl
  | calloc size =>
      rcases stepped with ⟨-, depth, ⟨result, pool⟩, returns, rfl⟩
      rcases Pool.allocates_poolCalloc sound multiple enough kept.holds returns with
        ⟨allocates, zeros⟩
      exact kept.receive allocates zeros
  | cpy source size =>
      rcases stepped with ⟨-, depth, ⟨result, pool⟩, returns, rfl⟩
      rcases Pool.allocates_poolCpy sound multiple enough kept.holds returns with
        ⟨allocates, copied⟩
      exact kept.receive allocates copied
  | store region offset byte =>
      rcases stepped with ⟨inside, before, old, behind, split, rfl⟩
      exact kept.stored inside split byte
  | free region =>
      rcases stepped with ⟨before, old, behind, split, rfl⟩
      exact kept.free split

/-- In every run each region in use reads as what its owner has put there: zeros after
`pool_calloc`, a copy after `pool_cpy`, and the bytes that have been stored since. -/
theorem contents_kept (sound : answer.Sound) (multiple : alignment ∣ blockSize)
    (enough : sizeofPool + sizeofPoolLarge ≤ blockSize)
    (reachable : (system answer blockSize rmd).Reachable store) :
    ∀ entry ∈ store.live, store.pool.memory.read entry.1.addr entry.1.size = entry.2 := by
  apply @Kept.reads blockSize
  apply reachable.invariant
  · intro start starts
    rcases starts with ⟨none, memory, after, empty, created⟩
    rcases start with ⟨pool, live⟩
    have noLive : live = [] := none
    subst noLive
    exact ⟨Pool.poolNew_holds sound (by omega) empty created, by simp⟩
  · intro before event after kept stepped
    exact kept.step sound multiple enough stepped

/-- A byte is stored in a region of zeros. -/
theorem contents_kept_stored : ∃ store : PoolStore,
    store.live = [(⟨72, 4⟩, [0, 7, 0, 0])] ∧
      ∀ entry ∈ store.live, store.pool.memory.read entry.1.addr entry.1.size = entry.2 := by
  rcases @PoolClient.init_nextMalloc 128 0 (by decide) with ⟨-, created⟩
  have initial : (system PoolClient.nextMalloc 128 0).Reachable ⟨_, []⟩ := .init ⟨rfl, created⟩
  have zeros : (system PoolClient.nextMalloc 128 0).Reachable _ :=
    .step (.calloc 4) initial
      ⟨by decide, 1, _, congrArg (Option.map _) (poolAlloc_small 0 (by decide)), rfl⟩
  have stored : (system PoolClient.nextMalloc 128 0).Reachable _ :=
    .step (.store ⟨72, 4⟩ 1 7) zeros ⟨by decide, [], List.replicate 4 0, [], rfl, rfl⟩
  exact ⟨_, rfl, contents_kept PoolClient.nextMalloc_sound (by decide) (by decide) stored⟩

end PoolStore

end Libhelp

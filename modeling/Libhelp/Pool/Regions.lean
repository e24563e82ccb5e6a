import Libhelp.Lib.Transition
import Libhelp.Pool.Invariant

/-!
# The regions a pool has handed out

A client calls `pool_alloc`, `pool_calloc` and `pool_cpy`, and `pool_free` for the
regions it still has.  The regions in use are those of the client and the nodes of
the large list; the chunks of the pool are its blocks and the data of the large list.
-/

namespace Libhelp

open Transition

/-- A pool and the regions it has handed out and that have not been freed. -/
structure PoolClient where
  pool : Pool
  live : List Region

inductive PoolEvent where
  | alloc (size : ℕ)
  | calloc (size : ℕ)
  | cpy (source size : ℕ)
  | free (region : Region)

namespace PoolClient

/-- What the client has after a call that allocates. -/
def receive (client : PoolClient) (size : ℕ) (returned : Option ℕ × Pool) : PoolClient :=
  ⟨returned.2, granted returned.1 size ++ client.live⟩

/-- The calls that return.  A call may be given any depth of the recursion. -/
def step (answer : Malloc) (client : PoolClient) : PoolEvent → PoolClient → Prop
  | .alloc size, after => size < 2 ^ 64 ∧ ∃ depth returned,
      poolAlloc answer depth client.pool size = some returned ∧
        after = client.receive size returned
  | .calloc size, after => size < 2 ^ 64 ∧ ∃ depth returned,
      poolCalloc answer depth client.pool size = some returned ∧
        after = client.receive size returned
  | .cpy source size, after => size < 2 ^ 64 ∧ ∃ depth returned,
      poolCpy answer depth client.pool source size = some returned ∧
        after = client.receive size returned
  | .free region, after => region ∈ client.live ∧
      after = ⟨poolFree client.pool region.addr region.size, client.live.erase region⟩

def init (answer : Malloc) (blockSize rmd : ℕ) (client : PoolClient) : Prop :=
  client.live = [] ∧ ∃ memory after, memory.chunks = [] ∧
    poolNew answer memory blockSize rmd = (some client.pool, after)

/-- A client of a pool made by `pool_new`. -/
def system (answer : Malloc) (blockSize rmd : ℕ) : System PoolClient PoolEvent :=
  ⟨init answer blockSize rmd, step answer⟩

end PoolClient

namespace PoolLarge

def node (l : PoolLarge) : Region :=
  ⟨l.addr, sizeofPoolLarge⟩

end PoolLarge

namespace Pool

/-- The regions of the client and the nodes of the large list are in use, and the data of the
large list are the chunks given out whole. -/
def Holds (blockSize : ℕ) (pool : Pool) (live : List Region) : Prop :=
  ∃ whole, whole.map Region.addr = pool.large.map PoolLarge.data ∧
    pool.Invariant blockSize whole (live ++ pool.large.map PoolLarge.node)

/-- What a region is to the pool that has handed it out. -/
structure HandedOut (pool : Pool) (region : Region) : Prop where
  aligned : alignment ∣ region.addr
  /-- It lies in a block behind the `pool_t`, or is a chunk of its own. -/
  placed : (∃ p ∈ pool.chain, p.chunk ∈ pool.memory.chunks ∧
      p.addr + sizeofPool ≤ region.addr ∧ region.stop ≤ p.endPtr) ∨
    (∃ l ∈ pool.large, l.data = region.addr) ∧ region ∈ pool.memory.chunks ∧
      ∀ p ∈ pool.chain, p.chunk.Apart region
  headers : ∀ p ∈ pool.chain, Region.Apart ⟨p.addr, sizeofPool⟩ region
  nodes : ∀ l ∈ pool.large, l.node.Apart region

variable {answer : Malloc} {blockSize size rmd depth : ℕ} {pool after : Pool}
  {live : List Region} {result : Option ℕ}

theorem Invariant.small_iff {whole used : List Region}
    (invariant : pool.Invariant blockSize whole used) (enough : sizeofPool ≤ blockSize) :
    pool.Small size ↔ size ≤ poolAllocMax ∧ sizeofPool + size ≤ blockSize := by
  have header : 0 < sizeofPool := by decide
  exact (invariant.fits (header.trans_le enough) List.mem_cons_self).small_iff enough

theorem poolNew_holds {memory after : Memory} (sound : answer.Sound)
    (enough : sizeofPool ≤ blockSize) (empty : memory.chunks = [])
    (created : poolNew answer memory blockSize rmd = (some pool, after)) :
    pool.Holds blockSize [] := by
  rcases poolNew_some created with ⟨head, createdBlock, rfl⟩
  rcases poolNewBlock_some createdBlock with ⟨answered, chunks, -⟩
  rcases fits_poolNewBlock sound enough createdBlock with ⟨fits, -⟩
  rw [empty] at chunks
  refine ⟨[], rfl, ?_⟩
  constructor
  case cur_lt => exact Nat.zero_lt_one
  case chunks =>
    rw [chunks]
    simp [extents, chain, fits.chunk_eq]
  case obtained =>
    rw [chunks, List.forall_mem_singleton]
    exact ⟨sound.aligned answered, sound.bounded answered⟩
  case sized => simp [extents, chain, fits.chunk_eq]
  case valid =>
    constructor
    case separate => simp [extents, chain]
    case bounded => exact List.forall_mem_singleton.mpr fits.extent_bounded
    case placed => simp
    case aligned => simp
    case apart => simp

theorem Holds.written (holds : pool.Holds blockSize live) (written : pool.Written after) :
    after.Holds blockSize live := by
  rcases holds with ⟨whole, data, invariant⟩
  rcases written with ⟨memory, rfl, chunks⟩
  exact ⟨whole, data, invariant.congr rfl invariant.cur_lt_chain chunks⟩

theorem Holds.free {region : Region} (holds : pool.Holds blockSize live) (isLive : region ∈ live) :
    (poolFree pool region.addr region.size).Holds blockSize (live.erase region) := by
  rcases holds with ⟨whole, data, invariant⟩
  have large : (poolFree pool region.addr region.size).large = pool.large := by
    unfold poolFree
    split
    · rfl
    · split
      · exact setLast_large _ _ _
      · rfl
  have permuted := (List.perm_cons_erase isLive).append_right (pool.large.map PoolLarge.node)
  refine ⟨whole, ?_, ?_⟩
  · rw [large]
    exact data
  · rw [large]
    exact (invariant.reuse (invariant.valid.perm permuted)).free

theorem Holds.returns (enough : sizeofPool + sizeofPoolLarge ≤ blockSize)
    (holds : pool.Holds blockSize live) (size : ℕ) :
    ∃ returned, poolAlloc answer 2 pool size = some returned := by
  rcases holds with ⟨whole, -, invariant⟩
  have nodeSmall : pool.Small sizeofPoolLarge :=
    (invariant.small_iff (by omega)).mpr ⟨by decide, enough⟩
  rcases @poolAlloc_cases answer pool size 0 invariant.cur_lt_chain nodeSmall with
    ⟨result, after, returns, -⟩
  exact ⟨_, returns⟩

section Steps

variable (sound : answer.Sound) (multiple : alignment ∣ blockSize)
  (enough : sizeofPool + sizeofPoolLarge ≤ blockSize)

include sound multiple enough

theorem Holds.alloc (holds : pool.Holds blockSize live)
    (alloc : Alloc answer pool size result after) :
    after.Holds blockSize (granted result size ++ live) := by
  rcases holds with ⟨whole, data, invariant⟩
  cases alloc with
  | block small alloc =>
      rw [invariant.small_iff (by omega)] at small
      rcases invariant.blockAlloc sound multiple small.2 alloc with ⟨kept, large⟩
      refine ⟨whole, ?_, ?_⟩
      · rw [large]
        exact data
      · rw [large, List.append_assoc]
        exact kept
  | noMemory memory failed =>
      exact ⟨whole, data, invariant.congr rfl invariant.cur_lt_chain (malloc_none failed)⟩
  | noNode m memory nested obtained alloc =>
      -- the chunk is the last one obtained, for the node got none
      cases alloc with
      | noMemory before p cur memory' split curLe failed =>
          have chunks := poolNewBlock_none failed
          have split' : pool.chain = before ++ [p] := split
          refine ⟨whole, data, invariant.congr rfl ?_ ?_⟩
          · rw [split', List.length_append]
            exact Nat.lt_succ_of_le curLe
          · show memory'.chunks.eraseP (fun chunk => chunk.addr = m) = _
            rw [chunks, (malloc_some obtained).2]
            simp
  | large m l memory nested obtained alloc =>
      have adopted := invariant.adopt sound obtained
      rcases adopted.blockAlloc sound multiple enough alloc with ⟨kept, large⟩
      have sameLarge : nested.large = pool.large := large
      refine ⟨⟨m, size⟩ :: whole, ?_, ?_⟩
      · show m :: whole.map Region.addr = m :: nested.large.map PoolLarge.data
        rw [sameLarge, data]
      · have linked : Invariant blockSize
            { nested with
              head := { nested.head with size := add64 nested.head.size size }
              large := { addr := l, data := m } :: nested.large }
            (⟨m, size⟩ :: whole)
            (granted (some l) sizeofPoolLarge ++
              ⟨m, size⟩ :: (live ++ pool.large.map PoolLarge.node)) :=
          kept.congr rfl kept.cur_lt_chain rfl
        apply linked.reuse
        apply linked.valid.perm
        rw [← sameLarge]
        show (PoolLarge.node ⟨l, m⟩ ::
            ((⟨m, size⟩ :: live) ++ nested.large.map PoolLarge.node)).Perm
          ((⟨m, size⟩ :: live) ++ PoolLarge.node ⟨l, m⟩ :: nested.large.map PoolLarge.node)
        exact List.perm_middle.symm

theorem Holds.poolAlloc (holds : pool.Holds blockSize live)
    (returns : poolAlloc answer depth pool size = some (result, after)) :
    after.Holds blockSize (granted result size ++ live) := by
  rcases holds with ⟨whole, data, invariant⟩
  have nodeSmall : pool.Small sizeofPoolLarge :=
    (invariant.small_iff (by omega)).mpr ⟨by decide, enough⟩
  apply Holds.alloc sound multiple enough ⟨whole, data, invariant⟩
  exact Alloc.of_poolAlloc invariant.cur_lt_chain nodeSmall returns

end Steps

section Placed

variable {whole used : List Region} {region : Region}

theorem Invariant.placed (invariant : pool.Invariant blockSize whole used)
    (positive : 0 < blockSize) (data : whole.map Region.addr = pool.large.map PoolLarge.data)
    (isUsed : region ∈ used) :
    (∃ p ∈ pool.chain, p.chunk ∈ pool.memory.chunks ∧
        p.addr + sizeofPool ≤ region.addr ∧ region.stop ≤ p.endPtr) ∨
      (∃ l ∈ pool.large, l.data = region.addr) ∧ region ∈ pool.memory.chunks ∧
        ∀ p ∈ pool.chain, p.chunk.Apart region := by
  rcases invariant.valid.placed region isUsed with ⟨extent, isExtent, carved⟩ | isWhole
  · apply Or.inl
    rcases List.mem_map.mp isExtent with ⟨p, isBlock, rfl⟩
    refine ⟨p, isBlock, invariant.chunk_mem isExtent, carved.first_le, ?_⟩
    have endPtr := (invariant.fits positive isBlock).endPtr
    have stop : region.stop ≤ p.addr + (p.endPtr - p.addr) := carved.stop_le
    omega
  · apply Or.inr
    refine ⟨?_, ?_, ?_⟩
    · have isData : region.addr ∈ pool.large.map PoolLarge.data := by
        rw [← data]
        exact List.mem_map_of_mem isWhole
      exact List.mem_map.mp isData
    · exact invariant.whole_mem isWhole
    · intro p isBlock
      have separate := (List.pairwise_append.mp invariant.valid.separate).2.2
      exact separate _ (List.mem_map_of_mem (List.mem_map_of_mem isBlock)) _ isWhole

theorem Holds.handedOut (positive : 0 < blockSize) (holds : pool.Holds blockSize live)
    (isLive : region ∈ live) : pool.HandedOut region := by
  rcases holds with ⟨whole, data, invariant⟩
  have isUsed : region ∈ live ++ pool.large.map PoolLarge.node := List.mem_append_left _ isLive
  constructor
  case aligned => exact invariant.valid.aligned region isUsed
  case placed => exact invariant.placed positive data isUsed
  case headers =>
    intro p isBlock
    have apart := invariant.valid.header_apart (List.mem_map_of_mem isBlock) isUsed
    have header : p.extent.header = ⟨p.addr, sizeofPool⟩ := by
      simp [PoolBlock.extent, PoolBlock.chunk, Extent.header]
    rw [← header]
    exact apart
  case nodes =>
    intro l isLarge
    have apart := (List.pairwise_append.mp invariant.valid.apart).2.2
    exact (apart region isLive l.node (List.mem_map_of_mem isLarge)).symm

theorem Holds.apart (holds : pool.Holds blockSize live) : live.Pairwise Region.Apart := by
  rcases holds with ⟨whole, -, invariant⟩
  exact (List.pairwise_append.mp invariant.valid.apart).1

end Placed

end Pool

namespace PoolClient

variable {answer : Malloc} {blockSize rmd : ℕ} {client after : PoolClient} {event : PoolEvent}

/-- A step is a call of `pool_alloc`, after which memory may have been written to, or a call of
`pool_free`. -/
inductive Does (answer : Malloc) (client after : PoolClient) : Prop where
  | allocates (depth size : ℕ) (result : Option ℕ) (pool : Pool)
      (returns : poolAlloc answer depth client.pool size = some (result, pool))
      (written : pool.Written after.pool) (live : after.live = granted result size ++ client.live)
  | frees (region : Region) (isLive : region ∈ client.live)
      (freed : after = ⟨poolFree client.pool region.addr region.size, client.live.erase region⟩)

theorem step_does (stepped : client.step answer event after) : client.Does answer after := by
  cases event with
  | alloc size =>
      rcases stepped with ⟨-, depth, returned, returns, rfl⟩
      exact .allocates depth size returned.1 returned.2 returns (.refl _) rfl
  | calloc size =>
      rcases stepped with ⟨-, depth, returned, returns, rfl⟩
      rcases poolCalloc_poolAlloc returns with ⟨pool, allocated, written⟩
      exact .allocates depth size returned.1 pool allocated written rfl
  | cpy source size =>
      rcases stepped with ⟨-, depth, returned, returns, rfl⟩
      rcases poolCpy_poolAlloc returns with ⟨pool, allocated, written⟩
      exact .allocates depth size returned.1 pool allocated written rfl
  | free region =>
      rcases stepped with ⟨isLive, freed⟩
      exact .frees region isLive freed

theorem step_holds (sound : answer.Sound) (multiple : alignment ∣ blockSize)
    (enough : sizeofPool + sizeofPoolLarge ≤ blockSize)
    (holds : client.pool.Holds blockSize client.live)
    (stepped : client.step answer event after) : after.pool.Holds blockSize after.live := by
  cases step_does stepped with
  | allocates depth size result pool returns written live =>
      rw [live]
      exact (holds.poolAlloc sound multiple enough returns).written written
  | frees region isLive freed =>
      rw [freed]
      exact holds.free isLive

theorem reachable_holds (sound : answer.Sound) (multiple : alignment ∣ blockSize)
    (enough : sizeofPool + sizeofPoolLarge ≤ blockSize)
    (reachable : (system answer blockSize rmd).Reachable client) :
    client.pool.Holds blockSize client.live := by
  apply reachable.invariant
  · intro start starts
    rcases starts with ⟨none, memory, after, empty, created⟩
    rw [none]
    exact Pool.poolNew_holds sound (by omega) empty created
  · intro before event after holds stepped
    exact step_holds sound multiple enough holds stepped

/-- The regions a client has are apart from each other and from what the pool keeps in its
blocks, and each of them lies in memory of the pool. -/
theorem regions_apart (sound : answer.Sound) (multiple : alignment ∣ blockSize)
    (enough : sizeofPool + sizeofPoolLarge ≤ blockSize)
    (reachable : (system answer blockSize rmd).Reachable client) :
    client.live.Pairwise Region.Apart ∧ ∀ region ∈ client.live, client.pool.HandedOut region := by
  have positive : 0 < blockSize := Nat.lt_of_lt_of_le (by decide) enough
  have holds := reachable_holds sound multiple enough reachable
  exact ⟨holds.apart, fun region isLive => holds.handedOut positive isLive⟩

/-- A `malloc` that takes the first aligned address above all chunks. -/
def nextMalloc : Malloc := fun _ chunks size =>
  let p := (chunks.foldr (fun chunk top => max chunk.stop top) 16 + 15) / 16 * 16
  if p + size < 2 ^ 64 then some p else none

theorem le_foldr_stop {chunks : List Region} :
    16 ≤ chunks.foldr (fun chunk top => max chunk.stop top) 16 ∧
      ∀ chunk ∈ chunks, chunk.stop ≤ chunks.foldr (fun chunk top => max chunk.stop top) 16 := by
  induction chunks with
  | nil => simp
  | cons first chunks ih =>
      rw [List.foldr_cons]
      refine ⟨ih.1.trans (le_max_right _ _), ?_⟩
      intro chunk isChunk
      rcases List.mem_cons.mp isChunk with rfl | older
      · exact le_max_left _ _
      · exact (ih.2 chunk older).trans (le_max_right _ _)

theorem nextMalloc_sound : nextMalloc.Sound := by
  have answered : ∀ {calls chunks size p}, nextMalloc calls chunks size = some p →
      p = (chunks.foldr (fun chunk top => max chunk.stop top) 16 + 15) / 16 * 16 ∧
        p + size < 2 ^ 64 := by
    intro calls chunks size p answer
    unfold nextMalloc at answer
    dsimp only at answer
    split at answer
    case isTrue bounded =>
      cases answer
      exact ⟨rfl, bounded⟩
    case isFalse => cases answer
  constructor
  case nonNull =>
    intro calls chunks size p answer
    have above := (@le_foldr_stop chunks).1
    have p_eq := (answered answer).1
    omega
  case aligned =>
    intro calls chunks size p answer
    rw [(answered answer).1]
    exact Nat.dvd_mul_left _ _
  case bounded =>
    intro calls chunks size p answer
    exact (answered answer).2
  case fresh =>
    intro calls chunks size p answer chunk isChunk
    have below := le_foldr_stop.2 chunk isChunk
    have p_eq := (answered answer).1
    apply (Region.Apart.of_stop_le _).symm
    show chunk.stop ≤ p
    omega

theorem init_nextMalloc (bound : 16 + blockSize < 2 ^ 64) :
    init nextMalloc blockSize rmd ⟨⟨⟨16, if rmd < alignment then alignment else rmd, blockSize,
      add64 16 sizeofPool, add64 16 blockSize⟩, [], 0, [],
      ⟨[⟨16, blockSize⟩], 1, fun _ => 0⟩⟩, []⟩ := by
  have first : nextMalloc 0 [] blockSize = some 16 := if_pos bound
  refine ⟨rfl, ⟨[], 0, fun _ => 0⟩, ⟨[⟨16, blockSize⟩], 1, fun _ => 0⟩, rfl, ?_⟩
  simp only [poolNew, poolNewBlock, Memory.malloc, first]

/-- A small and a large allocation from a new pool. -/
theorem reachable_large : ∃ client, (system nextMalloc 128 0).Reachable client ∧
    client.live = [⟨144, 100⟩, ⟨72, 8⟩] ∧
      client.pool.memory.chunks = [⟨144, 100⟩, ⟨16, 128⟩] := by
  have initial : (system nextMalloc 128 0).Reachable _ := .init (init_nextMalloc (by decide))
  have small : (system nextMalloc 128 0).Reachable _ :=
    .step (.alloc 8) initial ⟨by decide, 1, _, poolAlloc_small 0 (by decide), rfl⟩
  have large : (system nextMalloc 128 0).Reachable _ :=
    .step (.alloc 100) small
      ⟨by decide, 2, _, @poolAlloc_large _ _ _ 144 _ 0 (by decide)
        (Prod.ext (by decide) rfl) (by decide), rfl⟩
  exact ⟨_, large, by decide, by decide⟩

theorem regions_apart_large : ∃ client : PoolClient,
    client.live = [⟨144, 100⟩, ⟨72, 8⟩] ∧ client.live.Pairwise Region.Apart ∧
      ∀ region ∈ client.live, client.pool.HandedOut region := by
  rcases reachable_large with ⟨client, reachable, live, -⟩
  exact ⟨client, live, regions_apart nextMalloc_sound (by decide) (by decide) reachable⟩

end PoolClient

end Libhelp

import Libhelp.Lib.Arena
import Libhelp.Pool.Alloc

/-!
# The invariant of a pool

A pool is an arena: its blocks are extents whose header is the `pool_t`, and the
data of the large list are the chunks given out whole.  An allocation from a block
gives a region out of an extent, on a new extent if need be, and `pool_free` gives a
region at the top of the block at `cur` back to it.
-/

namespace Libhelp

/-- The region an allocation gives out. -/
def granted (result : Option ℕ) (size : ℕ) : List Region :=
  match result with
  | none => []
  | some m => [⟨m, size⟩]

namespace PoolBlock

def chunk (p : PoolBlock) : Region :=
  ⟨p.addr, p.endPtr - p.addr⟩

def extent (p : PoolBlock) : Extent :=
  ⟨p.chunk, p.addr + sizeofPool, p.last⟩

end PoolBlock

namespace Pool

def extents (pool : Pool) : List Extent :=
  pool.chain.map PoolBlock.extent

/-- The blocks and the chunks given out whole are what has been obtained from `malloc`, and
the regions in use make up a valid arena on them. -/
structure Invariant (blockSize : ℕ) (pool : Pool) (whole used : List Region) : Prop where
  cur_lt : pool.cur < pool.extents.length
  chunks : pool.memory.chunks.Perm (pool.extents.map Extent.chunk ++ whole)
  obtained : ∀ chunk ∈ pool.memory.chunks, 16 ∣ chunk.addr ∧ chunk.stop < 2 ^ 64
  sized : ∀ chunk ∈ pool.extents.map Extent.chunk, chunk.size = blockSize
  valid : Arena.Valid alignment ⟨pool.extents, whole, used⟩

variable {answer : Malloc} {blockSize size : ℕ} {pool after : Pool} {whole used : List Region}

theorem extents_length (pool : Pool) : pool.extents.length = pool.chain.length :=
  List.length_map _

theorem mem_of_split {before rest : List PoolBlock} {p : PoolBlock}
    (split : pool.chain = before ++ p :: rest) : p ∈ pool.chain := by
  rw [split]
  exact List.mem_append_right _ List.mem_cons_self

theorem extents_split {before rest : List PoolBlock} {p : PoolBlock}
    (split : pool.chain = before ++ p :: rest) :
    pool.extents = before.map PoolBlock.extent ++ p.extent :: rest.map PoolBlock.extent := by
  rw [extents, split, List.map_append, List.map_cons]

theorem extents_setLast {before rest : List PoolBlock} {p : PoolBlock}
    (split : pool.chain = before ++ p :: rest) (last : ℕ) :
    (pool.setLast last before.length).extents =
      before.map PoolBlock.extent ++ { p.extent with last := last } ::
        rest.map PoolBlock.extent :=
  extents_split (chain_setLast split last)

structure Fits (blockSize : ℕ) (p : PoolBlock) : Prop where
  endPtr : p.endPtr = p.addr + blockSize
  first_le : p.addr + sizeofPool ≤ p.last
  last_le : p.last ≤ p.endPtr
  aligned : 16 ∣ p.addr
  bounded : p.endPtr < 2 ^ 64

theorem Fits.chunk_eq {p : PoolBlock} (fits : Fits blockSize p) :
    p.extent.chunk = ⟨p.addr, blockSize⟩ := by
  simp [PoolBlock.extent, PoolBlock.chunk, fits.endPtr]

theorem Fits.chunk_stop {p : PoolBlock} (fits : Fits blockSize p) :
    p.extent.chunk.stop = p.endPtr := by
  rw [fits.chunk_eq, fits.endPtr]
  rfl

theorem Fits.extent_bounded {p : PoolBlock} (fits : Fits blockSize p) : p.extent.Bounded := by
  refine ⟨Nat.le_add_right _ _, fits.first_le, ?_⟩
  rw [fits.chunk_stop]
  exact fits.last_le

/-- A new block is a fresh chunk, and all of it behind the `pool_t` is free. -/
theorem fits_poolNewBlock {memory memory' : Memory} {rmd : ℕ} {n : PoolBlock}
    (sound : answer.Sound) (enough : sizeofPool ≤ blockSize)
    (created : poolNewBlock answer memory blockSize rmd = (some n, memory')) :
    Fits blockSize n ∧ n.last = n.addr + sizeofPool := by
  rcases poolNewBlock_some created with ⟨answered, -, last, endPtr, -⟩
  have bounded := sound.bounded answered
  rw [add64_eq bounded] at endPtr
  rw [add64_eq (by omega)] at last
  exact ⟨⟨endPtr, last.ge, by omega, sound.aligned answered, endPtr ▸ bounded⟩, last⟩

theorem Fits.endPtr_dvd {p : PoolBlock} (fits : Fits blockSize p)
    (multiple : alignment ∣ blockSize) : alignment ∣ p.endPtr := by
  rw [fits.endPtr]
  exact Nat.dvd_add (Nat.dvd_trans (by decide) fits.aligned) multiple

theorem Fits.room {p : PoolBlock} (fits : Fits blockSize p) (multiple : alignment ∣ blockSize)
    (room : size ≤ sub64 p.endPtr (alignPtr p.last)) :
    p.last ≤ alignPtr p.last ∧ alignPtr p.last + size ≤ p.endPtr := by
  have last := alignPtr_le (fits.endPtr_dvd multiple) fits.last_le fits.bounded
  rw [sub64_eq last.2 fits.bounded] at room
  exact ⟨le_alignPtr last.1, by omega⟩

theorem Fits.advance {p : PoolBlock} {last : ℕ} (fits : Fits blockSize p)
    (above : p.last ≤ last) (below : last ≤ p.endPtr) :
    Fits blockSize { p with last := last } :=
  ⟨fits.endPtr, fits.first_le.trans above, below, fits.aligned, fits.bounded⟩

theorem Fits.sized {p : PoolBlock} (fits : Fits blockSize p) :
    sub64 p.endPtr p.addr = blockSize := by
  rw [sub64_eq (by rw [fits.endPtr]; omega) fits.bounded, fits.endPtr, Nat.add_sub_cancel_left]

/-- All that is behind the `pool_t` of a new block is free. -/
theorem Fits.fresh_room {p : PoolBlock} (fits : Fits blockSize p)
    (lastPtr : p.last = p.addr + sizeofPool) (small : sizeofPool + size ≤ blockSize) :
    alignPtr p.last = p.last ∧ p.last + size ≤ p.endPtr := by
  have endPtr := fits.endPtr
  have lastDvd : alignment ∣ p.last := by
    rw [lastPtr]
    exact Nat.dvd_add (Nat.dvd_trans (by decide) fits.aligned) (by decide)
  exact ⟨alignPtr_of_dvd lastDvd (lt_of_le_of_lt fits.last_le fits.bounded), by omega⟩

/-- The test of `pool_alloc` on the size, without the arithmetic of `size_t`. -/
theorem Fits.small_iff (fits : Fits blockSize pool.head) (enough : sizeofPool ≤ blockSize) :
    pool.Small size ↔ size ≤ poolAllocMax ∧ sizeofPool + size ≤ blockSize := by
  have endPtr := fits.endPtr
  have bounded := fits.bounded
  unfold Small
  rw [fits.sized, alignPtr_sizeofPool, sub64_eq enough (by omega)]
  apply and_congr_right
  intro _
  omega

namespace Invariant

/-- The walk along the chain and the calls of `malloc` that fail change nothing that the
invariant is about. -/
theorem congr (invariant : pool.Invariant blockSize whole used)
    (extents : after.extents = pool.extents) (cur : after.cur < pool.chain.length)
    (chunks : after.memory.chunks = pool.memory.chunks) :
    after.Invariant blockSize whole used := by
  constructor
  case cur_lt =>
    rw [extents, extents_length]
    exact cur
  case chunks =>
    rw [extents, chunks]
    exact invariant.chunks
  case obtained =>
    rw [chunks]
    exact invariant.obtained
  case sized =>
    rw [extents]
    exact invariant.sized
  case valid =>
    rw [extents]
    exact invariant.valid

theorem cur_lt_chain (invariant : pool.Invariant blockSize whole used) :
    pool.cur < pool.chain.length := by
  rw [← extents_length]
  exact invariant.cur_lt

theorem chunk_mem (invariant : pool.Invariant blockSize whole used) {extent : Extent}
    (isExtent : extent ∈ pool.extents) : extent.chunk ∈ pool.memory.chunks := by
  rw [invariant.chunks.mem_iff]
  exact List.mem_append_left _ (List.mem_map_of_mem isExtent)

theorem whole_mem (invariant : pool.Invariant blockSize whole used) {chunk : Region}
    (isWhole : chunk ∈ whole) : chunk ∈ pool.memory.chunks := by
  rw [invariant.chunks.mem_iff]
  exact List.mem_append_right _ isWhole

theorem fits (invariant : pool.Invariant blockSize whole used) (positive : 0 < blockSize)
    {p : PoolBlock} (isBlock : p ∈ pool.chain) : Fits blockSize p := by
  have isExtent : p.extent ∈ pool.extents := List.mem_map_of_mem isBlock
  have bounded := invariant.valid.bounded _ isExtent
  have sized : p.endPtr - p.addr = blockSize := invariant.sized _ (List.mem_map_of_mem isExtent)
  rcases invariant.obtained _ (invariant.chunk_mem isExtent) with ⟨aligned, stop⟩
  have endPtr : p.endPtr = p.addr + blockSize := by omega
  have top : p.chunk.stop = p.endPtr := by
    simp only [PoolBlock.chunk, Region.stop_mk]
    omega
  exact ⟨endPtr, bounded.first_le, top ▸ bounded.last_le, aligned, top ▸ stop⟩

theorem fresh (invariant : pool.Invariant blockSize whole used) (sound : answer.Sound) {p : ℕ}
    (answered : answer pool.memory.calls pool.memory.chunks size = some p) :
    ∀ chunk ∈ pool.extents.map Extent.chunk ++ whole, Region.Apart ⟨p, size⟩ chunk := by
  intro chunk isChunk
  exact sound.fresh answered chunk (invariant.chunks.mem_iff.mpr isChunk)

theorem reuse {used' : List Region} (invariant : pool.Invariant blockSize whole used)
    (valid : Arena.Valid alignment ⟨pool.extents, whole, used'⟩) :
    pool.Invariant blockSize whole used' :=
  { invariant with valid := valid }

/-- The used part of a block changes, and the arena stays valid. -/
theorem replace {used' : List Region} (invariant : pool.Invariant blockSize whole used)
    {before rest : List Extent} {extent : Extent} {last : ℕ}
    (split : pool.extents = before ++ extent :: rest)
    (extents : after.extents = before ++ { extent with last := last } :: rest)
    (cur : after.cur < pool.chain.length) (chunks : after.memory.chunks = pool.memory.chunks)
    (valid : Arena.Valid alignment
      ⟨before ++ { extent with last := last } :: rest, whole, used'⟩) :
    after.Invariant blockSize whole used' := by
  rw [← extents_length, split] at cur
  constructor
  case cur_lt =>
    rw [extents]
    simpa using cur
  case chunks =>
    have same := invariant.chunks
    rw [split] at same
    rw [extents, chunks]
    simpa using same
  case obtained =>
    rw [chunks]
    exact invariant.obtained
  case sized =>
    have same := invariant.sized
    rw [split] at same
    rw [extents]
    simpa using same
  case valid =>
    rw [extents]
    exact valid

theorem carve (invariant : pool.Invariant blockSize whole used) {before rest : List Extent}
    {extent : Extent} {m : ℕ} (split : pool.extents = before ++ extent :: rest)
    (extents : after.extents = before ++ { extent with last := m + size } :: rest)
    (cur : after.cur < pool.chain.length) (chunks : after.memory.chunks = pool.memory.chunks)
    (aligned : alignment ∣ m) (above : extent.last ≤ m) (below : m + size ≤ extent.chunk.stop) :
    after.Invariant blockSize whole (⟨m, size⟩ :: used) := by
  apply invariant.replace split extents cur chunks
  have region : alignment ∣ (⟨m, size⟩ : Region).addr := aligned
  have valid := invariant.valid
  rw [split] at valid
  exact valid.carve region above below

theorem retract {region : Region} (invariant : pool.Invariant blockSize whole (region :: used))
    {before rest : List PoolBlock} {p : PoolBlock} (split : pool.chain = before ++ p :: rest)
    (nonempty : region.size ≠ 0) (onTop : region.stop = p.last) :
    (pool.setLast region.addr before.length).Invariant blockSize whole used := by
  apply invariant.replace (extents_split split) (extents_setLast split _)
  · rw [setLast_cur]
    exact invariant.cur_lt_chain
  · rw [setLast_memory]
  · have valid := invariant.valid
    rw [extents_split split] at valid
    have hasHeader : p.extent.chunk.addr < p.extent.first :=
      Nat.lt_add_of_pos_right (by decide)
    exact valid.retract hasHeader nonempty onTop

theorem added (invariant : pool.Invariant blockSize whole used) {p : PoolBlock} {m : ℕ}
    (fits : Fits blockSize p)
    (extents : after.extents = pool.extents ++ [{ p.extent with last := m + size }])
    (cur : after.cur ≤ pool.chain.length)
    (chunks : after.memory.chunks = ⟨p.addr, blockSize⟩ :: pool.memory.chunks)
    (fresh : ∀ chunk ∈ pool.extents.map Extent.chunk ++ whole,
      Region.Apart ⟨p.addr, blockSize⟩ chunk)
    (aligned : alignment ∣ m) (above : p.last ≤ m) (below : m + size ≤ p.endPtr) :
    after.Invariant blockSize whole (⟨m, size⟩ :: used) := by
  have chunk := fits.chunk_eq
  constructor
  case cur_lt =>
    rw [extents, List.length_append, extents_length]
    exact Nat.lt_succ_of_le cur
  case chunks =>
    have permuted := (invariant.chunks.cons (⟨p.addr, blockSize⟩ : Region)).trans
      List.perm_middle.symm
    rw [extents, chunks]
    simpa [chunk] using permuted
  case obtained =>
    rw [chunks, List.forall_mem_cons]
    refine ⟨⟨fits.aligned, ?_⟩, invariant.obtained⟩
    rw [← chunk, fits.chunk_stop]
    exact fits.bounded
  case sized =>
    rw [extents, List.map_append, List.forall_mem_append]
    refine ⟨invariant.sized, ?_⟩
    simp [chunk]
  case valid =>
    rw [extents]
    have region : alignment ∣ (⟨m, size⟩ : Region).addr := aligned
    have grown := invariant.valid.grow fits.extent_bounded (by rw [chunk]; exact fresh)
    exact grown.carve region above (le_of_le_of_eq below fits.chunk_stop.symm)

theorem blockAlloc (invariant : pool.Invariant blockSize whole used) (sound : answer.Sound)
    (multiple : alignment ∣ blockSize) (small : sizeofPool + size ≤ blockSize)
    {result : Option ℕ} (alloc : BlockAlloc answer pool size result after) :
    after.Invariant blockSize whole (granted result size ++ used) ∧
      after.large = pool.large := by
  have positive : 0 < blockSize := by
    have : 0 < sizeofPool := by decide
    omega
  cases alloc with
  | room before rest p cur split room curLe =>
      have fits := invariant.fits positive (mem_of_split split)
      rcases fits.room multiple room with ⟨above, below⟩
      have bound : cur < pool.chain.length := by
        rw [split, List.length_append, List.length_cons]
        omega
      refine ⟨?_, setLast_large _ _ _⟩
      rw [add64_eq (lt_of_le_of_lt below fits.bounded)]
      exact invariant.carve (extents_split split) (extents_setLast split _) bound
        (congrArg Memory.chunks (setLast_memory _ _ _)) (dvd_alignPtr _) above
        (le_of_le_of_eq below fits.chunk_stop.symm)
  | noMemory before p cur memory split curLe failed =>
      refine ⟨invariant.congr rfl ?_ (poolNewBlock_none failed), rfl⟩
      have bound : before.length < (before ++ [p]).length := by simp
      rw [split]
      exact lt_of_le_of_lt curLe bound
  | added before p n cur memory split curLe created =>
      have last := invariant.fits positive (mem_of_split split)
      rw [last.sized] at created
      rcases poolNewBlock_some created with ⟨answered, chunks, -⟩
      rcases fits_poolNewBlock sound (by omega) created with ⟨fits, lastPtr⟩
      rcases fits.fresh_room lastPtr small with ⟨start, below⟩
      have lastDvd : alignment ∣ n.last := start ▸ dvd_alignPtr n.last
      refine ⟨?_, rfl⟩
      rw [start, add64_eq (lt_of_le_of_lt below fits.bounded)]
      refine invariant.added fits ?_ curLe chunks (invariant.fresh sound answered) lastDvd le_rfl
        below
      simp [extents, chain, PoolBlock.extent, PoolBlock.chunk]

theorem stop_lt (invariant : pool.Invariant blockSize whole used) {region : Region}
    (isUsed : region ∈ used) : region.stop < 2 ^ 64 := by
  rcases invariant.valid.placed region isUsed with ⟨extent, isExtent, carved⟩ | isWhole
  · have chunk := invariant.obtained _ (invariant.chunk_mem isExtent)
    exact lt_of_le_of_lt carved.stop_le chunk.2
  · exact (invariant.obtained _ (invariant.whole_mem isWhole)).2

theorem free {region : Region} (invariant : pool.Invariant blockSize whole (region :: used)) :
    (poolFree pool region.addr region.size).Invariant blockSize whole used := by
  have released := invariant.reuse (invariant.valid.release (List.sublist_cons_self _ _))
  have bound : region.addr + region.size < 2 ^ 64 := invariant.stop_lt List.mem_cons_self
  rcases exists_split invariant.cur_lt_chain with ⟨before, p, rest, split, position, -⟩
  have cur : pool.chain[pool.cur]? = some p := by
    rw [split, ← position]
    simp
  unfold poolFree
  rw [cur, add64_eq bound]
  dsimp only
  split
  case isFalse => exact released
  case isTrue onTop =>
    rw [← position]
    by_cases empty : region.size = 0
    · -- `last` is set to what it is
      apply released.congr
      · have same : p.last = region.addr := by omega
        rw [extents_split split, extents_setLast split, ← same]
        rfl
      · rw [setLast_cur]
        exact invariant.cur_lt_chain
      · rw [setLast_memory]
    · exact invariant.retract split empty onTop.symm

theorem adopt (invariant : pool.Invariant blockSize whole used) (sound : answer.Sound)
    {m : ℕ} {memory : Memory} (obtained : pool.memory.malloc answer size = (some m, memory)) :
    Invariant blockSize { pool with memory := memory } (⟨m, size⟩ :: whole)
      (⟨m, size⟩ :: used) := by
  rcases malloc_some obtained with ⟨answered, chunks⟩
  have aligned := sound.aligned answered
  constructor
  case cur_lt => exact invariant.cur_lt
  case chunks =>
    show memory.chunks.Perm (pool.extents.map Extent.chunk ++ ⟨m, size⟩ :: whole)
    rw [chunks]
    exact (invariant.chunks.cons _).trans List.perm_middle.symm
  case obtained =>
    show ∀ chunk ∈ memory.chunks, 16 ∣ chunk.addr ∧ chunk.stop < 2 ^ 64
    rw [chunks, List.forall_mem_cons]
    exact ⟨⟨aligned, sound.bounded answered⟩, invariant.obtained⟩
  case sized => exact invariant.sized
  case valid =>
    have region : alignment ∣ (⟨m, size⟩ : Region).addr := dvd_trans (by decide) aligned
    exact invariant.valid.adopt region (invariant.fresh sound answered)

end Invariant

end Pool

end Libhelp

import Libhelp.Pool.Chain

/-!
# The room that `pool_alloc` computes

`pool_alloc` subtracts before it compares, and a difference that would be negative
wraps to a huge one.  Nothing wraps in a pool whose block size is a multiple of
`ALIGNMENT` that holds the `pool_t`: each block stays within its chunk.  In every other
pool a few calls lead to a difference that wraps.
-/

namespace Libhelp

open Transition

namespace Pool

/-- What `pool_alloc` computes for a request: in the test on the size, and in the blocks that it
examines, a block with room and those before it that lack it. -/
structure Exact (pool : Pool) (size : ℕ) : Prop where
  test : size ≤ poolAllocMax → pool.head.addr + alignPtr sizeofPool ≤ pool.head.endPtr
  blocks : pool.Small size → ∀ lack p after, pool.chain.drop pool.cur = lack ++ p :: after →
    (∀ b ∈ lack, b.free < size) →
      p.last ≤ alignPtr p.last ∧ alignPtr p.last ≤ p.endPtr ∧
        (size ≤ p.free → alignPtr p.last + size ≤ p.endPtr)

variable {answer : Malloc} {blockSize size rmd : ℕ} {pool after : Pool} {result : Option ℕ}

theorem Every.fits_blockAlloc (every : pool.Every (Fits blockSize)) (sound : answer.Sound)
    (enough : sizeofPool ≤ blockSize) (multiple : alignment ∣ blockSize)
    (small : pool.Small size) (alloc : BlockAlloc answer pool size result after) :
    after.Every (Fits blockSize) := by
  apply every.blockAlloc alloc
  case counted =>
    intro p size fits
    exact ⟨fits.endPtr, fits.first_le, fits.last_le, fits.aligned, fits.bounded⟩
  case served =>
    intro p isBlock room
    have fits := every.blocks p isBlock
    rcases fits.room multiple room with ⟨above, below⟩
    rw [add64_eq (lt_of_le_of_lt below fits.bounded)]
    exact fits.advance (above.trans (Nat.le_add_right _ _)) below
  case created =>
    intro p isBlock n memory created
    rw [(every.blocks p isBlock).sized] at created
    rcases fits_poolNewBlock sound enough created with ⟨fits, lastPtr⟩
    have holds := ((every.blocks pool.head List.mem_cons_self).small_iff enough).mp small
    rcases fits.fresh_room lastPtr holds.2 with ⟨start, below⟩
    rw [start, add64_eq (lt_of_le_of_lt below fits.bounded)]
    exact fits.advance (Nat.le_add_right _ _) below

theorem Every.exact (every : pool.Every (Fits blockSize)) (enough : sizeofPool ≤ blockSize)
    (multiple : alignment ∣ blockSize) : pool.Exact size := by
  constructor
  case test =>
    intro _
    rw [alignPtr_sizeofPool, (every.blocks pool.head List.mem_cons_self).endPtr]
    omega
  case blocks =>
    intro _ lack p rest examined _
    have isBlock : p ∈ pool.chain := by
      apply List.mem_of_mem_drop
      rw [examined]
      exact List.mem_append_right _ List.mem_cons_self
    have fits := every.blocks p isBlock
    have last := alignPtr_le (fits.endPtr_dvd multiple) fits.last_le fits.bounded
    exact ⟨le_alignPtr last.1, last.2, fun room => (fits.room multiple room).2⟩

end Pool

namespace PoolClient

/-- Whatever calls of `pool_alloc` have been made, the next one computes exactly. -/
def NeverWraps (answer : Malloc) (blockSize rmd : ℕ) : Prop :=
  ∀ client size, (allocating answer blockSize rmd).Reachable client → size < 2 ^ 64 →
    client.pool.Exact size

variable {answer : Malloc} {blockSize size rmd : ℕ} {client : PoolClient}

theorem reachable_fits (sound : answer.Sound) (enough : sizeofPool ≤ blockSize)
    (multiple : alignment ∣ blockSize)
    (reachable : (allocating answer blockSize rmd).Reachable client) :
    client.pool.Every (Pool.Fits blockSize) := by
  apply reachable.invariant
  · intro start starts
    rcases starts with ⟨_, memory, after, _, created⟩
    exact .of_poolNew created fun n _ new => (Pool.fits_poolNewBlock sound enough new).1
  · intro before event after every stepped
    rcases stepped with ⟨⟨size, rfl⟩, _, depth, returned, returns, rfl⟩
    apply Pool.Every.poolAlloc _ _ every returns
    · intro p size fits
      exact ⟨fits.endPtr, fits.first_le, fits.last_le, fits.aligned, fits.bounded⟩
    · intro pool after size result every small alloc
      exact every.fits_blockAlloc sound enough multiple small alloc

section FirstBlock

variable {head : PoolBlock} {memory : Memory} {live : List Region}

theorem reachable_served (size : ℕ) (fits : Pool.Fits blockSize head)
    (aligned : alignment ∣ head.last) (low : size ≤ poolAllocMax)
    (room : head.last + size ≤ head.endPtr)
    (reachable : (allocating answer blockSize rmd).Reachable ⟨⟨head, [], 0, [], memory⟩, live⟩) :
    ∃ live, (allocating answer blockSize rmd).Reachable
      ⟨⟨{ head with last := head.last + size }, [], 0, [], memory⟩, live⟩ := by
  have endPtr := fits.endPtr
  have first := fits.first_le
  have bounded := fits.bounded
  have start := alignPtr_of_dvd aligned (lt_of_le_of_lt fits.last_le bounded)
  have small : Pool.Small ⟨head, [], 0, [], memory⟩ size :=
    (Pool.Fits.small_iff fits (by omega)).mpr ⟨low, by omega⟩
  have free : size ≤ head.free := by
    rw [PoolBlock.free, start, sub64_eq fits.last_le bounded]
    omega
  have served := @poolAllocBlock_room answer ⟨head, [], 0, [], memory⟩ size [] [] [] head rfl rfl
    (by simp) free
  rw [start, add64_eq (by omega)] at served
  refine ⟨⟨head.last, size⟩ :: live, .step (.alloc size) reachable
    ⟨⟨size, rfl⟩, ?_, 1, _, poolAlloc_small 0 small, ?_⟩⟩
  · unfold poolAllocMax at low
    omega
  · rw [served]
    rfl

theorem reachable_filled (count : ℕ) (fits : Pool.Fits blockSize head)
    (aligned : alignment ∣ head.last) (room : head.last + alignment * count ≤ head.endPtr)
    (reachable : (allocating answer blockSize rmd).Reachable ⟨⟨head, [], 0, [], memory⟩, live⟩) :
    ∃ live, (allocating answer blockSize rmd).Reachable
      ⟨⟨{ head with last := head.last + alignment * count }, [], 0, [], memory⟩, live⟩ := by
  induction count with
  | zero => exact ⟨live, reachable⟩
  | succ count ih =>
      rw [Nat.mul_succ] at room ⊢
      rcases ih (by omega) with ⟨live, filled⟩
      have kept := @Pool.Fits.advance _ head (head.last + alignment * count) fits
        (Nat.le_add_right _ _) (by omega)
      have stillAligned := Nat.dvd_add aligned (Nat.dvd_mul_right alignment count)
      rw [← Nat.add_assoc] at room ⊢
      exact reachable_served alignment kept stillAligned (by decide) room filled

end FirstBlock

/-- A block size that is no multiple of `ALIGNMENT`: once all its bytes are in use, the aligned
`last` of the first block is behind its `end`. -/
theorem not_neverWraps (sound : answer.Sound) (enough : sizeofPool ≤ blockSize)
    (ragged : ¬alignment ∣ blockSize) (made : ∃ client, init answer blockSize rmd client) :
    ¬NeverWraps answer blockSize rmd := by
  intro exact
  rcases made with ⟨⟨pool, live⟩, starts⟩
  have initial : (allocating answer blockSize rmd).Reachable ⟨pool, live⟩ := .init starts
  rcases starts with ⟨rfl, memory, after, _, created⟩
  rcases poolNew_some created with ⟨head, createdBlock, rfl⟩
  rcases Pool.fits_poolNewBlock sound enough createdBlock with ⟨fits, lastPtr⟩
  have endPtr := fits.endPtr
  have aligned : alignment ∣ head.addr := Nat.dvd_trans (by decide) fits.aligned
  have start : alignment ∣ head.last := by
    rw [lastPtr]
    exact Nat.dvd_add aligned (by decide)
  have division := Nat.div_add_mod (blockSize - sizeofPool) alignment
  have remainder := Nat.mod_lt (blockSize - sizeofPool) (show alignment > 0 by decide)
  rcases reachable_filled ((blockSize - sizeofPool) / alignment) fits start (by omega) initial
    with ⟨live, filled⟩
  have kept := @Pool.Fits.advance _ head
    (head.last + alignment * ((blockSize - sizeofPool) / alignment)) fits
    (Nat.le_add_right _ _) (by omega)
  have stillAligned := Nat.dvd_add start
    (Nat.dvd_mul_right alignment ((blockSize - sizeofPool) / alignment))
  rcases reachable_served ((blockSize - sizeofPool) % alignment) kept stillAligned
    (by unfold poolAllocMax alignment at *; omega) (by dsimp only; omega) filled with ⟨live, full⟩
  rcases (exact _ 0 full (by decide)).blocks ⟨by decide, Nat.zero_le _⟩ [] _ [] rfl (by simp)
    with ⟨above, below, _⟩
  have ends : head.addr + blockSize = alignPtr (head.addr + blockSize) := by
    have last : head.last + alignment * ((blockSize - sizeofPool) / alignment) +
        (blockSize - sizeofPool) % alignment = head.addr + blockSize := by omega
    dsimp only at above below
    rw [last] at above below
    omega
  have divides := dvd_alignPtr (head.addr + blockSize)
  rw [← ends] at divides
  exact ragged ((Nat.dvd_add_right aligned).mp divides)

/-- The arithmetic of `pool_alloc` is exact in every pool of a block size, whatever has been
allocated, exactly when the block size is a multiple of `ALIGNMENT` that holds a `pool_t`. -/
theorem neverWraps_iff (sound : answer.Sound) (made : ∃ client, init answer blockSize rmd client) :
    NeverWraps answer blockSize rmd ↔ sizeofPool ≤ blockSize ∧ alignment ∣ blockSize := by
  constructor
  · intro exact
    have enough : sizeofPool ≤ blockSize := by
      rcases made with ⟨⟨pool, live⟩, starts⟩
      have test := (exact ⟨pool, live⟩ 0 (.init starts) (by decide)).test (by decide)
      rcases starts with ⟨_, memory, after, _, created⟩
      rcases poolNew_some created with ⟨head, createdBlock, rfl⟩
      rcases poolNewBlock_some createdBlock with ⟨answered, _, _, endPtr, _⟩
      rw [add64_eq (sound.bounded answered)] at endPtr
      have inside : head.addr + alignPtr sizeofPool ≤ head.endPtr := test
      rw [alignPtr_sizeofPool, endPtr] at inside
      omega
    refine ⟨enough, ?_⟩
    by_contra ragged
    exact not_neverWraps sound enough ragged made exact
  · intro fit client size reachable _
    exact (reachable_fits sound fit.1 fit.2 reachable).exact fit.1 fit.2

theorem neverWraps_iff_ragged : NeverWraps nextMalloc 128 0 ∧ ¬NeverWraps nextMalloc 127 0 :=
  ⟨(neverWraps_iff nextMalloc_sound ⟨_, init_nextMalloc (by decide)⟩).mpr (by decide),
    fun exact => absurd
      ((neverWraps_iff nextMalloc_sound ⟨_, init_nextMalloc (by decide)⟩).mp exact) (by decide)⟩

/-- A block of 57 bytes that ends at 73: once its only byte is in use, the room at 80 is taken to
be `2 ^ 64 - 7` bytes, and the next byte is served from there. -/
theorem serves_behind_end : ∃ client after, (allocating nextMalloc 57 0).Reachable client ∧
    client.pool.head.endPtr = 73 ∧ client.pool.head.free = 2 ^ 64 - 7 ∧
      poolAlloc nextMalloc 1 client.pool 1 = some (some 80, after) ∧ ¬client.pool.Exact 1 := by
  have initial : (allocating nextMalloc 57 0).Reachable _ := .init (init_nextMalloc (by decide))
  have full : (allocating nextMalloc 57 0).Reachable _ :=
    .step (.alloc 1) initial
      ⟨⟨1, rfl⟩, by decide, 1, _, poolAlloc_small 0 (by decide), rfl⟩
  refine ⟨_, _, full, by decide, by decide,
    (poolAlloc_small 0 (by decide)).trans (congrArg some (Prod.ext (by decide) rfl)), ?_⟩
  intro exact
  have room := (exact.blocks (by decide) [] _ [] rfl (by simp)).2.1
  exact absurd room (by decide)

end PoolClient

end Libhelp

import Libhelp.Pool.Regions

/-!
# What holds of every block

A property of the blocks that each allocation from a block keeps is kept by every call
of `pool_alloc`, to whatever depth it calls itself: the rest of the call changes the
large list, the memory and the `size` of the first block.

The blocks of a pool have the size and the threshold that the pool was made with.
-/

namespace Libhelp

open Transition

namespace Pool

/-- `cur` is on a block of the chain, and the property holds of every block. -/
structure Every (P : PoolBlock → Prop) (pool : Pool) : Prop where
  cur_lt : pool.cur < pool.chain.length
  blocks : ∀ p ∈ pool.chain, P p

variable {P : PoolBlock → Prop} {answer : Malloc} {blockSize size rmd depth last i : ℕ}
  {pool after : Pool} {result : Option ℕ}

theorem length_chain_setLast (pool : Pool) (last i : ℕ) :
    (pool.setLast last i).chain.length = pool.chain.length := by
  cases i with
  | zero => rfl
  | succ i =>
      show (pool.tail.modify i _).length + 1 = pool.tail.length + 1
      rw [List.length_modify]

theorem Every.blockAlloc (every : pool.Every P) (alloc : BlockAlloc answer pool size result after)
    (counted : ∀ p size, P p → P { p with size := size })
    (served : ∀ p ∈ pool.chain, size ≤ p.free →
      P { p with last := add64 (alignPtr p.last) size })
    (created : ∀ p ∈ pool.chain, ∀ n memory,
      poolNewBlock answer pool.memory (sub64 p.endPtr p.addr) p.rmd = (some n, memory) →
        P { n with last := add64 (alignPtr n.last) size }) : after.Every P := by
  cases alloc with
  | room before rest p cur split room curLe =>
      have isBlock := mem_of_split split
      have blocks := every.blocks
      rw [split, List.forall_mem_append, List.forall_mem_cons] at blocks
      constructor
      case cur_lt =>
        show cur < (pool.setLast _ _).chain.length
        rw [length_chain_setLast, split, List.length_append, List.length_cons]
        omega
      case blocks =>
        show ∀ b ∈ (pool.setLast _ _).chain, P b
        rw [chain_setLast split, List.forall_mem_append, List.forall_mem_cons]
        exact ⟨blocks.1, served p isBlock room, blocks.2.2⟩
  | noMemory before p cur memory split curLe failed =>
      refine ⟨?_, every.blocks⟩
      show cur < pool.chain.length
      rw [split, List.length_append]
      exact Nat.lt_succ_of_le curLe
  | added before p n cur memory split curLe new =>
      constructor
      case cur_lt =>
        simp only [chain, List.length_cons, List.length_append, List.length_nil] at curLe ⊢
        omega
      case blocks =>
        have blocks := List.forall_mem_cons.mp every.blocks
        refine List.forall_mem_cons.mpr ⟨counted _ _ blocks.1, ?_⟩
        exact List.forall_mem_append.mpr ⟨blocks.2,
          List.forall_mem_singleton.mpr (created p (mem_of_split split) n memory new)⟩

/-- What the allocations from blocks keep, a call keeps at every depth. -/
theorem Every.poolAlloc (counted : ∀ p size, P p → P { p with size := size })
    (kept : ∀ {pool after : Pool} {size : ℕ} {result : Option ℕ}, pool.Every P →
      pool.Small size → BlockAlloc answer pool size result after → after.Every P)
    (every : pool.Every P) (returns : poolAlloc answer depth pool size = some (result, after)) :
    after.Every P := by
  induction depth generalizing pool size result after with
  | zero => cases returns
  | succ depth ih =>
      rw [Libhelp.poolAlloc] at returns
      split at returns
      case isTrue small =>
        have alloc := poolAllocBlock_cases answer size every.cur_lt
        rw [Option.some.inj returns] at alloc
        exact kept every small alloc
      case isFalse large =>
        cases obtained : pool.memory.malloc answer size with
        | mk m memory =>
            rw [obtained] at returns
            cases m with
            | none =>
                cases returns
                exact ⟨every.cur_lt, every.blocks⟩
            | some m =>
                have start : Every P { pool with memory := memory } :=
                  ⟨every.cur_lt, every.blocks⟩
                rcases Option.map_eq_some_iff.mp returns with ⟨⟨l, nested⟩, node, linked⟩
                have keptNode := ih start node
                cases l with
                | none =>
                    cases linked
                    exact ⟨keptNode.cur_lt, keptNode.blocks⟩
                | some l =>
                    cases linked
                    have blocks := List.forall_mem_cons.mp keptNode.blocks
                    exact ⟨keptNode.cur_lt,
                      List.forall_mem_cons.mpr ⟨counted _ _ blocks.1, blocks.2⟩⟩

theorem Every.setLast (moved : ∀ p, P p → P { p with last := last }) (every : pool.Every P)
    (bound : i < pool.chain.length) : (pool.setLast last i).Every P := by
  rcases exists_split bound with ⟨before, p, rest, split, rfl, -⟩
  constructor
  case cur_lt =>
    rw [setLast_cur, length_chain_setLast]
    exact every.cur_lt
  case blocks =>
    have blocks := every.blocks
    rw [split, List.forall_mem_append, List.forall_mem_cons] at blocks
    rw [chain_setLast split, List.forall_mem_append, List.forall_mem_cons]
    exact ⟨blocks.1, moved p blocks.2.1, blocks.2.2⟩

theorem Every.written (every : pool.Every P) (written : pool.Written after) : after.Every P := by
  rcases written with ⟨memory, rfl, _⟩
  exact ⟨every.cur_lt, every.blocks⟩

theorem Every.of_poolNew {memory memory' : Memory}
    (created : poolNew answer memory blockSize rmd = (some pool, memory'))
    (new : ∀ n memory', poolNewBlock answer memory blockSize rmd = (some n, memory') → P n) :
    pool.Every P := by
  rcases poolNew_some created with ⟨head, createdBlock, rfl⟩
  exact ⟨Nat.zero_lt_one, List.forall_mem_singleton.mpr (new head _ createdBlock)⟩

end Pool

/-- The block has the size and the threshold that `pool_new` was called with. -/
structure PoolBlock.Made (blockSize rmd : ℕ) (p : PoolBlock) : Prop where
  sized : sub64 p.endPtr p.addr = blockSize
  threshold : p.rmd = if rmd < alignment then alignment else rmd

namespace Pool

/-- A node of the large list passes the test on the size in a pool with this block size. -/
def NodeFits (blockSize : ℕ) : Prop :=
  blockSize < sizeofPool ∨ sizeofPool + sizeofPoolLarge ≤ blockSize

variable {answer : Malloc} {blockSize size rmd : ℕ} {pool after : Pool} {result : Option ℕ}

theorem made_of_poolNewBlock {memory memory' : Memory} {n : PoolBlock}
    (bound : blockSize < 2 ^ 64)
    (created : poolNewBlock answer memory blockSize rmd = (some n, memory')) :
    n.Made blockSize rmd := by
  rcases poolNewBlock_some created with ⟨_, _, _, endPtr, _, threshold⟩
  refine ⟨?_, threshold⟩
  rw [endPtr]
  unfold sub64 add64
  omega

theorem Every.made_blockAlloc (every : pool.Every (PoolBlock.Made blockSize rmd))
    (bound : blockSize < 2 ^ 64) (alloc : BlockAlloc answer pool size result after) :
    after.Every (PoolBlock.Made blockSize rmd) := by
  apply every.blockAlloc alloc
  · intro p size made
    exact ⟨made.sized, made.threshold⟩
  · intro p isBlock _
    have made := every.blocks p isBlock
    exact ⟨made.sized, made.threshold⟩
  · intro p isBlock n memory created
    have made := every.blocks p isBlock
    rw [made.sized] at created
    have new := made_of_poolNewBlock bound created
    refine ⟨new.sized, ?_⟩
    show n.rmd = _
    rw [new.threshold, made.threshold]
    split <;> simp

/-- Below `sizeof(pool_t)` the difference wraps, and the node passes as well. -/
theorem Every.nodeSmall_iff (every : pool.Every (PoolBlock.Made blockSize rmd))
    (bound : blockSize < 2 ^ 64) : pool.Small sizeofPoolLarge ↔ NodeFits blockSize := by
  unfold Small NodeFits
  rw [(every.blocks pool.head List.mem_cons_self).sized, alignPtr_sizeofPool]
  unfold sub64 poolAllocMax sizeofPool sizeofPoolLarge
  omega

end Pool

namespace PoolClient

/-- A client that only calls `pool_alloc`. -/
def allocating (answer : Malloc) (blockSize rmd : ℕ) : System PoolClient PoolEvent :=
  (system answer blockSize rmd).restrict fun _ event => ∃ size, event = .alloc size

variable {answer : Malloc} {blockSize rmd : ℕ} {client : PoolClient}

theorem reachable_made (bound : blockSize < 2 ^ 64)
    (reachable : (system answer blockSize rmd).Reachable client) :
    client.pool.Every (PoolBlock.Made blockSize rmd) := by
  apply reachable.invariant
  · intro start starts
    rcases starts with ⟨_, memory, after, _, created⟩
    exact .of_poolNew created fun n memory' new => Pool.made_of_poolNewBlock bound new
  · intro before event after every stepped
    cases step_does stepped with
    | allocates depth size result pool returns written live =>
        apply Pool.Every.written _ written
        apply Pool.Every.poolAlloc _ _ every returns
        · intro p size made
          exact ⟨made.sized, made.threshold⟩
        · intro pool after size result every _ alloc
          exact every.made_blockAlloc bound alloc
    | frees region isLive freed =>
        rw [freed]
        unfold poolFree
        split
        · exact every
        · split
          · apply Pool.Every.setLast _ every every.cur_lt
            intro p made
            exact ⟨made.sized, made.threshold⟩
          · exact every

end PoolClient

end Libhelp

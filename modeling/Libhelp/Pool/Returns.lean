import Libhelp.Pool.Chain

/-!
# What a call of `pool_alloc` returns

`pool_alloc` calls itself for the node of the large list.  The call is served from a
block exactly when the node passes the test on the size, which depends on the block
size of the pool alone.  Then a call returns, and one that fails leaves the pool as it
was: only `cur` may have moved.
-/

namespace Libhelp

open Transition

namespace PoolClient

variable {answer : Malloc} {blockSize size rmd depth : ℕ} {client : PoolClient} {after : Pool}

section Failure

/-- A pool in which only `cur` has moved, forward to a block of the chain, and `malloc` has been
called. -/
def OnlyCurMoved (pool after : Pool) : Prop :=
  ∃ cur calls, after =
      { pool with cur := cur, memory := { pool.memory with calls := calls } } ∧
    pool.cur ≤ cur ∧ cur < pool.chain.length

theorem onlyCurMoved_of_search {pool : Pool}
    (search : BlockSearch answer pool size none after) : OnlyCurMoved pool after := by
  cases search with
  | noMemory passed lack q memory split position lacks failed =>
      rw [poolNewBlock_none_eq failed]
      refine ⟨moveCur lack pool.cur pool.cur, pool.memory.calls + 1, rfl, le_moveCur le_rfl, ?_⟩
      have behind := @moveCur_le lack pool.cur pool.cur le_rfl
      rw [split, List.length_append, List.length_append, List.length_singleton, position]
      omega

theorem onlyCurMoved_of_poolAlloc {pool : Pool} (curLt : pool.cur < pool.chain.length)
    (nodeSmall : pool.Small sizeofPoolLarge)
    (failed : poolAlloc answer depth pool size = some (none, after)) :
    OnlyCurMoved pool after := by
  cases AllocSearch.of_poolAlloc curLt nodeSmall failed with
  | block small search => exact onlyCurMoved_of_search search
  | noMemory memory large refused =>
      rw [malloc_none_eq refused]
      exact ⟨pool.cur, pool.memory.calls + 1, rfl, le_rfl, curLt⟩
  | noNode m memory nested large obtained search =>
      -- the chunk is the first one that `free` finds at its address
      rcases onlyCurMoved_of_search search with ⟨cur, calls, rfl, moved, inChain⟩
      rcases malloc_some_eq obtained with ⟨_, rfl⟩
      refine ⟨cur, calls, ?_, moved, inChain⟩
      simp [Memory.free]

theorem poolAlloc_of_poolCalloc_none {pool : Pool}
    (failed : poolCalloc answer depth pool size = some (none, after)) :
    poolAlloc answer depth pool size = some (none, after) := by
  rcases Option.map_eq_some_iff.mp failed with ⟨⟨_ | p, nested⟩, allocated, same⟩
  · cases same
    exact allocated
  · cases same

theorem poolAlloc_of_poolCpy_none {pool : Pool} {source : ℕ}
    (failed : poolCpy answer depth pool source size = some (none, after)) :
    poolAlloc answer depth pool size = some (none, after) := by
  rcases Option.map_eq_some_iff.mp failed with ⟨⟨_ | p, nested⟩, allocated, same⟩
  · cases same
    exact allocated
  · cases same

/-- A call that returns `NULL` leaves the blocks, the large list and the chunks as they were;
`cur` may have moved forward along the chain. -/
theorem failed_alloc_keeps_pool (bound : blockSize < 2 ^ 64)
    (enough : sizeofPool + sizeofPoolLarge ≤ blockSize)
    (reachable : (system answer blockSize rmd).Reachable client) (source : ℕ)
    (failed : poolAlloc answer depth client.pool size = some (none, after) ∨
      poolCalloc answer depth client.pool size = some (none, after) ∨
      poolCpy answer depth client.pool source size = some (none, after)) :
    ∃ cur calls, after = { client.pool with
        cur := cur, memory := { client.pool.memory with calls := calls } } ∧
      client.pool.cur ≤ cur ∧ cur < client.pool.chain.length := by
  have made := reachable_made bound reachable
  have nodeSmall := (made.nodeSmall_iff bound).mpr (.inr enough)
  apply onlyCurMoved_of_poolAlloc made.cur_lt nodeSmall
  rcases failed with alloc | calloc | cpy
  · exact alloc
  · exact poolAlloc_of_poolCalloc_none calloc
  · exact poolAlloc_of_poolCpy_none cpy

/-- A `malloc` that answers a number of calls and then refuses. -/
def refuseAfter (calls : ℕ) : Malloc := fun n chunks size =>
  if n < calls then nextMalloc n chunks size else none

/-- A pool whose only block is full gets a chunk of 100 bytes, but no block for the node. -/
theorem failed_alloc_keeps_pool_node : ∃ client after,
    (system (refuseAfter 2) 128 0).Reachable client ∧ client.live = [⟨72, 72⟩] ∧
      poolAlloc (refuseAfter 2) 2 client.pool 100 = some (none, after) ∧
      after.memory.chunks = client.pool.memory.chunks := by
  let new : Pool := ⟨⟨16, 8, 128, 72, 144⟩, [], 0, [], ⟨[⟨16, 128⟩], 1, fun _ => 0⟩⟩
  have initial : init (refuseAfter 2) 128 0 ⟨new, []⟩ := by
    refine ⟨rfl, ⟨[], 0, fun _ => 0⟩, new.memory, rfl, ?_⟩
    simp [new, poolNew, poolNewBlock, Memory.malloc, refuseAfter, nextMalloc, add64, alignment,
      sizeofPool]
  have full : (system (refuseAfter 2) 128 0).Reachable _ :=
    .step (.alloc 72) (.init initial) ⟨by decide, 1, _, poolAlloc_small 0 (by decide), rfl⟩
  have failed : poolAlloc (refuseAfter 2) 2 (poolAllocBlock (refuseAfter 2) new 72).2 100 =
      some (none, _) :=
    (@poolAlloc_large _ _ _ 144 _ 0 (by decide) (Prod.ext (by decide) rfl) (by decide)).trans
      (congrArg some (Prod.ext (by decide) rfl))
  rcases failed_alloc_keeps_pool (by decide) (by decide) full 0 (.inl failed) with
    ⟨cur, calls, same, _⟩
  exact ⟨_, _, full, by decide, failed, by rw [same]⟩

end Failure

section Termination

end Termination

end PoolClient

end Libhelp

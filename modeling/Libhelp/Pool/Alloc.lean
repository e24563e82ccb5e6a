import Libhelp.Pool.Walk
import Mathlib.Data.Nat.ModEq

/-!
# What an allocation does

The search of `pool_alloc` ends at a block that has room or at the last block.  So an
allocation from a block moves the `last` of one block, adds a block behind the last
one, or gets no chunk from `malloc`.
-/

namespace Libhelp

section Arithmetic

variable {x y : ℕ}

theorem le_alignPtr (bound : x + 7 < 2 ^ 64) : x ≤ alignPtr x := by
  unfold alignPtr alignment
  rw [add64_eq bound]
  omega

theorem dvd_alignPtr (x : ℕ) : alignment ∣ alignPtr x :=
  Nat.dvd_mul_left _ _

theorem alignPtr_le (aligned : alignment ∣ y) (ordered : x ≤ y) (bound : y < 2 ^ 64) :
    x + 7 < 2 ^ 64 ∧ alignPtr x ≤ y := by
  unfold alignment at aligned
  have small : x + 7 < 2 ^ 64 := by omega
  refine ⟨small, ?_⟩
  unfold alignPtr alignment
  rw [add64_eq small]
  omega

theorem alignPtr_of_dvd (aligned : alignment ∣ x) (bound : x < 2 ^ 64) : alignPtr x = x := by
  rcases alignPtr_le aligned le_rfl bound with ⟨small, below⟩
  exact le_antisymm below (le_alignPtr small)

theorem alignPtr_sizeofPool : alignPtr sizeofPool = sizeofPool := by
  decide

end Arithmetic

section Obtain

variable {answer : Malloc} {memory after : Memory} {size rmd p : ℕ} {n : PoolBlock}

theorem malloc_none_eq (failed : memory.malloc answer size = (none, after)) :
    after = { memory with calls := memory.calls + 1 } := by
  unfold Memory.malloc at failed
  split at failed
  · cases failed
    rfl
  · cases failed

theorem malloc_none (failed : memory.malloc answer size = (none, after)) :
    after.chunks = memory.chunks := by
  rw [malloc_none_eq failed]

theorem malloc_some_eq (obtained : memory.malloc answer size = (some p, after)) :
    answer memory.calls memory.chunks size = some p ∧
      after = { memory with chunks := ⟨p, size⟩ :: memory.chunks, calls := memory.calls + 1 } := by
  unfold Memory.malloc at obtained
  split at obtained
  · cases obtained
  case h_2 q answered =>
    cases obtained
    exact ⟨answered, rfl⟩

theorem malloc_some (obtained : memory.malloc answer size = (some p, after)) :
    answer memory.calls memory.chunks size = some p ∧
      after.chunks = ⟨p, size⟩ :: memory.chunks := by
  rcases malloc_some_eq obtained with ⟨answered, rfl⟩
  exact ⟨answered, rfl⟩

theorem poolNewBlock_none_eq (failed : poolNewBlock answer memory size rmd = (none, after)) :
    after = { memory with calls := memory.calls + 1 } := by
  unfold poolNewBlock at failed
  split at failed
  case h_1 refused =>
    cases failed
    exact malloc_none_eq refused
  case h_2 => cases failed

theorem poolNewBlock_none (failed : poolNewBlock answer memory size rmd = (none, after)) :
    after.chunks = memory.chunks := by
  rw [poolNewBlock_none_eq failed]

theorem poolNewBlock_some (created : poolNewBlock answer memory size rmd = (some n, after)) :
    answer memory.calls memory.chunks size = some n.addr ∧
      after.chunks = ⟨n.addr, size⟩ :: memory.chunks ∧
      n.last = add64 n.addr sizeofPool ∧ n.endPtr = add64 n.addr size ∧ n.size = size ∧
      n.rmd = if rmd < alignment then alignment else rmd := by
  unfold poolNewBlock at created
  split at created
  case h_1 => cases created
  case h_2 pool memory' obtained =>
    cases created
    rcases malloc_some obtained with ⟨answered, chunks⟩
    exact ⟨answered, chunks, rfl, rfl, rfl, rfl⟩

theorem poolNew_some {pool : Pool}
    (created : poolNew answer memory size rmd = (some pool, after)) :
    ∃ head, poolNewBlock answer memory size rmd = (some head, after) ∧
      pool = ⟨head, [], 0, [], after⟩ := by
  unfold poolNew at created
  split at created
  case h_1 => cases created
  case h_2 head memory' createdBlock =>
    cases created
    exact ⟨head, createdBlock, rfl⟩

end Obtain

section Blocks

variable {pool : Pool} {before after : List PoolBlock} {p : PoolBlock}

theorem modify_length {α : Type*} (f : α → α) (a : α) (before after : List α) :
    (before ++ a :: after).modify before.length f = before ++ f a :: after := by
  induction before with
  | nil => rfl
  | cons first before ih =>
      rw [List.cons_append, List.length_cons, List.modify_succ_cons, ih]
      rfl

theorem Pool.chain_setLast (split : pool.chain = before ++ p :: after) (last : ℕ) :
    (pool.setLast last before.length).chain = before ++ { p with last := last } :: after := by
  rcases before with _ | ⟨first, before⟩
  · rcases List.cons.inj split with ⟨rfl, rfl⟩
    rfl
  · rcases List.cons.inj split with ⟨rfl, tail⟩
    show pool.head :: pool.tail.modify before.length _ = _
    rw [tail]
    exact congrArg _ (modify_length _ _ _ _)

theorem Pool.take_chain_setLast (pool : Pool) (last : ℕ) {i count : ℕ} (bound : count ≤ i) :
    (pool.setLast last i).chain.take count = pool.chain.take count := by
  cases i with
  | zero =>
      rw [Nat.le_zero.mp bound]
      rfl
  | succ i =>
      show (pool.head :: pool.tail.modify i _).take count = (pool.head :: pool.tail).take count
      apply List.ext_getElem?
      intro j
      rw [List.getElem?_take, List.getElem?_take]
      split
      case isFalse => rfl
      case isTrue inside =>
        cases j with
        | zero => rfl
        | succ j => exact List.getElem?_modify_ne _ _ (by omega)

@[simp]
theorem Pool.setLast_large (pool : Pool) (last i : ℕ) :
    (pool.setLast last i).large = pool.large := by
  cases i <;> rfl

@[simp]
theorem Pool.setLast_memory (pool : Pool) (last i : ℕ) :
    (pool.setLast last i).memory = pool.memory := by
  cases i <;> rfl

@[simp]
theorem Pool.setLast_cur (pool : Pool) (last i : ℕ) : (pool.setLast last i).cur = pool.cur := by
  cases i <;> rfl

end Blocks

/-- What an allocation from a block does. -/
inductive BlockAlloc (answer : Malloc) (pool : Pool) (size : ℕ) : Option ℕ → Pool → Prop where
  /-- A block has room. -/
  | room (before after : List PoolBlock) (p : PoolBlock) (cur : ℕ)
      (split : pool.chain = before ++ p :: after)
      (room : size ≤ sub64 p.endPtr (alignPtr p.last)) (curLe : cur ≤ before.length) :
      BlockAlloc answer pool size (some (alignPtr p.last))
        { pool.setLast (add64 (alignPtr p.last) size) before.length with cur := cur }
  /-- No block has room and there is no memory for another one. -/
  | noMemory (before : List PoolBlock) (p : PoolBlock) (cur : ℕ) (memory : Memory)
      (split : pool.chain = before ++ [p]) (curLe : cur ≤ before.length)
      (failed : poolNewBlock answer pool.memory (sub64 p.endPtr p.addr) p.rmd = (none, memory)) :
      BlockAlloc answer pool size none { pool with cur := cur, memory := memory }
  /-- No block has room and another one is added. -/
  | added (before : List PoolBlock) (p n : PoolBlock) (cur : ℕ) (memory : Memory)
      (split : pool.chain = before ++ [p]) (curLe : cur ≤ pool.chain.length)
      (created : poolNewBlock answer pool.memory (sub64 p.endPtr p.addr) p.rmd =
        (some n, memory)) :
      BlockAlloc answer pool size (some (alignPtr n.last)) { pool with
        head := { pool.head with size := add64 pool.head.size n.size }
        tail := pool.tail ++ [{ n with last := add64 (alignPtr n.last) size }]
        cur := cur
        memory := memory }

theorem exists_split {blocks : List PoolBlock} {i : ℕ} (bound : i < blocks.length) :
    ∃ before p after, blocks = before ++ p :: after ∧ before.length = i ∧
      blocks.drop i = p :: after := by
  refine ⟨blocks.take i, blocks[i], blocks.drop (i + 1), ?_, ?_, List.drop_eq_getElem_cons bound⟩
  · rw [← List.drop_eq_getElem_cons bound, List.take_append_drop]
  · rw [List.length_take]
    omega

theorem BlockSearch.blockAlloc {answer : Malloc} {pool after : Pool} {size : ℕ}
    {result : Option ℕ} (search : BlockSearch answer pool size result after) :
    BlockAlloc answer pool size result after := by
  -- The walk moves `cur` no further than to where it ends.
  have behind : ∀ (passed lack : List PoolBlock), passed.length = pool.cur →
      moveCur lack pool.cur pool.cur ≤ (passed ++ lack).length := by
    intro passed lack position
    rw [List.length_append, position]
    exact moveCur_le le_rfl
  cases search with
  | room passed lack rest q split position lacks room =>
      have place : (passed ++ lack).length = pool.cur + lack.length := by
        rw [List.length_append, position]
      rw [← place]
      exact .room (passed ++ lack) rest q _ (by rw [split, List.append_assoc]) room
        (behind passed lack position)
  | noMemory passed lack q memory split position lacks failed =>
      exact .noMemory (passed ++ lack) q _ memory (by rw [split, List.append_assoc])
        (behind passed lack position) failed
  | added passed lack q n memory split position lacks created =>
      refine .added (passed ++ lack) q n _ memory (by rw [split, List.append_assoc]) ?_ created
      rw [split]
      exact behind passed (lack ++ [q]) position

theorem poolAllocBlock_cases (answer : Malloc) {pool : Pool} (size : ℕ)
    (curLt : pool.cur < pool.chain.length) :
    BlockAlloc answer pool size (poolAllocBlock answer pool size).1
      (poolAllocBlock answer pool size).2 :=
  (poolAllocBlock_search answer size curLt).blockAlloc

/-- What an allocation does when the nodes of the large list are served from blocks. -/
inductive Alloc (answer : Malloc) (pool : Pool) (size : ℕ) : Option ℕ → Pool → Prop where
  | block {result : Option ℕ} {after : Pool} (small : pool.Small size)
      (alloc : BlockAlloc answer pool size result after) : Alloc answer pool size result after
  | noMemory (memory : Memory) (failed : pool.memory.malloc answer size = (none, memory)) :
      Alloc answer pool size none { pool with memory := memory }
  /-- The chunk is freed again. -/
  | noNode (m : ℕ) (memory : Memory) (after : Pool)
      (obtained : pool.memory.malloc answer size = (some m, memory))
      (alloc : BlockAlloc answer { pool with memory := memory } sizeofPoolLarge none after) :
      Alloc answer pool size none { after with memory := after.memory.free m }
  | large (m l : ℕ) (memory : Memory) (after : Pool)
      (obtained : pool.memory.malloc answer size = (some m, memory))
      (alloc : BlockAlloc answer { pool with memory := memory } sizeofPoolLarge (some l) after) :
      Alloc answer pool size (some m) { after with
        head := { after.head with size := add64 after.head.size size }
        large := { addr := l, data := m } :: after.large }

/-- The same with the blocks that the search passes. -/
inductive AllocSearch (answer : Malloc) (pool : Pool) (size : ℕ) : Option ℕ → Pool → Prop where
  | block {result : Option ℕ} {after : Pool} (small : pool.Small size)
      (search : BlockSearch answer pool size result after) :
      AllocSearch answer pool size result after
  | noMemory (memory : Memory) (large : ¬pool.Small size)
      (failed : pool.memory.malloc answer size = (none, memory)) :
      AllocSearch answer pool size none { pool with memory := memory }
  | noNode (m : ℕ) (memory : Memory) (after : Pool) (large : ¬pool.Small size)
      (obtained : pool.memory.malloc answer size = (some m, memory))
      (search : BlockSearch answer { pool with memory := memory } sizeofPoolLarge none after) :
      AllocSearch answer pool size none { after with memory := after.memory.free m }
  | large (m l : ℕ) (memory : Memory) (after : Pool) (large : ¬pool.Small size)
      (obtained : pool.memory.malloc answer size = (some m, memory))
      (search : BlockSearch answer { pool with memory := memory } sizeofPoolLarge (some l) after) :
      AllocSearch answer pool size (some m) { after with
        head := { after.head with size := add64 after.head.size size }
        large := { addr := l, data := m } :: after.large }

theorem AllocSearch.alloc {answer : Malloc} {pool after : Pool} {size : ℕ} {result : Option ℕ}
    (search : AllocSearch answer pool size result after) :
    Alloc answer pool size result after := by
  cases search with
  | block small search => exact .block small search.blockAlloc
  | noMemory memory large failed => exact .noMemory memory failed
  | noNode m memory nested large obtained search =>
      exact .noNode m memory nested obtained search.blockAlloc
  | large m l memory nested large obtained search =>
      exact .large m l memory nested obtained search.blockAlloc

section Recursion

variable {answer : Malloc} {pool : Pool} {size : ℕ}

theorem poolAlloc_small (depth : ℕ) (small : pool.Small size) :
    poolAlloc answer (depth + 1) pool size = some (poolAllocBlock answer pool size) := by
  rw [poolAlloc, if_pos small]

/-- A call that has returned returns the same at a greater depth. -/
theorem poolAlloc_succ {depth : ℕ} {returned : Option ℕ × Pool}
    (returns : poolAlloc answer depth pool size = some returned) :
    poolAlloc answer (depth + 1) pool size = some returned := by
  induction depth generalizing pool size returned with
  | zero => cases returns
  | succ depth ih =>
      rw [poolAlloc] at returns ⊢
      split
      case isTrue small =>
        rw [if_pos small] at returns
        exact returns
      case isFalse large =>
        rw [if_neg large] at returns
        cases obtained : pool.memory.malloc answer size with
        | mk result memory =>
            rw [obtained] at returns
            cases result with
            | none => exact returns
            | some m =>
                rcases Option.map_eq_some_iff.mp returns with ⟨node, nested, rfl⟩
                exact Option.map_eq_some_iff.mpr ⟨node, ih nested, rfl⟩

/-- The call for a node does not go deeper. -/
theorem poolAlloc_large {m : ℕ} {memory : Memory} (depth : ℕ) (large : ¬pool.Small size)
    (obtained : pool.memory.malloc answer size = (some m, memory))
    (nodeSmall : pool.Small sizeofPoolLarge) :
    poolAlloc answer (depth + 2) pool size = some (poolLink m size
      (poolAllocBlock answer { pool with memory := memory } sizeofPoolLarge)) := by
  have nested : Pool.Small { pool with memory := memory } sizeofPoolLarge := nodeSmall
  rw [poolAlloc, if_neg large, obtained]
  dsimp only
  rw [poolAlloc_small depth nested, Option.map_some]

/-- What a call returns when the nodes of the large list are served from blocks: it has then
returned at the second depth. -/
theorem poolAlloc_cases (depth : ℕ) (curLt : pool.cur < pool.chain.length)
    (nodeSmall : pool.Small sizeofPoolLarge) :
    ∃ result after, poolAlloc answer (depth + 2) pool size = some (result, after) ∧
      AllocSearch answer pool size result after := by
  by_cases small : pool.Small size
  · exact ⟨_, _, poolAlloc_small (depth + 1) small,
      .block small (poolAllocBlock_search answer size curLt)⟩
  · cases obtained : pool.memory.malloc answer size with
    | mk result memory =>
        cases result with
        | none =>
            refine ⟨none, _, ?_, .noMemory memory small obtained⟩
            rw [poolAlloc, if_neg small, obtained]
        | some m =>
            have search := @poolAllocBlock_search { pool with memory := memory } answer
              sizeofPoolLarge curLt
            rw [poolAlloc_large depth small obtained nodeSmall]
            cases node : poolAllocBlock answer { pool with memory := memory } sizeofPoolLarge with
            | mk result after =>
                rw [node] at search
                cases result with
                | none => exact ⟨_, _, rfl, .noNode m memory after small obtained search⟩
                | some l => exact ⟨_, _, rfl, .large m l memory after small obtained search⟩

theorem AllocSearch.of_poolAlloc {depth : ℕ} {result : Option ℕ} {after : Pool}
    (curLt : pool.cur < pool.chain.length) (nodeSmall : pool.Small sizeofPoolLarge)
    (returns : poolAlloc answer depth pool size = some (result, after)) :
    AllocSearch answer pool size result after := by
  rcases @poolAlloc_cases answer pool size depth curLt nodeSmall with ⟨_, _, deeper, search⟩
  rw [poolAlloc_succ (poolAlloc_succ returns)] at deeper
  cases deeper
  exact search

theorem Alloc.of_poolAlloc {depth : ℕ} {result : Option ℕ} {after : Pool}
    (curLt : pool.cur < pool.chain.length) (nodeSmall : pool.Small sizeofPoolLarge)
    (returns : poolAlloc answer depth pool size = some (result, after)) :
    Alloc answer pool size result after :=
  (AllocSearch.of_poolAlloc curLt nodeSmall returns).alloc

end Recursion

section Writing

variable {answer : Malloc} {depth size : ℕ} {pool : Pool} {returned : Option ℕ × Pool}

/-- A pool whose memory has been written to. -/
def Pool.Written (pool after : Pool) : Prop :=
  ∃ memory, after = { pool with memory := memory } ∧ memory.chunks = pool.memory.chunks

theorem Pool.Written.refl (pool : Pool) : pool.Written pool :=
  ⟨pool.memory, rfl, rfl⟩

/-- `pool_calloc` is `pool_alloc` but for the bytes. -/
theorem poolCalloc_poolAlloc (returns : poolCalloc answer depth pool size = some returned) :
    ∃ after, poolAlloc answer depth pool size = some (returned.1, after) ∧
      after.Written returned.2 := by
  rcases Option.map_eq_some_iff.mp returns with ⟨⟨result, after⟩, allocated, rfl⟩
  cases result with
  | none => exact ⟨after, allocated, .refl after⟩
  | some p => exact ⟨after, allocated, after.memory.memset p 0 size, rfl, rfl⟩

theorem poolCpy_poolAlloc {source : ℕ}
    (returns : poolCpy answer depth pool source size = some returned) :
    ∃ after, poolAlloc answer depth pool size = some (returned.1, after) ∧
      after.Written returned.2 := by
  rcases Option.map_eq_some_iff.mp returns with ⟨⟨result, after⟩, allocated, rfl⟩
  cases result with
  | none => exact ⟨after, allocated, .refl after⟩
  | some ret => exact ⟨after, allocated, after.memory.memcpy ret source size, rfl, rfl⟩

end Writing

end Libhelp

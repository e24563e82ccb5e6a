import Libhelp.Pool.Pool
import Mathlib.Data.List.TakeWhile

/-!
# The search along the chain

An allocation from a block examines the blocks from `cur` on and takes the first that
has room.  The blocks it passes lack room; `cur` moves behind the last of them that is
nearly full, over all that stand before it.  Where no block has room, another one is
added behind the last.
-/

namespace Libhelp

namespace PoolBlock

/-- The bytes between the aligned `last` and `end`, as `pool_alloc` computes them. -/
def free (p : PoolBlock) : ℕ :=
  sub64 p.endPtr (alignPtr p.last)

/-- The free bytes are below the threshold of the block. -/
def NearlyFull (p : PoolBlock) : Prop :=
  p.free < p.rmd

instance (p : PoolBlock) : Decidable p.NearlyFull :=
  inferInstanceAs (Decidable (_ < _))

end PoolBlock

/-- Where the walk has moved `c` behind blocks that lack room, the first of them at position
`i` of the chain. -/
def moveCur : List PoolBlock → ℕ → ℕ → ℕ
  | [], _, c => c
  | p :: rest, i, c => moveCur rest (i + 1) (if p.NearlyFull then i + 1 else c)

/-- The blocks that an allocation from a block passes. -/
def Pool.lacking (pool : Pool) (size : ℕ) : List PoolBlock :=
  (pool.chain.drop pool.cur).takeWhile fun p => p.free < size

section MoveCur

variable {lack : List PoolBlock} {q : PoolBlock} {i c : ℕ}

theorem moveCur_concat (lack : List PoolBlock) (q : PoolBlock) (i c : ℕ) :
    moveCur (lack ++ [q]) i c =
      if q.NearlyFull then i + lack.length + 1 else moveCur lack i c := by
  induction lack generalizing i c with
  | nil => rfl
  | cons p lack ih =>
      have place : i + 1 + lack.length = i + (p :: lack).length := by
        rw [List.length_cons]
        omega
      rw [List.cons_append, moveCur, ih, moveCur, place]

theorem le_moveCur (cLe : c ≤ i) : c ≤ moveCur lack i c := by
  induction lack using List.reverseRecOn with
  | nil => exact le_rfl
  | append_singleton lack q ih =>
      rw [moveCur_concat]
      split
      · omega
      · exact ih

theorem moveCur_le (cLe : c ≤ i) : moveCur lack i c ≤ i + lack.length := by
  induction lack using List.reverseRecOn with
  | nil => exact cLe
  | append_singleton lack q ih =>
      rw [moveCur_concat, List.length_append, List.length_singleton]
      split <;> omega

/-- `cur` moves behind all blocks that lack room exactly when the last of them is nearly
full. -/
theorem moveCur_eq_iff : moveCur lack i i = i + lack.length ↔
    ∀ q ∈ lack.getLast?, q.NearlyFull := by
  induction lack using List.reverseRecOn with
  | nil => simp [moveCur]
  | append_singleton lack q _ =>
      have behind := @moveCur_le lack i i le_rfl
      rw [moveCur_concat, List.length_append, List.length_singleton, List.getLast?_concat]
      simp only [Option.mem_some_iff, forall_eq']
      split
      · simpa [*] using Nat.add_assoc i lack.length 1
      · rename_i roomy
        simp only [roomy, iff_false]
        omega

end MoveCur

section Walk

variable {size : ℕ} {lack after : List PoolBlock} {q : PoolBlock}

theorem poolWalk_room (lacks : ∀ b ∈ lack, b.free < size) (room : size ≤ q.free)
    {p : PoolBlock} {rest : List PoolBlock} (split : p :: rest = lack ++ q :: after) (i c : ℕ) :
    poolWalk size p rest i c c = .room (i + lack.length) (alignPtr q.last) (moveCur lack i c) := by
  have enough : sub64 q.endPtr (alignPtr q.last) ≥ size := room
  induction lack generalizing p rest i c with
  | nil =>
      rcases List.cons.inj split with ⟨rfl, rfl⟩
      cases rest <;> simp only [poolWalk, if_pos enough] <;> rfl
  | cons b lack ih =>
      rcases List.cons.inj split with ⟨rfl, rest_eq⟩
      have short : ¬sub64 p.endPtr (alignPtr p.last) ≥ size :=
        not_le.mpr (lacks p List.mem_cons_self)
      rcases List.exists_cons_of_ne_nil (l := rest) (by simp [rest_eq]) with ⟨next, more, rfl⟩
      have place : i + 1 + lack.length = i + (p :: lack).length := by
        rw [List.length_cons]
        omega
      rw [poolWalk, if_neg short, ih (fun b mem => lacks b (List.mem_cons_of_mem _ mem)) rest_eq,
        place]
      rfl

theorem poolWalk_full (lacks : ∀ b ∈ lack ++ [q], b.free < size)
    {p : PoolBlock} {rest : List PoolBlock} (split : p :: rest = lack ++ [q]) (i c : ℕ) :
    poolWalk size p rest i c c = .full q (moveCur (lack ++ [q]) i c) (moveCur lack i c) := by
  induction lack generalizing p rest i c with
  | nil =>
      rcases List.cons.inj split with ⟨rfl, rfl⟩
      have short : ¬sub64 p.endPtr (alignPtr p.last) ≥ size :=
        not_le.mpr (lacks p List.mem_cons_self)
      rw [poolWalk, if_neg short]
      rfl
  | cons b lack ih =>
      rcases List.cons.inj split with ⟨rfl, rest_eq⟩
      have short : ¬sub64 p.endPtr (alignPtr p.last) ≥ size :=
        not_le.mpr (lacks p List.mem_cons_self)
      rcases List.exists_cons_of_ne_nil (l := rest) (by simp [rest_eq]) with ⟨next, more, rfl⟩
      rw [poolWalk, if_neg short, ih (fun b mem => lacks b (List.mem_cons_of_mem _ mem)) rest_eq]
      rfl

end Walk

/-- What an allocation from a block does, by the blocks it passes. -/
inductive BlockSearch (answer : Malloc) (pool : Pool) (size : ℕ) : Option ℕ → Pool → Prop where
  /-- The block behind those that lack room has room. -/
  | room (passed lack after : List PoolBlock) (q : PoolBlock)
      (split : pool.chain = passed ++ (lack ++ q :: after)) (position : passed.length = pool.cur)
      (lacks : ∀ b ∈ lack, b.free < size) (room : size ≤ q.free) :
      BlockSearch answer pool size (some (alignPtr q.last))
        { pool.setLast (add64 (alignPtr q.last) size) (pool.cur + lack.length) with
          cur := moveCur lack pool.cur pool.cur }
  /-- All blocks from `cur` on lack room, and there is no memory for another one. -/
  | noMemory (passed lack : List PoolBlock) (q : PoolBlock) (memory : Memory)
      (split : pool.chain = passed ++ (lack ++ [q])) (position : passed.length = pool.cur)
      (lacks : ∀ b ∈ lack ++ [q], b.free < size)
      (failed : poolNewBlock answer pool.memory (sub64 q.endPtr q.addr) q.rmd = (none, memory)) :
      BlockSearch answer pool size none
        { pool with cur := moveCur lack pool.cur pool.cur, memory := memory }
  /-- All blocks from `cur` on lack room, and another one is added. -/
  | added (passed lack : List PoolBlock) (q n : PoolBlock) (memory : Memory)
      (split : pool.chain = passed ++ (lack ++ [q])) (position : passed.length = pool.cur)
      (lacks : ∀ b ∈ lack ++ [q], b.free < size)
      (created : poolNewBlock answer pool.memory (sub64 q.endPtr q.addr) q.rmd =
        (some n, memory)) :
      BlockSearch answer pool size (some (alignPtr n.last)) { pool with
        head := { pool.head with size := add64 pool.head.size n.size }
        tail := pool.tail ++ [{ n with last := add64 (alignPtr n.last) size }]
        cur := moveCur (lack ++ [q]) pool.cur pool.cur
        memory := memory }

section Search

variable {answer : Malloc} {pool : Pool} {size : ℕ} {passed lack after : List PoolBlock}
  {q : PoolBlock}

theorem lacking_room (split : pool.chain = passed ++ (lack ++ q :: after))
    (position : passed.length = pool.cur) (lacks : ∀ b ∈ lack, b.free < size)
    (room : size ≤ q.free) : pool.lacking size = lack := by
  rw [Pool.lacking, split, ← position, List.drop_left,
    List.takeWhile_append_of_pos (by simpa using lacks),
    List.takeWhile_cons_of_neg (by simpa using room), List.append_nil]

theorem lacking_full (split : pool.chain = passed ++ lack) (position : passed.length = pool.cur)
    (lacks : ∀ b ∈ lack, b.free < size) : pool.lacking size = lack := by
  rw [Pool.lacking, split, ← position, List.drop_left]
  exact List.takeWhile_eq_self_iff.mpr (by simpa using lacks)

theorem drop_of_split {more : List PoolBlock} (split : pool.chain = passed ++ more)
    (position : passed.length = pool.cur) : pool.chain.drop pool.cur = more := by
  rw [split, ← position, List.drop_left]

theorem poolAllocBlock_room (split : pool.chain = passed ++ (lack ++ q :: after))
    (position : passed.length = pool.cur) (lacks : ∀ b ∈ lack, b.free < size)
    (room : size ≤ q.free) :
    poolAllocBlock answer pool size = (some (alignPtr q.last),
      { pool.setLast (add64 (alignPtr q.last) size) (pool.cur + lack.length) with
        cur := moveCur lack pool.cur pool.cur }) := by
  rcases List.exists_cons_of_ne_nil (l := lack ++ q :: after) (by simp) with ⟨p, rest, first⟩
  rw [poolAllocBlock, drop_of_split split position, first]
  dsimp only
  rw [poolWalk_room lacks room first.symm]

theorem poolAllocBlock_full (split : pool.chain = passed ++ (lack ++ [q]))
    (position : passed.length = pool.cur) (lacks : ∀ b ∈ lack ++ [q], b.free < size) :
    poolAllocBlock answer pool size =
      match poolNewBlock answer pool.memory (sub64 q.endPtr q.addr) q.rmd with
      | (none, memory) =>
          (none, { pool with cur := moveCur lack pool.cur pool.cur, memory := memory })
      | (some n, memory) =>
          (some (alignPtr n.last), { pool with
            head := { pool.head with size := add64 pool.head.size n.size }
            tail := pool.tail ++ [{ n with last := add64 (alignPtr n.last) size }]
            cur := moveCur (lack ++ [q]) pool.cur pool.cur
            memory := memory }) := by
  rcases List.exists_cons_of_ne_nil (l := lack ++ [q]) (by simp) with ⟨p, rest, first⟩
  have behind : moveCur (lack ++ [q]) pool.cur pool.cur ≤ pool.chain.length := by
    rw [split, List.length_append, position]
    exact moveCur_le le_rfl
  have bounded : (if moveCur (lack ++ [q]) pool.cur pool.cur < pool.chain.length then
      moveCur (lack ++ [q]) pool.cur pool.cur else pool.chain.length) =
      moveCur (lack ++ [q]) pool.cur pool.cur := by
    split <;> omega
  have drop : pool.chain.drop pool.cur = p :: rest :=
    (drop_of_split split position).trans first
  rw [poolAllocBlock, drop]
  dsimp only
  rw [poolWalk_full lacks first.symm]
  dsimp only
  cases poolNewBlock answer pool.memory (sub64 q.endPtr q.addr) q.rmd with
  | mk result memory =>
      cases result with
      | none => rfl
      | some n => simp only [bounded]

theorem exists_search (size : ℕ) (curLt : pool.cur < pool.chain.length) :
    (∃ passed lack after q, pool.chain = passed ++ (lack ++ q :: after) ∧
        passed.length = pool.cur ∧ (∀ b ∈ lack, b.free < size) ∧ size ≤ q.free) ∨
      ∃ passed lack q, pool.chain = passed ++ (lack ++ [q]) ∧ passed.length = pool.cur ∧
        ∀ b ∈ lack ++ [q], b.free < size := by
  have position : (pool.chain.take pool.cur).length = pool.cur := List.length_take_of_le curLt.le
  have whole := List.take_append_drop pool.cur pool.chain
  have lacks : ∀ b ∈ pool.lacking size, b.free < size := by
    intro b mem
    simpa using List.mem_takeWhile_imp mem
  have parts := List.takeWhile_append_dropWhile (p := fun p : PoolBlock => p.free < size)
    (l := pool.chain.drop pool.cur)
  rw [← Pool.lacking] at parts
  cases others : (pool.chain.drop pool.cur).dropWhile (fun p => p.free < size) with
  | nil =>
      right
      rw [others, List.append_nil] at parts
      rcases List.eq_nil_or_concat (pool.lacking size) with none | ⟨lack, q, last⟩
      · rw [none] at parts
        have length := congrArg List.length parts
        simp only [List.length_nil, List.length_drop] at length
        omega
      · rw [List.concat_eq_append] at last
        refine ⟨_, lack, q, ?_, position, last ▸ lacks⟩
        rw [← last, parts, whole]
  | cons q after =>
      left
      rw [others] at parts
      refine ⟨_, pool.lacking size, after, q, by rw [parts, whole], position, lacks, ?_⟩
      have first := List.head?_dropWhile_not (fun p : PoolBlock => decide (p.free < size))
        (pool.chain.drop pool.cur)
      rw [others] at first
      simpa using first

theorem poolAllocBlock_search (answer : Malloc) (size : ℕ)
    (curLt : pool.cur < pool.chain.length) :
    BlockSearch answer pool size (poolAllocBlock answer pool size).1
      (poolAllocBlock answer pool size).2 := by
  rcases exists_search size curLt with ⟨passed, lack, after, q, split, position, lacks, room⟩ |
    ⟨passed, lack, q, split, position, lacks⟩
  · rw [poolAllocBlock_room split position lacks room]
    exact .room passed lack after q split position lacks room
  · rw [poolAllocBlock_full split position lacks]
    cases created : poolNewBlock answer pool.memory (sub64 q.endPtr q.addr) q.rmd with
    | mk result memory =>
        cases result with
        | none => exact .noMemory passed lack q memory split position lacks created
        | some n => exact .added passed lack q n memory split position lacks created

/-- The blocks that `cur` has walked over: all that the request passes, but the last block where
there is no memory for another one. -/
theorem BlockSearch.walked {result : Option ℕ} {next : Pool}
    (search : BlockSearch answer pool size result next) :
    ∃ passed lack more, pool.chain = passed ++ (lack ++ more) ∧ passed.length = pool.cur ∧
      next.cur = moveCur lack pool.cur pool.cur ∧ lack <+: pool.lacking size ∧
        (result ≠ none → lack = pool.lacking size) := by
  cases search with
  | room passed lack after q split position lacks room =>
      have same := lacking_room split position lacks room
      exact ⟨passed, lack, q :: after, split, position, rfl, same ▸ List.prefix_refl _,
        fun _ => same.symm⟩
  | noMemory passed lack q memory split position lacks failed =>
      have same := lacking_full split position lacks
      exact ⟨passed, lack, [q], split, position, rfl, same ▸ List.prefix_append lack [q],
        fun served => absurd rfl served⟩
  | added passed lack q n memory split position lacks created =>
      have same := lacking_full split position lacks
      exact ⟨passed, lack ++ [q], [], by rw [split, List.append_nil], position, rfl,
        same ▸ List.prefix_refl _, fun _ => same.symm⟩

end Search

end Libhelp

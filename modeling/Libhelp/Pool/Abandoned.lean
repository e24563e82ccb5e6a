import Libhelp.Pool.Chain

/-!
# Abandoned blocks

`cur` moves behind each nearly full block that the walk passes, and with it over the
blocks before that one, whatever room they have left.  So no block with room is left
behind as long as, of the blocks that a request passes, the nearly full ones come
first; the first request for which they do not abandons one.
-/

namespace Libhelp

open Transition

/-- The nearly full blocks come first. -/
def InOrder (lack : List PoolBlock) : Prop :=
  lack.Pairwise fun b p => p.NearlyFull → b.NearlyFull

instance (lack : List PoolBlock) : Decidable (InOrder lack) :=
  inferInstanceAs (Decidable (List.Pairwise _ lack))

/-- The walk leaves behind nearly full blocks only, where these come first. -/
theorem forall_take_moveCur (lack : List PoolBlock) (i : ℕ) :
    (∀ b ∈ lack.take (moveCur lack i i - i), b.NearlyFull) ↔ InOrder lack := by
  unfold InOrder
  induction lack using List.reverseRecOn with
  | nil => simp
  | append_singleton lack q ih =>
      rw [moveCur_concat, List.pairwise_append]
      by_cases full : q.NearlyFull
      · have all : i + lack.length + 1 - i = (lack ++ [q]).length := by
          rw [List.length_append, List.length_singleton]
          omega
        rw [if_pos full, all, List.take_length, List.forall_mem_append]
        constructor
        · intro nearlyFull
          refine ⟨?_, List.pairwise_singleton _ _, fun b isBlock _ _ _ => nearlyFull.1 b isBlock⟩
          exact List.pairwise_of_forall_mem_list fun b isBlock _ _ _ => nearlyFull.1 b isBlock
        · intro ordered
          exact ⟨fun b isBlock => ordered.2.2 b isBlock q (List.mem_singleton_self q) full,
            List.forall_mem_singleton.mpr full⟩
      · have behind := @moveCur_le lack i i le_rfl
        rw [if_neg full, List.take_append_of_le_length (by omega), ih]
        constructor
        · intro ordered
          refine ⟨ordered, List.pairwise_singleton _ _, ?_⟩
          intro b _ p isLast nearlyFull
          exact absurd (List.mem_singleton.mp isLast ▸ nearlyFull) full
        · exact And.left

namespace Pool

/-- Each block before `cur` has fewer free bytes than the threshold of the pool. -/
def Tight (pool : Pool) : Prop :=
  ∀ p ∈ pool.chain.take pool.cur, p.free < pool.head.rmd

variable {answer : Malloc} {blockSize size rmd depth : ℕ} {pool after : Pool}
  {result : Option ℕ}

theorem tight_iff_map : pool.Tight ↔
    ∀ free ∈ (pool.chain.map PoolBlock.free).take pool.cur, free < pool.head.rmd := by
  rw [← List.map_take, List.forall_mem_map]
  rfl

theorem Tight.congr (frees : (after.chain.map PoolBlock.free).take after.cur =
      (pool.chain.map PoolBlock.free).take after.cur) (cur : after.cur = pool.cur)
    (threshold : after.head.rmd = pool.head.rmd) : after.Tight ↔ pool.Tight := by
  rw [tight_iff_map, tight_iff_map, frees, cur, threshold]

theorem setLast_head_rmd (pool : Pool) (last i : ℕ) :
    (pool.setLast last i).head.rmd = pool.head.rmd := by
  cases i <;> rfl

theorem frees_blockSearch (search : BlockSearch answer pool size result after) :
    (after.chain.map PoolBlock.free).take after.cur =
        (pool.chain.map PoolBlock.free).take after.cur ∧
      after.head.rmd = pool.head.rmd := by
  cases search with
  | room passed lack rest q split position lacks room =>
      refine ⟨?_, setLast_head_rmd _ _ _⟩
      show ((pool.setLast _ _).chain.map PoolBlock.free).take _ = _
      rw [← List.map_take, take_chain_setLast _ _ (moveCur_le le_rfl), List.map_take]
  | noMemory passed lack q memory split position lacks failed => exact ⟨rfl, rfl⟩
  | added passed lack q n memory split position lacks created =>
      have moved : moveCur (lack ++ [q]) pool.cur pool.cur ≤ pool.chain.length := by
        rw [split, List.length_append, position]
        exact moveCur_le le_rfl
      refine ⟨?_, rfl⟩
      show (PoolBlock.free pool.head ::
        (pool.tail ++ [{ n with last := add64 (alignPtr n.last) size }]).map PoolBlock.free).take
          (moveCur (lack ++ [q]) pool.cur pool.cur) = _
      rw [List.map_append, ← List.cons_append]
      exact List.take_append_of_le_length (by rw [← List.map_cons, List.length_map]; exact moved)

/-- An allocation from a block leaves no room behind exactly when the nearly full ones of the
blocks that it walks over come first. -/
theorem tight_blockSearch (made : pool.Every (PoolBlock.Made blockSize rmd))
    (search : BlockSearch answer pool size result after) :
    ∃ lack, lack <+: pool.lacking size ∧ (result ≠ none → lack = pool.lacking size) ∧
      (after.Tight ↔ pool.Tight ∧ InOrder lack) := by
  rcases frees_blockSearch search with ⟨frees, threshold⟩
  rcases search.walked with ⟨passed, lack, more, split, position, cur, isPrefix, served⟩
  refine ⟨lack, isPrefix, served, ?_⟩
  have forward := @le_moveCur lack pool.cur pool.cur le_rfl
  have walked : pool.chain.take after.cur =
      pool.chain.take pool.cur ++ lack.take (moveCur lack pool.cur pool.cur - pool.cur) := by
    have within := @moveCur_le lack pool.cur pool.cur le_rfl
    rw [cur, split, ← position, List.take_append, List.take_left, position,
      List.take_of_length_le (by omega), List.take_append_of_le_length (by omega)]
  have nearlyFull : ∀ b ∈ lack.take (moveCur lack pool.cur pool.cur - pool.cur),
      (b.free < pool.head.rmd ↔ b.NearlyFull) := by
    intro b isBlock
    have inChain : b ∈ pool.chain := by
      rw [split]
      exact List.mem_append_right _ (List.mem_append_left _ (List.mem_of_mem_take isBlock))
    rw [PoolBlock.NearlyFull, (made.blocks b inChain).threshold,
      (made.blocks pool.head List.mem_cons_self).threshold]
  rw [tight_iff_map, frees, threshold, ← List.map_take, List.forall_mem_map, walked,
    List.forall_mem_append, ← forall_take_moveCur lack pool.cur]
  exact and_congr Iff.rfl (forall₂_congr nearlyFull)

/-- The size for which a request searches the blocks: for a large one, that of its node. -/
def searched (pool : Pool) (size : ℕ) : ℕ :=
  if pool.Small size then size else sizeofPoolLarge

theorem tight_poolAlloc (made : pool.Every (PoolBlock.Made blockSize rmd))
    (nodeSmall : pool.Small sizeofPoolLarge)
    (returns : poolAlloc answer depth pool size = some (result, after)) :
    ∃ lack, lack <+: pool.lacking (pool.searched size) ∧
      (result ≠ none → lack = pool.lacking (pool.searched size)) ∧
        (after.Tight ↔ pool.Tight ∧ InOrder lack) := by
  unfold searched
  cases AllocSearch.of_poolAlloc made.cur_lt nodeSmall returns with
  | block small search =>
      rw [if_pos small]
      exact tight_blockSearch made search
  | noMemory memory large failed =>
      refine ⟨[], List.nil_prefix, fun served => absurd rfl served, ?_⟩
      exact ⟨fun tight => ⟨tight, .nil⟩, And.left⟩
  | noNode m memory nested large obtained search =>
      have start : Every (PoolBlock.Made blockSize rmd) { pool with memory := memory } :=
        ⟨made.cur_lt, made.blocks⟩
      rcases tight_blockSearch start search with ⟨lack, isPrefix, _, tight⟩
      rw [if_neg large]
      exact ⟨lack, isPrefix, fun served => absurd rfl served, tight⟩
  | large m l memory nested large obtained search =>
      have start : Every (PoolBlock.Made blockSize rmd) { pool with memory := memory } :=
        ⟨made.cur_lt, made.blocks⟩
      rcases tight_blockSearch start search with ⟨lack, isPrefix, served, tight⟩
      rw [if_neg large]
      refine ⟨lack, isPrefix, fun _ => served (Option.some_ne_none l), Iff.trans ?_ tight⟩
      exact Tight.congr rfl rfl rfl

theorem Tight.written (tight : pool.Tight) (written : pool.Written after) : after.Tight := by
  rcases written with ⟨memory, rfl, _⟩
  exact tight

theorem Tight.free (tight : pool.Tight) (p size : ℕ) : (poolFree pool p size).Tight := by
  unfold poolFree
  split
  case h_1 => exact tight
  case h_2 cur isCur =>
    split
    · refine (Tight.congr ?_ (setLast_cur _ _ _) (setLast_head_rmd _ _ _)).mpr tight
      rw [setLast_cur, ← List.map_take, take_chain_setLast _ _ le_rfl, List.map_take]
    · exact tight

end Pool

namespace PoolClient

/-- Of the blocks that a request passes, the nearly full ones come first. -/
def PassesInOrder (client : PoolClient) : PoolEvent → Prop
  | .alloc size | .calloc size | .cpy _ size =>
      InOrder (client.pool.lacking (client.pool.searched size))
  | .free _ => True

instance (client : PoolClient) : (event : PoolEvent) → Decidable (client.PassesInOrder event)
  | .alloc _ | .calloc _ | .cpy _ _ => inferInstanceAs (Decidable (InOrder _))
  | .free _ => inferInstanceAs (Decidable True)

variable {answer : Malloc} {blockSize rmd depth size p : ℕ} {client : PoolClient} {after : Pool}

theorem reachable_tight (bound : blockSize < 2 ^ 64)
    (enough : sizeofPool + sizeofPoolLarge ≤ blockSize)
    (reachable : ((system answer blockSize rmd).restrict PassesInOrder).Reachable client) :
    client.pool.Tight := by
  induction reachable with
  | init starts =>
      rcases starts with ⟨_, memory, after, _, created⟩
      rcases poolNew_some created with ⟨head, _, pool⟩
      rw [pool]
      exact fun p isBlock => absurd isBlock List.not_mem_nil
  | @step client next event before stepped ih =>
      have made := reachable_made bound before.of_restrict
      have nodeSmall := (made.nodeSmall_iff bound).mpr (.inr enough)
      have kept : ∀ {depth size : ℕ} {returned : Option ℕ × Pool},
          InOrder (client.pool.lacking (client.pool.searched size)) →
            poolAlloc answer depth client.pool size = some returned → returned.2.Tight := by
        intro depth size returned ordered returns
        rcases Pool.tight_poolAlloc made nodeSmall returns with ⟨lack, isPrefix, _, tight⟩
        exact tight.mpr ⟨ih, ordered.sublist isPrefix.sublist⟩
      rcases stepped with ⟨ordered, stepped⟩
      cases event with
      | alloc size =>
          rcases stepped with ⟨_, depth, returned, returns, rfl⟩
          exact kept ordered returns
      | calloc size =>
          rcases stepped with ⟨_, depth, returned, returns, rfl⟩
          rcases poolCalloc_poolAlloc returns with ⟨pool, allocated, written⟩
          exact (kept ordered allocated).written written
      | cpy source size =>
          rcases stepped with ⟨_, depth, returned, returns, rfl⟩
          rcases poolCpy_poolAlloc returns with ⟨pool, allocated, written⟩
          exact (kept ordered allocated).written written
      | free region =>
          rcases stepped with ⟨_, rfl⟩
          exact ih.free _ _

/-- In a run whose requests all pass the nearly full blocks first, each block before `cur` has
fewer free bytes than the threshold.  The first request that is served otherwise leaves more
behind. -/
theorem nothing_abandoned (bound : blockSize < 2 ^ 64)
    (enough : sizeofPool + sizeofPoolLarge ≤ blockSize)
    (reachable : ((system answer blockSize rmd).restrict PassesInOrder).Reachable client) :
    (∀ p ∈ client.pool.chain.take client.pool.cur, p.free < client.pool.head.rmd) ∧
      ∀ depth size p after, poolAlloc answer depth client.pool size = some (some p, after) →
        ¬client.PassesInOrder (.alloc size) →
          ∃ p ∈ after.chain.take after.cur, after.head.rmd ≤ p.free := by
  have made := reachable_made bound reachable.of_restrict
  have nodeSmall := (made.nodeSmall_iff bound).mpr (.inr enough)
  refine ⟨reachable_tight bound enough reachable, ?_⟩
  intro depth size p after returns unordered
  rcases Pool.tight_poolAlloc made nodeSmall returns with ⟨lack, _, served, tight⟩
  rw [served (Option.some_ne_none p)] at tight
  have left : ¬after.Tight := fun kept => unordered (tight.mp kept).2
  unfold Pool.Tight at left
  push Not at left
  exact left

theorem nothing_abandoned_full : ∃ client : PoolClient, client.pool.cur = 1 ∧
    ∀ p ∈ client.pool.chain.take client.pool.cur, p.free < client.pool.head.rmd := by
  have initial : ((system nextMalloc 128 0).restrict PassesInOrder).Reachable _ :=
    .init (init_nextMalloc (by decide))
  have full : ((system nextMalloc 128 0).restrict PassesInOrder).Reachable _ :=
    .step (.alloc 72) initial
      ⟨by decide, by decide, 1, _, poolAlloc_small 0 (by decide), rfl⟩
  have behind : ((system nextMalloc 128 0).restrict PassesInOrder).Reachable _ :=
    .step (.alloc 72) full
      ⟨by decide, by decide, 1, _, poolAlloc_small 0 (by decide), rfl⟩
  exact ⟨_, by decide, (nothing_abandoned (by decide) (by decide) behind).1⟩

/-- The first block keeps 32 bytes, the second one none: the third request moves `cur` behind
both. -/
theorem abandons_block : ∃ client, (allocating nextMalloc 128 0).Reachable client ∧
    client.pool.cur = 2 ∧ client.pool.head.free = 32 ∧ client.pool.head.rmd = 8 := by
  have initial : (allocating nextMalloc 128 0).Reachable _ :=
    .init (init_nextMalloc (by decide))
  have first : (allocating nextMalloc 128 0).Reachable _ :=
    .step (.alloc 40) initial
      ⟨⟨40, rfl⟩, by decide, 1, _, poolAlloc_small 0 (by decide), rfl⟩
  have second : (allocating nextMalloc 128 0).Reachable _ :=
    .step (.alloc 72) first
      ⟨⟨72, rfl⟩, by decide, 1, _, poolAlloc_small 0 (by decide), rfl⟩
  have third : (allocating nextMalloc 128 0).Reachable _ :=
    .step (.alloc 72) second
      ⟨⟨72, rfl⟩, by decide, 1, _, poolAlloc_small 0 (by decide), rfl⟩
  exact ⟨_, third, by decide, by decide, by decide⟩

end PoolClient

end Libhelp

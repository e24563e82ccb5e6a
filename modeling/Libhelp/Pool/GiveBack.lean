import Libhelp.Pool.Regions

/-!
# Giving space back

`pool_free` looks at the block at `cur` only.  A region that has just been allocated
lies at the top of the block that served it, and no other block ends its used part
there.  So `pool_free` takes the region back exactly when `cur` is on the block that
served it, and then the next request of that size is served with it again.
-/

namespace Libhelp

open Transition

namespace Pool

variable {answer : Malloc} {blockSize size depth p : ℕ} {pool after : Pool} {q : PoolBlock}
  {before rest : List PoolBlock}

theorem alignPtr_alignPtr (x : ℕ) : alignPtr (alignPtr x) = alignPtr x := by
  apply alignPtr_of_dvd (dvd_alignPtr x)
  have below : add64 x (alignment - 1) < 2 ^ 64 := Nat.mod_lt _ (by decide)
  exact lt_of_le_of_lt (Nat.div_mul_le_self _ _) below

/-- The block at which a request is served, behind those that it passes: the region is at the top
of its used part. -/
structure ServedBy (pool : Pool) (size p : ℕ) (after : Pool) (before : List PoolBlock)
    (q : PoolBlock) (rest : List PoolBlock) : Prop where
  split : after.chain = before ++ q :: rest
  position : before.length = pool.cur + (pool.lacking size).length
  last : q.last = add64 p size
  aligned : alignPtr p = p
  room : size ≤ sub64 q.endPtr p

theorem exists_servedBy (sound : answer.Sound) (enough : sizeofPool + size ≤ blockSize)
    (fits : ∀ b ∈ pool.chain, Fits blockSize b)
    (search : BlockSearch answer pool size (some p) after) :
    ∃ before q rest, ServedBy pool size p after before q rest := by
  cases search with
  | room passed lack rest q split position lacks room =>
      have whole : pool.chain = (passed ++ lack) ++ q :: rest := by
        rw [split, List.append_assoc]
      have place : (passed ++ lack).length = pool.cur + lack.length := by
        rw [List.length_append, position]
      refine ⟨passed ++ lack, { q with last := add64 (alignPtr q.last) size }, rest, ?_⟩
      constructor
      case split =>
        show (pool.setLast _ _).chain = _
        rw [← place]
        exact chain_setLast whole _
      case position =>
        rw [place, lacking_room split position lacks room]
      case last => rfl
      case aligned => exact alignPtr_alignPtr _
      case room => exact room
  | added passed lack q n memory split position lacks created =>
      have whole : pool.chain = (passed ++ lack) ++ [q] := by rw [split, List.append_assoc]
      rw [(fits q (mem_of_split whole)).sized] at created
      rcases fits_poolNewBlock sound (by omega) created with ⟨new, lastPtr⟩
      rcases new.fresh_room lastPtr enough with ⟨start, below⟩
      refine ⟨{ pool.head with size := add64 pool.head.size n.size } :: pool.tail,
        { n with last := add64 (alignPtr n.last) size }, [], ?_⟩
      constructor
      case split => rfl
      case position =>
        show pool.chain.length = _
        rw [lacking_full split position lacks, split, List.length_append, position]
      case last => rfl
      case aligned => exact alignPtr_alignPtr _
      case room =>
        show size ≤ sub64 n.endPtr (alignPtr n.last)
        rw [start, sub64_eq new.last_le new.bounded]
        omega

/-- The used parts of two blocks end at different addresses. -/
theorem Invariant.lasts_ne {whole used : List Region}
    (invariant : pool.Invariant blockSize whole used) (positive : 0 < blockSize) :
    pool.chain.Pairwise fun b q => b.last ≠ q.last := by
  have separate := (List.pairwise_append.mp invariant.valid.separate).1
  rw [extents, List.map_map, List.pairwise_map] at separate
  apply separate.imp_of_mem
  intro b q isBlock isOther apart same
  have fits := invariant.fits positive isBlock
  have otherFits := invariant.fits positive isOther
  have chunks : Region.Apart b.extent.chunk q.extent.chunk := apart
  rw [fits.chunk_eq, otherFits.chunk_eq, Region.apart_iff] at chunks
  simp only [Region.stop] at chunks
  have header : 0 < sizeofPool := by decide
  have first := fits.first_le
  have last := fits.last_le
  have endPtr := fits.endPtr
  have otherFirst := otherFits.first_le
  have otherLast := otherFits.last_le
  have otherEndPtr := otherFits.endPtr
  omega

theorem poolFree_served (split : pool.chain = before ++ q :: rest)
    (position : before.length = pool.cur) (last : q.last = add64 p size) :
    poolFree pool p size = pool.setLast p pool.cur := by
  have cur : pool.chain[pool.cur]? = some q := by
    rw [split, ← position]
    simp
  unfold poolFree
  rw [cur]
  exact if_pos last

theorem poolFree_elsewhere (lasts : pool.chain.Pairwise fun b q => b.last ≠ q.last)
    (split : pool.chain = before ++ q :: rest) (curLt : pool.cur < before.length)
    (last : q.last = add64 p size) : poolFree pool p size = pool := by
  rw [split, List.pairwise_append] at lasts
  have cur : pool.chain[pool.cur]? = some before[pool.cur] := by
    rw [split, List.getElem?_append_left curLt]
    exact List.getElem?_eq_getElem curLt
  have ne := lasts.2.2 _ (List.getElem_mem curLt) q List.mem_cons_self
  unfold poolFree
  rw [cur]
  exact if_neg (last ▸ ne)

theorem setLast_small (pool : Pool) (last i : ℕ) :
    (pool.setLast last i).Small size ↔ pool.Small size := by
  cases i <;> exact Iff.rfl

theorem served_again (served : ServedBy pool size p after before q rest)
    (small : after.Small size) (position : before.length = after.cur) :
    ∃ again, poolAlloc answer 1 (poolFree after p size) size = some (some p, again) := by
  have freed := poolFree_served served.split position served.last
  have room : size ≤ PoolBlock.free { q with last := p } := by
    show size ≤ sub64 q.endPtr (alignPtr p)
    rw [served.aligned]
    exact served.room
  rw [freed, poolAlloc_small 0 ((setLast_small _ _ _).mpr small)]
  have split : (after.setLast p after.cur).chain =
      before ++ ([] ++ { q with last := p } :: rest) := by
    rw [← position]
    exact chain_setLast served.split p
  rw [poolAllocBlock_room split (by rw [setLast_cur]; exact position) (by simp) room]
  exact ⟨_, by rw [served.aligned]⟩

end Pool

namespace PoolClient

variable {answer : Malloc} {blockSize rmd depth size p : ℕ} {client : PoolClient} {after : Pool}

/-- A region that is given back at once is what the next request of its size is served with
exactly when the last block that the first request has passed is nearly full.  Otherwise `cur` is
on another block, and `pool_free` does nothing. -/
theorem given_back_iff (sound : answer.Sound) (multiple : alignment ∣ blockSize)
    (enough : sizeofPool + sizeofPoolLarge ≤ blockSize)
    (reachable : (system answer blockSize rmd).Reachable client)
    (small : client.pool.Small size)
    (served : poolAlloc answer depth client.pool size = some (some p, after)) :
    ((∃ depth again, poolAlloc answer depth (poolFree after p size) size =
        some (some p, again)) ↔
      ∀ b ∈ (client.pool.lacking size).getLast?, b.NearlyFull) ∧
    ((∃ b ∈ (client.pool.lacking size).getLast?, ¬b.NearlyFull) →
      poolFree after p size = after) := by
  have positive : 0 < blockSize := Nat.lt_of_lt_of_le (by decide) enough
  have holds := reachable_holds sound multiple enough reachable
  have holdsAfter := holds.poolAlloc sound multiple enough served
  rcases holds with ⟨whole, _, invariant⟩
  rcases holdsAfter with ⟨wholeAfter, data, invariantAfter⟩
  have fitsSmall := (invariant.small_iff (by omega)).mp small
  have smallAfter : after.Small size := (invariantAfter.small_iff (by omega)).mpr fitsSmall
  have nodeSmall : client.pool.Small sizeofPoolLarge :=
    (invariant.small_iff (by omega)).mpr ⟨by decide, enough⟩
  have search : BlockSearch answer client.pool size (some p) after := by
    cases AllocSearch.of_poolAlloc invariant.cur_lt_chain nodeSmall served with
    | block _ search => exact search
    | large m l memory nested large obtained search => exact absurd small large
  rcases Pool.exists_servedBy sound fitsSmall.2 (fun b isBlock => invariant.fits positive isBlock)
    search with ⟨before, q, rest, top⟩
  rcases search.walked with ⟨_, lack, _, _, _, cur, _, passed⟩
  rw [passed (Option.some_ne_none p)] at cur
  have onBlock : after.cur = before.length ↔
      ∀ b ∈ (client.pool.lacking size).getLast?, b.NearlyFull := by
    rw [cur, top.position]
    exact moveCur_eq_iff
  have elsewhere : after.cur ≠ before.length → poolFree after p size = after := by
    intro other
    have within : after.cur ≤ before.length := by
      rw [cur, top.position]
      exact moveCur_le le_rfl
    exact Pool.poolFree_elsewhere (invariantAfter.lasts_ne positive) top.split
      (lt_of_le_of_ne within other) top.last
  have roomy : (∃ b ∈ (client.pool.lacking size).getLast?, ¬b.NearlyFull) →
      after.cur ≠ before.length := by
    rintro ⟨b, isLast, roomy⟩ here
    exact roomy (onBlock.mp here b isLast)
  refine ⟨?_, fun other => elsewhere (roomy other)⟩
  constructor
  · rintro ⟨depth, again, returned⟩
    by_contra unmet
    push Not at unmet
    -- the region is still in use, so the next one is apart from it
    rw [elsewhere (roomy unmet)] at returned
    have twice := Pool.Holds.poolAlloc sound multiple enough
      ⟨wholeAfter, data, invariantAfter⟩ returned
    have apart := List.rel_of_pairwise_cons twice.apart List.mem_cons_self
    rcases unmet with ⟨b, isLast, _⟩
    have lacks : b.free < size := by
      simpa using List.mem_takeWhile_imp (List.mem_of_mem_getLast? isLast)
    exact apart.addr_ne (show size ≠ 0 by omega) (show size ≠ 0 by omega) rfl
  · intro nearlyFull
    exact ⟨1, Pool.served_again top smallAfter (onBlock.mpr nearlyFull).symm⟩

theorem given_back_iff_new : ∃ client after, (system nextMalloc 128 0).Reachable client ∧
    client.live = [⟨72, 72⟩] ∧ poolAlloc nextMalloc 1 client.pool 72 = some (some 200, after) ∧
      ∃ depth again, poolAlloc nextMalloc depth (poolFree after 200 72) 72 =
        some (some 200, again) := by
  have initial : (system nextMalloc 128 0).Reachable _ := .init (init_nextMalloc (by decide))
  have full : (system nextMalloc 128 0).Reachable _ :=
    .step (.alloc 72) initial ⟨by decide, 1, _, poolAlloc_small 0 (by decide), rfl⟩
  obtain ⟨client, full, live, small, block, nearlyFull⟩ : ∃ client,
      (system nextMalloc 128 0).Reachable client ∧ client.live = [⟨72, 72⟩] ∧
        client.pool.Small 72 ∧ (poolAllocBlock nextMalloc client.pool 72).1 = some 200 ∧
          ∀ b ∈ (client.pool.lacking 72).getLast?, b.NearlyFull :=
    ⟨_, full, by decide, by decide, by decide, by decide⟩
  have served : poolAlloc nextMalloc 1 client.pool 72 = some (some 200, _) :=
    (poolAlloc_small 0 small).trans (congrArg some (Prod.ext block rfl))
  exact ⟨client, _, full, live, served,
    (given_back_iff nextMalloc_sound (by decide) (by decide) full small served).1.mpr nearlyFull⟩

/-- The first block keeps 32 bytes, so `cur` stays on it while a new block serves the request. -/
theorem not_given_back : ∃ client after again, (system nextMalloc 128 0).Reachable client ∧
    poolAlloc nextMalloc 1 client.pool 72 = some (some 200, after) ∧
      poolAlloc nextMalloc 1 (poolFree after 200 72) 72 = some (some 328, again) := by
  have initial : (system nextMalloc 128 0).Reachable _ := .init (init_nextMalloc (by decide))
  have first : (system nextMalloc 128 0).Reachable _ :=
    .step (.alloc 40) initial ⟨by decide, 1, _, poolAlloc_small 0 (by decide), rfl⟩
  exact ⟨_, _, _, first,
    (poolAlloc_small 0 (by decide)).trans (congrArg some (Prod.ext (by decide) rfl)),
    (poolAlloc_small 0 (by decide)).trans (congrArg some (Prod.ext (by decide) rfl))⟩

end PoolClient

end Libhelp

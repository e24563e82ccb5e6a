import Libhelp.Lib.Region
import Mathlib.Data.List.Basic

/-!
# Arenas

An arena gives out regions of chunks of memory.  An extent is a chunk that is
given out piece by piece, from its first free address upwards; the other chunks
are given out whole.  A valid arena keeps the regions in use apart, and out of
the part of an extent before its first address.

The extent at the top of which a region lies can take the region back.  Only an
extent can: a region that ends where the used part of an extent ends lies in that
extent.
-/

/-- A chunk that is used from `first` up to `last`. -/
structure Extent where
  chunk : Region
  first : ℕ
  last : ℕ

namespace Extent

def header (extent : Extent) : Region :=
  ⟨extent.chunk.addr, extent.first - extent.chunk.addr⟩

structure Bounded (extent : Extent) : Prop where
  addr_le : extent.chunk.addr ≤ extent.first
  first_le : extent.first ≤ extent.last
  last_le : extent.last ≤ extent.chunk.stop

/-- A region given out of the extent. -/
structure Carved (extent : Extent) (region : Region) : Prop where
  first_le : extent.first ≤ region.addr
  stop_le : region.stop ≤ extent.chunk.stop
  used : region.size ≠ 0 → region.stop ≤ extent.last

variable {extent : Extent} {region : Region}

theorem Bounded.carved_inside (bounded : extent.Bounded) (carved : extent.Carved region) :
    region.Inside extent.chunk :=
  ⟨bounded.addr_le.trans carved.first_le, carved.stop_le⟩

theorem Bounded.header_inside (bounded : extent.Bounded) :
    extent.header.Inside extent.chunk := by
  refine ⟨le_rfl, ?_⟩
  have start := bounded.addr_le
  have stop := bounded.first_le.trans bounded.last_le
  simp only [header, Region.stop_mk]
  omega

theorem Carved.header_apart (carved : extent.Carved region) (bounded : extent.Bounded) :
    extent.header.Apart region := by
  apply Region.Apart.of_stop_le
  have start := bounded.addr_le
  have first := carved.first_le
  simp only [header, Region.stop_mk]
  omega

end Extent

/-- Chunks used piece by piece, chunks used whole, and the regions in use. -/
structure Arena where
  extents : List Extent
  whole : List Region
  used : List Region

namespace Arena

def Placed (arena : Arena) (region : Region) : Prop :=
  (∃ extent ∈ arena.extents, extent.Carved region) ∨ region ∈ arena.whole

/-- The regions in use are apart and aligned, and lie in the chunks. -/
structure Valid (alignment : ℕ) (arena : Arena) : Prop where
  separate : (arena.extents.map Extent.chunk ++ arena.whole).Pairwise Region.Apart
  bounded : ∀ extent ∈ arena.extents, extent.Bounded
  placed : ∀ region ∈ arena.used, arena.Placed region
  aligned : ∀ region ∈ arena.used, alignment ∣ region.addr
  apart : arena.used.Pairwise Region.Apart

variable {alignment : ℕ} {arena : Arena} {extents before after : List Extent}
  {extent replaced : Extent} {whole used remaining : List Region} {region chunk : Region}

theorem Placed.mono {larger : Arena} (placed : arena.Placed region)
    (extents : arena.extents ⊆ larger.extents) (whole : arena.whole ⊆ larger.whole) :
    larger.Placed region := by
  rcases placed with ⟨extent, isExtent, carved⟩ | isWhole
  · exact Or.inl ⟨extent, extents isExtent, carved⟩
  · exact Or.inr (whole isWhole)

namespace Valid

/-- A region in use has been given out of an extent or lies elsewhere. -/
theorem carved_or_apart (valid : arena.Valid alignment) (isExtent : extent ∈ arena.extents)
    (isUsed : region ∈ arena.used) : extent.Carved region ∨ extent.chunk.Apart region := by
  rcases arena with ⟨extents, whole, used⟩
  rcases List.append_of_mem isExtent with ⟨before, after, rfl⟩
  have separate := valid.separate
  simp only [List.map_append, List.map_cons, List.append_assoc, List.cons_append,
    List.pairwise_append, List.pairwise_cons, List.mem_map, List.mem_append, List.mem_cons]
    at separate
  rcases separate with ⟨-, ⟨fromExtent, -⟩, toExtent⟩
  rcases valid.placed region isUsed with ⟨owner, isOwner, carved⟩ | isWhole
  · have inside := (valid.bounded owner isOwner).carved_inside carved
    rcases List.mem_append.mp isOwner with inBefore | here
    · apply Or.inr
      have apart := toExtent owner.chunk ⟨owner, inBefore, rfl⟩ extent.chunk (Or.inl rfl)
      exact (apart.of_inside inside).symm
    · rcases List.mem_cons.mp here with rfl | inAfter
      · exact Or.inl carved
      · apply Or.inr
        have apart := fromExtent owner.chunk (Or.inl ⟨owner, inAfter, rfl⟩)
        exact (apart.symm.of_inside inside).symm
  · exact Or.inr (fromExtent region (Or.inr isWhole))

theorem header_apart (valid : arena.Valid alignment) (isExtent : extent ∈ arena.extents)
    (isUsed : region ∈ arena.used) : extent.header.Apart region := by
  have bounded := valid.bounded extent isExtent
  rcases valid.carved_or_apart isExtent isUsed with carved | apart
  · exact carved.header_apart bounded
  · exact apart.of_inside bounded.header_inside

theorem perm (valid : Valid alignment ⟨extents, whole, used⟩) (same : used.Perm remaining) :
    Valid alignment ⟨extents, whole, remaining⟩ where
  separate := valid.separate
  bounded := valid.bounded
  placed region isUsed := valid.placed region (same.mem_iff.mpr isUsed)
  aligned region isUsed := valid.aligned region (same.mem_iff.mpr isUsed)
  apart := (same.pairwise_iff Region.Apart.symm).mp valid.apart

theorem release (valid : Valid alignment ⟨extents, whole, used⟩)
    (released : remaining.Sublist used) : Valid alignment ⟨extents, whole, remaining⟩ where
  separate := valid.separate
  bounded := valid.bounded
  placed region isUsed := valid.placed region (released.subset isUsed)
  aligned region isUsed := valid.aligned region (released.subset isUsed)
  apart := valid.apart.sublist released

theorem use (valid : Valid alignment ⟨extents, whole, used⟩)
    (placed : Placed ⟨extents, whole, used⟩ region) (aligned : alignment ∣ region.addr)
    (apart : ∀ other ∈ used, region.Apart other) :
    Valid alignment ⟨extents, whole, region :: used⟩ where
  separate := valid.separate
  bounded := valid.bounded
  placed := List.forall_mem_cons.mpr ⟨placed, valid.placed⟩
  aligned := List.forall_mem_cons.mpr ⟨aligned, valid.aligned⟩
  apart := List.pairwise_cons.mpr ⟨apart, valid.apart⟩

/-- The used part of an extent changes so that it still holds the regions in use. -/
theorem replace (valid : Valid alignment ⟨before ++ extent :: after, whole, used⟩)
    (sameChunk : replaced.chunk = extent.chunk) (bounded : replaced.Bounded)
    (holds : ∀ region ∈ used, extent.Carved region → replaced.Carved region) :
    Valid alignment ⟨before ++ replaced :: after, whole, used⟩ where
  separate := by
    have separate := valid.separate
    simp only [List.map_append, List.map_cons] at separate ⊢
    rw [sameChunk]
    exact separate
  bounded := by
    intro other isExtent
    rcases List.mem_append.mp isExtent with inBefore | here
    · exact valid.bounded other (List.mem_append_left _ inBefore)
    · rcases List.mem_cons.mp here with rfl | inAfter
      · exact bounded
      · exact valid.bounded other (List.mem_append_right _ (List.mem_cons_of_mem _ inAfter))
  placed := by
    intro region isUsed
    rcases valid.placed region isUsed with ⟨owner, isOwner, carved⟩ | isWhole
    · apply Or.inl
      rcases List.mem_append.mp isOwner with inBefore | here
      · exact ⟨owner, List.mem_append_left _ inBefore, carved⟩
      · rcases List.mem_cons.mp here with rfl | inAfter
        · exact ⟨replaced, List.mem_append_right _ List.mem_cons_self,
            holds region isUsed carved⟩
        · exact ⟨owner, List.mem_append_right _ (List.mem_cons_of_mem _ inAfter), carved⟩
    · exact Or.inr isWhole
  aligned := valid.aligned
  apart := valid.apart

/-- A region is given out of an extent, above its used part. -/
theorem carve (valid : Valid alignment ⟨before ++ extent :: after, whole, used⟩)
    (aligned : alignment ∣ region.addr) (above : extent.last ≤ region.addr)
    (fits : region.stop ≤ extent.chunk.stop) :
    Valid alignment
      ⟨before ++ { extent with last := region.stop } :: after, whole, region :: used⟩ := by
  have isExtent : extent ∈ before ++ extent :: after :=
    List.mem_append_right _ List.mem_cons_self
  have bounded := valid.bounded extent isExtent
  have start := region.addr_le_stop
  have inside : region.Inside extent.chunk :=
    ⟨bounded.addr_le.trans (bounded.first_le.trans above), fits⟩
  have apart : ∀ other ∈ used, region.Apart other := by
    intro other isUsed
    rcases valid.carved_or_apart isExtent isUsed with carved | apart
    · by_cases empty : other.size = 0
      · exact (Region.Apart.of_empty empty).symm
      · exact (Region.Apart.of_stop_le ((carved.used empty).trans above)).symm
    · exact apart.of_inside inside
  have advanced : Valid alignment
      ⟨before ++ { extent with last := region.stop } :: after, whole, used⟩ := by
    apply valid.replace
    · rfl
    · exact ⟨bounded.addr_le, bounded.first_le.trans (above.trans start), fits⟩
    · intro other _ carved
      exact ⟨carved.first_le, carved.stop_le,
        fun nonempty => (carved.used nonempty).trans (above.trans start)⟩
  apply advanced.use _ aligned apart
  apply Or.inl
  refine ⟨_, List.mem_append_right _ List.mem_cons_self, ?_⟩
  exact ⟨bounded.first_le.trans above, fits, fun _ => le_rfl⟩

/-- A region at the top of the used part of an extent is given back to it. -/
theorem retract (valid : Valid alignment ⟨before ++ extent :: after, whole, region :: used⟩)
    (hasHeader : extent.chunk.addr < extent.first) (nonempty : region.size ≠ 0)
    (onTop : region.stop = extent.last) :
    Valid alignment ⟨before ++ { extent with last := region.addr } :: after, whole, used⟩ := by
  have isExtent : extent ∈ before ++ extent :: after :=
    List.mem_append_right _ List.mem_cons_self
  have bounded := valid.bounded extent isExtent
  have carved : extent.Carved region := by
    rcases valid.carved_or_apart isExtent List.mem_cons_self with carved | apart
    · exact carved
    · -- the last address of the region lies in the chunk of the extent
      have first := bounded.first_le
      have last := bounded.last_le
      rcases Region.apart_iff.mp apart with empty | empty | below | above
      all_goals
        simp only [Region.stop] at *
        omega
  have remains := valid.release (List.sublist_cons_self region used)
  apply remains.replace
  · rfl
  · have start := region.addr_le_stop
    refine ⟨bounded.addr_le, carved.first_le, start.trans ?_⟩
    exact onTop.le.trans bounded.last_le
  · intro other isUsed otherCarved
    refine ⟨otherCarved.first_le, otherCarved.stop_le, ?_⟩
    intro otherNonempty
    have below := otherCarved.used otherNonempty
    have apart := List.rel_of_pairwise_cons valid.apart isUsed
    rcases Region.apart_iff.mp apart with empty | empty | before | after
    · exact absurd empty nonempty
    · exact absurd empty otherNonempty
    · simp only [Region.stop] at *
      omega
    · exact after

theorem grow (valid : Valid alignment ⟨extents, whole, used⟩) (bounded : extent.Bounded)
    (fresh : ∀ chunk ∈ extents.map Extent.chunk ++ whole, extent.chunk.Apart chunk) :
    Valid alignment ⟨extents ++ [extent], whole, used⟩ where
  separate := by
    have permuted : (extent.chunk :: (extents.map Extent.chunk ++ whole)).Perm
        ((extents ++ [extent]).map Extent.chunk ++ whole) := by
      simp only [List.map_append, List.map_cons, List.map_nil, List.append_assoc,
        List.singleton_append]
      exact List.perm_middle.symm
    apply (permuted.pairwise_iff Region.Apart.symm).mp
    exact List.pairwise_cons.mpr ⟨fresh, valid.separate⟩
  bounded := by
    intro other isExtent
    rcases List.mem_append.mp isExtent with old | new
    · exact valid.bounded other old
    · rw [List.mem_singleton.mp new]
      exact bounded
  placed region isUsed :=
    (valid.placed region isUsed).mono (List.subset_append_left _ _) (List.Subset.refl _)
  aligned := valid.aligned
  apart := valid.apart

theorem adopt (valid : Valid alignment ⟨extents, whole, used⟩) (aligned : alignment ∣ chunk.addr)
    (fresh : ∀ other ∈ extents.map Extent.chunk ++ whole, chunk.Apart other) :
    Valid alignment ⟨extents, chunk :: whole, chunk :: used⟩ := by
  have adopted : Valid alignment ⟨extents, chunk :: whole, used⟩ := by
    constructor
    case separate =>
      have permuted : (chunk :: (extents.map Extent.chunk ++ whole)).Perm
          (extents.map Extent.chunk ++ chunk :: whole) := List.perm_middle.symm
      apply (permuted.pairwise_iff Region.Apart.symm).mp
      exact List.pairwise_cons.mpr ⟨fresh, valid.separate⟩
    case bounded => exact valid.bounded
    case placed =>
      intro region isUsed
      exact (valid.placed region isUsed).mono (List.Subset.refl _) (List.subset_cons_self _ _)
    case aligned => exact valid.aligned
    case apart => exact valid.apart
  apply adopted.use (Or.inr List.mem_cons_self) aligned
  intro other isUsed
  rcases valid.placed other isUsed with ⟨owner, isOwner, carved⟩ | isWhole
  · have apart := fresh owner.chunk (List.mem_append_left _ (List.mem_map_of_mem isOwner))
    exact (apart.symm.of_inside ((valid.bounded owner isOwner).carved_inside carved)).symm
  · exact fresh other (List.mem_append_right _ isWhole)

end Valid

end Arena

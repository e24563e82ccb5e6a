import Mathlib.Algebra.GroupWithZero.Nat
import Mathlib.Order.Interval.Finset.Nat

/-!
# Regions of memory

A region is a run of addresses.  Two regions are apart when no address lies in
both; an empty region is apart from every region.
-/

/-- The addresses from `addr` on, `size` of them. -/
structure Region where
  addr : ℕ
  size : ℕ
  deriving DecidableEq

namespace Region

def stop (region : Region) : ℕ :=
  region.addr + region.size

def Holds (region : Region) (address : ℕ) : Prop :=
  region.addr ≤ address ∧ address < region.stop

def Inside (region outer : Region) : Prop :=
  outer.addr ≤ region.addr ∧ region.stop ≤ outer.stop

/-- No address lies in both regions. -/
def Apart (region other : Region) : Prop :=
  ∀ address, region.Holds address → ¬other.Holds address

variable {region other outer : Region}

@[simp]
theorem stop_mk (addr size : ℕ) : stop ⟨addr, size⟩ = addr + size := rfl

theorem addr_le_stop (region : Region) : region.addr ≤ region.stop :=
  Nat.le_add_right _ _

theorem apart_iff : region.Apart other ↔
    region.size = 0 ∨ other.size = 0 ∨ region.stop ≤ other.addr ∨ other.stop ≤ region.addr := by
  constructor
  · intro apart
    by_contra overlap
    simp only [not_or, not_le] at overlap
    rcases overlap with ⟨nonempty, otherNonempty, starts, stops⟩
    -- the later of the two first addresses lies in both
    apply apart (max region.addr other.addr)
    · constructor
      · exact le_max_left _ _
      · simp only [stop] at *
        omega
    · constructor
      · exact le_max_right _ _
      · simp only [stop] at *
        omega
  · intro separate address inRegion inOther
    simp only [Holds, stop] at *
    omega

instance : DecidableRel Apart :=
  fun _ _ => decidable_of_iff _ apart_iff.symm

theorem Apart.symm (apart : region.Apart other) : other.Apart region := by
  intro address inOther inRegion
  exact apart address inRegion inOther

instance : Std.Symm Apart :=
  ⟨fun _ _ apart => apart.symm⟩

theorem Apart.of_inside {inner : Region} (apart : outer.Apart other)
    (inside : inner.Inside outer) : inner.Apart other := by
  intro address inInner
  apply apart address
  exact ⟨inside.1.trans inInner.1, lt_of_lt_of_le inInner.2 inside.2⟩

theorem Apart.of_stop_le (ordered : region.stop ≤ other.addr) : region.Apart other :=
  apart_iff.mpr (Or.inr (Or.inr (Or.inl ordered)))

theorem Apart.of_empty (empty : region.size = 0) : region.Apart other :=
  apart_iff.mpr (Or.inl empty)

theorem Inside.trans {inner : Region} (inside : inner.Inside region)
    (more : region.Inside outer) : inner.Inside outer :=
  ⟨more.1.trans inside.1, inside.2.trans more.2⟩

/-- The first of two parts of a region. -/
theorem inside_left (addr size rest : ℕ) : Inside ⟨addr, size⟩ ⟨addr, size + rest⟩ := by
  refine ⟨le_rfl, ?_⟩
  rw [stop_mk, stop_mk]
  omega

theorem inside_right (addr size rest : ℕ) :
    Inside ⟨addr + size, rest⟩ ⟨addr, size + rest⟩ := by
  refine ⟨Nat.le_add_right _ _, ?_⟩
  rw [stop_mk, stop_mk]
  omega

/-- The addresses from one address on up to another. -/
def between (first last : ℕ) : Region :=
  ⟨first, last - first⟩

@[simp]
theorem holds_between {first last address : ℕ} :
    (between first last).Holds address ↔ first ≤ address ∧ address < last := by
  simp only [between, Holds, stop]
  omega

theorem inside_between {first last : ℕ} (starts : first ≤ region.addr)
    (stops : region.stop ≤ last) : region.Inside (between first last) := by
  refine ⟨starts, ?_⟩
  have ordered := region.addr_le_stop
  simp only [between, stop_mk]
  omega

theorem Apart.between_trans {first middle last : ℕ} (start : (between first middle).Apart other)
    (rest : (between middle last).Apart other) : (between first last).Apart other := by
  intro address inBetween
  rw [holds_between] at inBetween
  rcases Nat.lt_or_ge address middle with before | behind
  · exact start address (holds_between.mpr ⟨inBetween.1, before⟩)
  · exact rest address (holds_between.mpr ⟨behind, inBetween.2⟩)

section Sum

instance (region : Region) (address : ℕ) : Decidable (region.Holds address) :=
  inferInstanceAs (Decidable (_ ∧ _))

variable {regions : List Region} {bound : ℕ}

/-- The addresses below a bound that lie in one of the regions. -/
def cover (regions : List Region) (bound : ℕ) : Finset ℕ :=
  (Finset.range bound).filter fun address => ∃ region ∈ regions, region.Holds address

theorem mem_cover {address : ℕ} : address ∈ cover regions bound ↔
    address < bound ∧ ∃ region ∈ regions, region.Holds address := by
  simp [cover]

theorem card_cover (apart : regions.Pairwise Apart)
    (bounded : ∀ region ∈ regions, region.stop ≤ bound) :
    (cover regions bound).card = (regions.map Region.size).sum := by
  induction regions with
  | nil => simp [cover]
  | cons first regions ih =>
      rcases List.pairwise_cons.mp apart with ⟨fromFirst, apart⟩
      rcases List.forall_mem_cons.mp bounded with ⟨firstBounded, bounded⟩
      have split : cover (first :: regions) bound =
          Finset.Ico first.addr first.stop ∪ cover regions bound := by
        ext address
        rw [Finset.mem_union, mem_cover, mem_cover, Finset.mem_Ico]
        simp only [List.mem_cons, exists_eq_or_imp]
        constructor
        · intro covered
          exact covered.2.imp id fun rest => ⟨covered.1, rest⟩
        · intro covered
          rcases covered with here | ⟨below, rest⟩
          · exact ⟨lt_of_lt_of_le here.2 firstBounded, Or.inl here⟩
          · exact ⟨below, Or.inr rest⟩
      have disjoint : Disjoint (Finset.Ico first.addr first.stop) (cover regions bound) := by
        rw [Finset.disjoint_left]
        intro address here covered
        rcases mem_cover.mp covered with ⟨-, region, isRegion, inRegion⟩
        exact fromFirst region isRegion address (Finset.mem_Ico.mp here) inRegion
      rw [split, Finset.card_union_of_disjoint disjoint, ih apart bounded, Nat.card_Ico,
        List.map_cons, List.sum_cons, stop, Nat.add_sub_cancel_left]

/-- Regions that are apart and end below a bound have no more addresses than there are. -/
theorem sum_size_le (apart : regions.Pairwise Apart)
    (bounded : ∀ region ∈ regions, region.stop ≤ bound) :
    (regions.map Region.size).sum ≤ bound := by
  rw [← card_cover apart bounded]
  unfold cover
  exact (Finset.card_filter_le _ _).trans (Finset.card_range bound).le

theorem Apart.addr_ne (apart : region.Apart other) (nonempty : region.size ≠ 0)
    (otherNonempty : other.size ≠ 0) : region.addr ≠ other.addr := by
  intro same
  rcases apart_iff.mp apart with empty | empty | before | after
  · exact nonempty empty
  · exact otherNonempty empty
  · simp only [stop] at before
    omega
  · simp only [stop] at after
    omega

end Sum

end Region

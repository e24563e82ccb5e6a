import Mathlib.Data.List.Lex
import Mathlib.Order.Lattice
import Mathlib.Tactic.Common

/-!
# Prefixes in the lexicographic order

The words that start with a given prefix form an interval of the lexicographic
order, and prepending a word is strictly monotone.
-/

namespace LexOrder

universe u

variable {α : Type u} [LinearOrder α]

@[simp]
theorem append_lt_append_iff {pre left right : List α} :
    pre ++ left < pre ++ right ↔ left < right := by
  induction pre with
  | nil => simp
  | cons first pre ih =>
      rw [List.cons_append, List.cons_append, List.cons_lt_cons_iff]
      simp [ih]

theorem lt_append_right {word suffix : List α} (nonempty : suffix ≠ []) :
    word < word ++ suffix := by
  have less : word ++ [] < word ++ suffix := by
    rw [append_lt_append_iff]
    cases suffix with
    | nil => exact absurd rfl nonempty
    | cons first rest => exact List.nil_lt_cons first rest
  simpa using less

theorem le_of_isPrefix {pre word : List α} (starts : pre <+: word) : pre ≤ word := by
  rcases starts with ⟨suffix, rfl⟩
  rcases eq_or_ne suffix [] with rfl | nonempty
  · simp
  · exact (lt_append_right nonempty).le

/-- A word between a prefix and one of its extensions starts with the prefix. -/
theorem prefix_of_between {pre word suffix : List α} (lower : pre ≤ word)
    (upper : word ≤ pre ++ suffix) : pre <+: word := by
  induction pre generalizing word with
  | nil => exact List.nil_prefix
  | cons first pre ih =>
      cases word with
      | nil => exact absurd (List.nil_lt_cons first pre) (not_lt.mpr lower)
      | cons head word =>
          have notBelow : ¬(head < first ∨ head = first ∧ word < pre) := by
            rw [← List.cons_lt_cons_iff]
            exact not_lt.mpr lower
          have notAbove : ¬(first < head ∨ first = head ∧ pre ++ suffix < word) := by
            rw [← List.cons_lt_cons_iff]
            exact not_lt.mpr upper
          have same : first = head :=
            le_antisymm (not_lt.mp fun less => notBelow (.inl less))
              (not_lt.mp fun less => notAbove (.inl less))
          subst head
          rw [List.cons_prefix_cons]
          refine ⟨rfl, ih ?_ ?_⟩
          · exact not_lt.mp fun less => notBelow (.inr ⟨rfl, less⟩)
          · exact not_lt.mp fun less => notAbove (.inr ⟨rfl, less⟩)

end LexOrder

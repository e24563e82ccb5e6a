import Mathlib.Data.List.Nodup

/-!
# Searching a list

The first element that meets a condition splits a list, and erasing it leaves the two
parts.  Where a function tells the elements of a list apart, a condition on its values
singles out at most one element, and a filter may leave out just that one.  An element that
a filter keeps splits the list as its place among the kept elements splits these.
-/

namespace Search

universe u v

variable {α : Type u} {β : Type v} {p : α → Bool} {f : α → β} {l before after : List α} {a : α}

theorem find?_split (skipped : ∀ b ∈ before, ¬p b = true) (found : p a = true) :
    (before ++ a :: after).find? p = some a ∧
      (before ++ a :: after).eraseP p = before ++ after := by
  constructor
  · rw [List.find?_append, List.find?_eq_none.mpr skipped, Option.none_or,
      List.find?_cons_of_pos found]
  · rw [List.eraseP_append_right _ skipped, List.eraseP_cons_of_pos found]

theorem exists_split_of_find? (found : l.find? p = some a) :
    ∃ before after, l = before ++ a :: after ∧ p a = true ∧ l.eraseP p = before ++ after := by
  rcases List.find?_eq_some_iff_append.mp found with ⟨holds, before, after, split, skipped⟩
  have passed : ∀ b ∈ before, ¬p b = true := by
    intro b isBefore
    simpa using skipped b isBefore
  refine ⟨before, after, split, holds, ?_⟩
  rw [split]
  exact (find?_split passed holds).2

theorem find?_eq_some_of_nodup [DecidableEq β] (distinct : (l.map f).Nodup) (isElement : a ∈ l) :
    l.find? (fun b => f b = f a) = some a := by
  cases found : l.find? (fun b => f b = f a) with
  | none =>
      have missing := List.find?_eq_none.mp found a isElement
      exact absurd (decide_eq_true rfl) missing
  | some b =>
      have isFound := List.mem_of_find?_eq_some found
      have same := List.find?_some found
      rw [List.inj_on_of_nodup_map distinct isFound isElement (of_decide_eq_true same)]

theorem map_notMem (distinct : ((before ++ a :: after).map f).Nodup) :
    f a ∉ (before ++ after).map f := by
  rw [List.map_append, List.map_cons, List.nodup_middle, List.nodup_cons,
    ← List.map_append] at distinct
  exact distinct.1

theorem filter_ne [DecidableEq β] (distinct : ((before ++ a :: after).map f).Nodup) :
    (before ++ a :: after).filter (fun b => f b ≠ f a) = before ++ after := by
  have kept : (before ++ after).filter (fun b => f b ≠ f a) = before ++ after := by
    apply List.filter_eq_self.mpr
    intro b isOther
    apply decide_eq_true
    intro same
    exact map_notMem distinct (same ▸ List.mem_map_of_mem isOther)
  rw [List.filter_append, List.filter_cons_of_neg (by simp), ← List.filter_append, kept]

/-- A condition that only elements with one value meet is met once. -/
theorem countP_eq_one (distinct : (l.map f).Nodup) (isElement : a ∈ l) (holds : p a = true)
    (only : ∀ b ∈ l, p b = true → f b = f a) : l.countP p = 1 := by
  rcases List.append_of_mem isElement with ⟨before, after, rfl⟩
  have others : ∀ b ∈ before ++ after, ¬p b = true := by
    intro b isOther holdsToo
    apply map_notMem distinct
    have isElement : b ∈ before ++ a :: after := by
      rcases List.mem_append.mp isOther with isBefore | isAfter
      · exact List.mem_append_left _ isBefore
      · exact List.mem_append_right _ (List.mem_cons_of_mem _ isAfter)
    exact List.mem_map.mpr ⟨b, isOther, only b isElement holdsToo⟩
  have none := List.countP_eq_zero.mpr others
  rw [List.countP_append] at none
  rw [List.countP_append, List.countP_cons_of_pos holds]
  omega

theorem filter_split (kept : p a = true) :
    (before ++ a :: after).filter p = before.filter p ++ a :: after.filter p := by
  rw [List.filter_append, List.filter_cons_of_pos kept]

theorem exists_split_of_filter {j : ℕ} (found : (l.filter p)[j]? = some a) :
    ∃ before after, l = before ++ a :: after ∧ p a = true ∧ (before.filter p).length = j := by
  induction l generalizing j with
  | nil => simp at found
  | cons b l ih =>
      by_cases kept : p b = true
      · rw [List.filter_cons_of_pos kept] at found
        cases j with
        | zero =>
            rcases Option.some.inj found with rfl
            exact ⟨[], l, rfl, kept, rfl⟩
        | succ j =>
            rcases ih found with ⟨before, after, rfl, holds, place⟩
            exact ⟨b :: before, after, rfl, holds, by simp [kept, place]⟩
      · rw [List.filter_cons_of_neg kept] at found
        rcases ih found with ⟨before, after, rfl, holds, place⟩
        exact ⟨b :: before, after, rfl, holds, by simp [kept, place]⟩

/-- When the first element that meets a condition is taken out of a list, the order among the
elements with one value of a function stays as it was. -/
theorem filter_eraseP [DecidableEq β] (found : l.find? p = some a)
    (alike : ∀ b, f b = f a → p b = true) (value : β) :
    l.filter (fun b => f b = value) =
      (if f a = value then [a] else []) ++ (l.eraseP p).filter fun b => f b = value := by
  rcases List.find?_eq_some_iff_append.mp found with ⟨holds, before, after, split, skipped⟩
  have passed : ∀ b ∈ before, ¬p b = true := by
    intro b isBefore
    simpa using skipped b isBefore
  rw [split, (find?_split passed holds).2, List.filter_append, List.filter_append]
  split_ifs with same
  · have none : before.filter (fun b => f b = value) = [] := by
      rw [List.filter_eq_nil_iff]
      intro b isBefore isSame
      exact passed b isBefore (alike b ((of_decide_eq_true isSame).trans same.symm))
    rw [none, List.filter_cons, if_pos (decide_eq_true same)]
    rfl
  · rw [List.filter_cons, if_neg (by simpa using same)]
    rfl

end Search

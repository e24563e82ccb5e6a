import Libhelp.Lib.Program
import Mathlib.Data.List.Nodup
import Mathlib.Logic.Function.Basic

/-!
# Linked lists

A layout says how an element is stored as a node that has the address of the next one.
Elements are linked when each of them is stored at its address with the address of the
one behind it, and the last one with a given address, which is null at the end of a
list.

An element is put in front of a list, or taken out of it: the first one by going on to
the next, any other by a write to the node before it.  A walk looks at one node after the
other until one meets a condition.
-/

namespace LinkedList

open StepProgram

universe u v w

/-- How elements are stored as nodes. -/
structure Layout (P : Type u) (α : Type v) (β : Type w) where
  null : P
  addr : β → P
  cell : β → P → α
  next : α → P
  setNext : α → P → α
  next_cell : ∀ b p, next (cell b p) = p
  setNext_cell : ∀ b p q, setNext (cell b p) q = cell b q

namespace Layout

variable {P : Type u} {α : Type v} {β : Type w} (layout : Layout P α β)

/-- The address of the first element, or what the last one would have as the next. -/
def first (last : P) : List β → P
  | [] => last
  | b :: _ => layout.addr b

/-- Elements that are stored one behind the other. -/
def Linked (mem : P → Option α) (last : P) : List β → Prop
  | [] => True
  | b :: rest =>
      layout.addr b ≠ layout.null ∧
        mem (layout.addr b) = some (layout.cell b (layout.first last rest)) ∧
          Linked mem last rest

/-- A step of a walk, which ends at null or at a node that meets the condition. -/
def walkStep [DecidableEq P] (mem : P → Option α) (found : α → Bool) (p : P) : Outcome P P :=
  if p = layout.null then
    .ret p
  else
    match mem p with
    | none => .stuck
    | some node => if found node then .ret p else .next (layout.next node)

variable {layout} {mem mem' : P → Option α} {last p : P} {left right rest before behind : List β}
  {elems : List β} {b c prev : β}

@[simp]
theorem first_nil (last : P) : layout.first last [] = last := rfl

@[simp]
theorem first_cons (last : P) (b : β) (rest : List β) :
    layout.first last (b :: rest) = layout.addr b := rfl

theorem first_append (last : P) (left right : List β) :
    layout.first last (left ++ right) = layout.first (layout.first last right) left := by
  cases left with
  | nil => rfl
  | cons b left => rfl

theorem linked_append : layout.Linked mem last (left ++ right) ↔
    layout.Linked mem (layout.first last right) left ∧ layout.Linked mem last right := by
  induction left with
  | nil => exact ⟨fun linked => ⟨trivial, linked⟩, And.right⟩
  | cons b left ih =>
      rw [List.cons_append, Linked, Linked, ih, first_append, and_assoc, and_assoc]

/-- Memory that is the same at the elements. -/
theorem Linked.congr (linked : layout.Linked mem last elems)
    (same : ∀ b ∈ elems, mem' (layout.addr b) = mem (layout.addr b)) :
    layout.Linked mem' last elems := by
  induction elems with
  | nil => trivial
  | cons b rest ih =>
      rcases linked with ⟨nonnull, stored, linked⟩
      rcases List.forall_mem_cons.mp same with ⟨here, same⟩
      exact ⟨nonnull, here.trans stored, ih linked same⟩

/-- An element has the address of another one as the next, or the last address. -/
theorem Linked.stored (linked : layout.Linked mem last elems) (isElement : b ∈ elems) :
    layout.addr b ≠ layout.null ∧ ∃ q, mem (layout.addr b) = some (layout.cell b q) ∧
      (q = last ∨ ∃ c ∈ elems, layout.addr c = q) := by
  induction elems with
  | nil => cases isElement
  | cons c rest ih =>
      rcases linked with ⟨nonnull, stored, linked⟩
      rcases List.mem_cons.mp isElement with rfl | isLater
      · refine ⟨nonnull, _, stored, ?_⟩
        cases rest with
        | nil => exact Or.inl rfl
        | cons d rest => exact Or.inr ⟨d, by simp, rfl⟩
      · rcases ih linked isLater with ⟨nonnull, q, stored, next⟩
        refine ⟨nonnull, q, stored, next.imp_right ?_⟩
        intro isNext
        rcases isNext with ⟨d, isElement, same⟩
        exact ⟨d, List.mem_cons_of_mem _ isElement, same⟩

section Change

variable [DecidableEq P] {value : Option α}

theorem Linked.update (linked : layout.Linked mem last elems)
    (elsewhere : p ∉ elems.map layout.addr) :
    layout.Linked (Function.update mem p value) last elems := by
  apply linked.congr
  intro b isElement
  apply Function.update_of_ne
  intro same
  exact elsewhere (same ▸ List.mem_map_of_mem isElement)

/-- An element is put in front of a list. -/
theorem Linked.push (linked : layout.Linked mem last elems)
    (nonnull : layout.addr b ≠ layout.null) (isNew : layout.addr b ∉ elems.map layout.addr) :
    layout.Linked (Function.update mem (layout.addr b)
      (some (layout.cell b (layout.first last elems)))) last (b :: elems) :=
  ⟨nonnull, Function.update_self _ _ _, linked.update isNew⟩

/-- The first element is taken out. -/
theorem Linked.pop (linked : layout.Linked mem last (b :: rest))
    (distinct : ((b :: rest).map layout.addr).Nodup) :
    layout.Linked (Function.update mem (layout.addr b) value) last rest :=
  linked.2.2.update (List.nodup_cons.mp distinct).1

/-- An element is taken out behind another one. -/
theorem Linked.unlink (linked : layout.Linked mem last (before ++ prev :: b :: behind))
    (distinct : ((before ++ prev :: b :: behind).map layout.addr).Nodup) :
    layout.Linked (Function.update (Function.update mem (layout.addr prev)
        (some (layout.cell prev (layout.first last behind)))) (layout.addr b) value) last
      (before ++ prev :: behind) := by
  rw [List.map_append, List.map_cons, List.map_cons, List.nodup_append] at distinct
  rcases distinct with ⟨-, distinct, apart⟩
  rcases List.nodup_cons.mp distinct with ⟨prevNew, distinct⟩
  rcases List.nodup_cons.mp distinct with ⟨isNew, -⟩
  have prevApart : layout.addr prev ∉ before.map layout.addr :=
    fun isBefore => apart _ isBefore _ List.mem_cons_self rfl
  have isApart : layout.addr b ∉ before.map layout.addr :=
    fun isBefore => apart _ isBefore _ (List.mem_cons_of_mem _ List.mem_cons_self) rfl
  have differs : layout.addr prev ≠ layout.addr b :=
    fun same => prevNew (same ▸ List.mem_cons_self)
  rcases linked_append.mp linked with ⟨front, nonnull, stored, back⟩
  apply linked_append.mpr
  refine ⟨(front.update prevApart).update isApart, nonnull, ?_, ?_⟩
  · rw [Function.update_of_ne differs, Function.update_self]
  · exact (back.2.2.update fun isBehind => prevNew (List.mem_cons_of_mem _ isBehind)).update isNew

end Change

section Walk

variable [DecidableEq P] {found : α → Bool} {fuel : ℕ}

/-- A walk goes past an element whose node does not meet the condition. -/
theorem Linked.walkStep_cons (linked : layout.Linked mem last (b :: rest)) :
    layout.walkStep mem found (layout.addr b) =
      if found (layout.cell b (layout.first last rest)) then
        .ret (layout.addr b)
      else
        .next (layout.first last rest) := by
  rcases linked with ⟨nonnull, stored, -⟩
  rw [walkStep, if_neg nonnull, stored]
  dsimp only
  rw [layout.next_cell]

theorem Linked.run_walk (linked : layout.Linked mem last (before ++ b :: behind))
    (skips : ∀ c ∈ before, ∀ node, mem (layout.addr c) = some node → found node = false)
    (finds : ∀ node, mem (layout.addr b) = some node → found node = true)
    (enough : before.length < fuel) :
    run (layout.walkStep mem found) fuel (.next (layout.first last (before ++ b :: behind))) =
      some (layout.addr b) := by
  induction before generalizing fuel with
  | nil =>
      cases fuel with
      | zero => cases enough
      | succ fuel =>
          rw [List.nil_append] at linked ⊢
          rw [run_next_succ, first_cons, linked.walkStep_cons, if_pos (finds _ linked.2.1),
            run_ret]
  | cons c before ih =>
      cases fuel with
      | zero => cases enough
      | succ fuel =>
          rcases List.forall_mem_cons.mp skips with ⟨skipsFirst, skips⟩
          rw [List.cons_append] at linked ⊢
          have passes := skipsFirst _ linked.2.1
          rw [run_next_succ, first_cons, linked.walkStep_cons, passes]
          exact ih linked.2.2 skips (Nat.lt_of_succ_lt_succ enough)

/-- A walk that finds nothing ends at null. -/
theorem Linked.run_walk_null (linked : layout.Linked mem layout.null elems)
    (skips : ∀ c ∈ elems, ∀ node, mem (layout.addr c) = some node → found node = false)
    (enough : elems.length < fuel) :
    run (layout.walkStep mem found) fuel (.next (layout.first layout.null elems)) =
      some layout.null := by
  induction elems generalizing fuel with
  | nil =>
      cases fuel with
      | zero => cases enough
      | succ fuel => rw [run_next_succ, first_nil, walkStep, if_pos rfl, run_ret]
  | cons c rest ih =>
      cases fuel with
      | zero => cases enough
      | succ fuel =>
          rcases List.forall_mem_cons.mp skips with ⟨skipsFirst, skips⟩
          have passes := skipsFirst _ linked.2.1
          rw [run_next_succ, first_cons, linked.walkStep_cons, passes]
          exact ih linked.2.2 skips (Nat.lt_of_succ_lt_succ enough)

end Walk

end Layout

end LinkedList

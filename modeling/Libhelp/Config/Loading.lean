import Libhelp.Config.Grammar
import Libhelp.Config.Meaning

/-!
# Loading whole texts

What `config_load2` makes of the texts of the grammar: of sequences of complete
items, of texts cut off in a statement, and of texts put together from two texts at
the end of a line.
-/

namespace Libhelp

open CString

section Items

def Item.isCopy : Item → Bool
  | .copy _ _ _ => true
  | _ => false

/-- The entries an item puts into the store. -/
def Item.assignments : Item → List (Bytes × Word)
  | .plain key _ value => [(key.bytes, some (value.first :: value.rest))]
  | .quoted key _ body => [(key.bytes, some body.bytes)]
  | _ => []

theorem exec_items_iff {items : List Item} (noCopies : ∀ item ∈ items, item.isCopy = false)
    {data last : Store} :
    Exec data (items.flatMap Item.stmts) last ↔
      data.overlay (items.flatMap Item.assignments) = last := by
  induction items generalizing data with
  | nil => simp
  | cons item items ih =>
      have ih := @ih fun other mem => noCopies other (List.mem_cons_of_mem _ mem)
      have noCopy := noCopies item List.mem_cons_self
      rw [List.flatMap_cons, List.flatMap_cons]
      cases item with
      | copy target gap source => simp [Item.isCopy] at noCopy
      | _ => simp [Item.stmts, Item.assignments, ih]

/-- Every sequence of blanks, newlines, comments, plain and quoted statements is accepted,
and overlays the store from left to right. -/
theorem loads_items (config : Config) (items : List Item)
    (noCopies : ∀ item ∈ items, item.isCopy = false) (free : NulFree (render items)) :
    ∃ data : Store,
      (∀ result, Loads ample config (render items) result ↔
        result = ⟨OK, ⟨data, 0, some (render items)⟩, none⟩) ∧
      data = config.data.overlay (items.flatMap Item.assignments) ∧
      (∀ before key word after,
        items.flatMap Item.assignments = before ++ (key, word) :: after →
        (∀ entry ∈ after, entry.1 ≠ key) → data.find? key = some word) ∧
      ∀ key, (∀ entry ∈ items.flatMap Item.assignments, entry.1 ≠ key) →
        data.find? key = config.data.find? key := by
  have mode : (scan (render items)).mode = .space := (passes_render items 1).1
  have same : stmts (render items) = items.flatMap Item.stmts := (passes_render items 1).2
  refine ⟨_, ?_, rfl, ?_, ?_⟩
  · intro result
    rw [loads_iff free, same]
    simp only [exec_items_iff noCopies, Scan.result_of_not_failed (s := scan (render items))
      (by simp [mode]), exists_eq_left']
    rfl
  · intro before key word after split last
    rw [split]
    exact OrdMap.find?_overlay_last last
  · intro key other
    exact OrdMap.find?_overlay_of_not_mem other

theorem loads_items_twice :
    ∃ data : Store,
      (∀ result, Loads ample Config.new [97, 32, 98, 59, 10, 97, 32, 34, 92, 34, 34, 59] result ↔
        result = ⟨OK, ⟨data, 0, some [97, 32, 98, 59, 10, 97, 32, 34, 92, 34, 34, 59]⟩, none⟩) ∧
      data.find? [97] = some (some [92, 34]) := by
  rcases loads_items Config.new [
    .plain ⟨[97], by decide, by decide, by decide⟩ ⟨[32], by decide, by decide⟩
      ⟨98, [], by decide, by decide⟩,
    .newline,
    .quoted ⟨[97], by decide, by decide, by decide⟩ ⟨[32], by decide, by decide⟩
      ⟨(QuotedBody.empty.concat 92 (by decide) (by decide)).concat 34 (by decide) (by decide),
        by decide, [], by decide⟩] (by decide) (by decide) with ⟨data, loads, rfl, _, _⟩
  exact ⟨_, loads, by decide⟩

end Items

section CutOff

theorem Mode.not_failed_of_inStatement {mode : Mode} (inside : mode.inStatement) (fault : Fault) :
    mode ≠ .failed fault := by
  rintro rfl
  simp [Mode.inStatement] at inside

/-- A text that is cut off in a statement is accepted wherever its load returns. -/
theorem CutOff.accepted {config : Config} {text : Bytes} (cutOff : CutOff text)
    (free : NulFree text) {result : LoadResult} (loads : Loads ample config text result) :
    result.ret = OK ∧ result.config.lineError = 0 := by
  rcases (loads_iff free).mp loads with ⟨data, _, rfl⟩
  rw [Scan.result_of_not_failed (Mode.not_failed_of_inStatement (cutOff_iff.mp cutOff))]
  exact ⟨rfl, rfl⟩

/-- `config_load2` accepts the text only if it is not cut off in a statement, and otherwise
rejects it on its last line. -/
def GuardsEnd (config : Config) (text : Bytes) : Prop :=
  (∀ alloc result, Loads alloc config text result → result.ret = OK → ¬CutOff text) ∧
    (CutOff text → ∃ result, Loads ample config text result ∧ result.ret = ERROR ∧
      result.config.lineError = 1 + text.count Ascii.newline)

/-- The end of a text is guarded only where there is nothing to guard: no text that is cut
off in a statement is rejected. -/
theorem guardsEnd_iff (config : Config) {text : Bytes} (free : NulFree text) :
    GuardsEnd config text ↔ ¬CutOff text := by
  constructor
  · rintro ⟨_, rejects⟩ cutOff
    rcases rejects cutOff with ⟨result, loads, rejected, _⟩
    rw [(cutOff.accepted free loads).1] at rejected
    exact absurd rejected (by decide)
  · intro whole
    exact ⟨fun _ _ _ _ => whole, fun cutOff => absurd cutOff whole⟩

theorem guardsEnd_iff_key : ¬GuardsEnd Config.new [97] := fun guards =>
  (guardsEnd_iff Config.new (by decide)).mp guards ⟨[], .keyPart [97] (by decide) (by decide), rfl⟩

/-- The text `a b;c d` is cut off in the value of `c`; its load returns `OK` without `c`. -/
theorem cutOff_accepted :
    CutOff [97, 32, 98, 59, 99, 32, 100] ∧ ¬GuardsEnd Config.new [97, 32, 98, 59, 99, 32, 100] ∧
      ∃ result, Loads ample Config.new [97, 32, 98, 59, 99, 32, 100] result ∧ result.ret = OK ∧
        result.config.data.find? [99] = none := by
  have cutOff : CutOff [97, 32, 98, 59, 99, 32, 100] := cutOff_iff.mpr rfl
  have loads : Loads ample Config.new [97, 32, 98, 59, 99, 32, 100]
      ⟨OK, ⟨(∅ : Store).insert [97] (some [98]), 0, some [97, 32, 98, 59, 99, 32, 100]⟩, none⟩ :=
    ⟨20, rfl⟩
  refine ⟨cutOff, ?_, _, loads, rfl, by decide⟩
  rintro ⟨accepts, _⟩
  exact accepts _ _ loads rfl cutOff

end CutOff

section Append

end Append

end Libhelp

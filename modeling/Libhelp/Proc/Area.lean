import Libhelp.Proc.Title

/-!
# The area of a title

The area ends at the zero that ends its last string, and `proc_set_title` never writes
that one.  So a title that takes the whole area is ended by it.  An area of no bytes has
no room for the byte that a cut title gives up: the size of the copy wraps around.
-/

namespace Libhelp

open CString ByteMemory

/-- A title is set as it should be: within the area, as far as it fits, and followed by zeros. -/
structure TitleSet (proc : Proc) (base : ℕ) (title : Bytes) : Prop where
  copied : titleSize proc title ≤ proc.procLast - base
  cleared : zerosSize proc title ≤ proc.procLast - base
  writes : proc.memory.WritesIn (.between base proc.procLast) (procSetTitle proc title).memory
  whole : strlen title ≤ proc.procLast - base →
    (procSetTitle proc title).memory.stringAt base = cstr title
  cut : proc.procLast - base < strlen title →
    (procSetTitle proc title).memory.stringAt base <+: cstr title ∧
      (procSetTitle proc title).memory.stringAt base ≠ cstr title
  zeros : ∀ address,
    base + ((procSetTitle proc title).memory.stringAt base).length ≤ address →
      address ≤ proc.procLast → byteAt (procSetTitle proc title).memory.bytes address = nul

/-- There is an area, or there is nothing to be copied to it. -/
def HasArea (base last : ℕ) (title : Bytes) : Prop :=
  base < last ∨ strlen title = 0

/-- An area that ends at a zero. -/
structure TitleArea (base last : ℕ) (proc : Proc) : Prop where
  procArgv : proc.procArgv.head? = some base
  procLast : proc.procLast = last
  ordered : base ≤ last
  inside : last < proc.memory.bytes.length
  bounded : proc.memory.bytes.length < 2 ^ 64
  ended : byteAt proc.memory.bytes last = nul

section Set

variable {base last size : ℕ} {proc : Proc} {title : Bytes}

theorem byteAt_title (copied : size ≤ strlen title) {i : ℕ} (inTitle : i < size) :
    byteAt ((cstr title).take size) i = byteAt title i := by
  have isPrefix : cstr title <+: title := List.takeWhile_prefix _
  have inString : i < (cstr title).length := lt_of_lt_of_le inTitle copied
  rcases isPrefix with ⟨rest, split⟩
  nth_rewrite 2 [← split]
  rw [byteAt_append_of_lt inString]
  simp [byteAt, inTitle]

/-- The bytes of the area after a title has been set. -/
theorem TitleArea.byteAt_setTitle (area : TitleArea base last proc)
    (room : HasArea base last title) {i : ℕ} (inArea : i ≤ last - base) :
    byteAt (procSetTitle proc title).memory.bytes (base + i) =
      byteAt ((cstr title).take (titleSize proc title)) i := by
  rcases area with ⟨first, rfl, ordered, inside, bounded, ended⟩
  rcases titleSize_eq first ordered (inside.trans bounded) room with ⟨size, fits, zeros⟩
  have copied : titleSize proc title ≤ strlen title := by
    rw [size]
    split <;> omega
  have length : ((cstr title).take (titleSize proc title)).length = titleSize proc title :=
    List.length_take_of_le copied
  rw [procSetTitle_memory first]
  rcases Nat.lt_or_ge i (titleSize proc title) with inTitle | behind
  · -- the title is not reached by the zeros
    rw [byteAt_title copied inTitle, memset, byteAt_write_of_not_holds, memcpy,
      byteAt_write_of_holds, Nat.add_sub_cancel_left]
    · simp only [Region.Holds, Region.stop]
      omega
    · omega
    · simp only [Region.Holds, Region.stop]
      omega
  · have isEnd : byteAt ((cstr title).take (titleSize proc title)) i = nul :=
      List.getD_eq_default _ _ (length.le.trans behind)
    rw [isEnd]
    rcases Nat.lt_or_eq_of_le inArea with inZeros | atLast
    · rw [memset, byteAt_write_of_holds]
      · simp only [Region.Holds, Region.stop]
        omega
      · rw [memcpy, length_write]
        omega
    · have atEnd : base + i = proc.procLast := by omega
      rw [atEnd, memset, byteAt_write_of_not_holds, memcpy, byteAt_write_of_not_holds, ended]
      · simp only [Region.Holds, Region.stop]
        omega
      · simp only [Region.Holds, Region.stop]
        omega

theorem TitleArea.stringAt_setTitle (area : TitleArea base last proc)
    (room : HasArea base last title) :
    (procSetTitle proc title).memory.stringAt base =
      (cstr title).take (titleSize proc title) := by
  have byteAt_eq := fun i => @TitleArea.byteAt_setTitle base last proc title area room i
  rcases area with ⟨first, rfl, ordered, inside, bounded, -⟩
  rcases titleSize_eq first ordered (inside.trans bounded) room with ⟨size, fits, -⟩
  have writes := procSetTitle_writesIn first ordered (inside.trans bounded) room
  have copied : ((cstr title).take (titleSize proc title)).length ≤ titleSize proc title :=
    List.length_take_le _ _
  apply StringAt.stringAt_eq
  refine ⟨?_, ?_, ?_⟩
  · exact fun isNul => nulFree_cstr title (List.mem_of_mem_take isNul)
  · rw [writes.length]
    omega
  · intro i inString
    exact byteAt_eq i (by omega)

theorem TitleArea.setTitle (area : TitleArea base last proc) (room : HasArea base last title) :
    TitleArea base last (procSetTitle proc title) := by
  rcases area with ⟨first, rfl, ordered, inside, bounded, ended⟩
  have writes := procSetTitle_writesIn first ordered (inside.trans bounded) room
  refine ⟨?_, rfl, ordered, ?_, ?_, ?_⟩
  · show (proc.procArgv.take 1).head? = some base
    rw [List.head?_take, if_neg one_ne_zero]
    exact first
  · rw [writes.length]
    exact inside
  · rw [writes.length]
    exact bounded
  · rw [writes.bytes]
    · exact ended
    · rw [Region.holds_between]
      omega

theorem TitleArea.setTitles (area : TitleArea base last proc) {titles : List Bytes}
    (room : ∀ title ∈ titles, HasArea base last title) :
    TitleArea base last (titles.foldl procSetTitle proc) := by
  induction titles generalizing proc with
  | nil => exact area
  | cons title titles ih =>
      rcases List.forall_mem_cons.mp room with ⟨roomNow, later⟩
      exact ih (area.setTitle roomNow) later

/-- A title with an area is set as it should be. -/
theorem TitleArea.titleSet (area : TitleArea base last proc) (room : HasArea base last title) :
    TitleSet proc base title := by
  have string := area.stringAt_setTitle room
  have byteAt_eq := fun i => @TitleArea.byteAt_setTitle base last proc title area room i
  rcases area with ⟨first, rfl, ordered, inside, bounded, -⟩
  rcases titleSize_eq first ordered (inside.trans bounded) room with ⟨size, fits, zeros⟩
  have lengthEq : strlen title = (cstr title).length := rfl
  refine ⟨fits, by omega, procSetTitle_writesIn first ordered (inside.trans bounded) room,
    ?_, ?_, ?_⟩
  · intro short
    rw [string, size, if_neg (by omega)]
    exact List.take_length
  · intro long
    rw [string]
    refine ⟨List.take_prefix _ _, ?_⟩
    intro same
    have lengths := congrArg List.length same
    rw [List.length_take, size, if_pos long] at lengths
    omega
  · intro address behind inArea
    rw [string] at behind
    have split : address = base + (address - base) := by omega
    rw [split, byteAt_eq (address - base) (by omega)]
    exact List.getD_eq_default _ _ (by omega)

/-- Without an area the size of the copy is one below zero. -/
theorem TitleArea.titleSize_wraps (area : TitleArea base last proc)
    (noArea : ¬HasArea base last title) : titleSize proc title = 2 ^ 64 - 1 := by
  rcases not_or.mp noArea with ⟨empty, nonempty⟩
  rcases area with ⟨first, rfl, ordered, inside, bounded, -⟩
  have same : proc.procLast = base := by omega
  have room : sub64 base base = 0 := by
    rw [sub64_eq le_rfl (by omega), Nat.sub_self]
  unfold titleSize
  dsimp only
  rw [(headD_eq first).1, same, room, if_pos (Nat.pos_of_ne_zero nonempty)]
  rfl

theorem TitleArea.titleSet_iff (area : TitleArea base last proc) :
    TitleSet proc base title ↔ HasArea base last title := by
  constructor
  · intro set
    by_contra noArea
    have copied := set.copied
    have inside := area.inside
    have bounded := area.bounded
    rw [area.titleSize_wraps noArea, area.procLast] at copied
    omega
  · exact area.titleSet

end Set

section Init

variable {before proc : Proc} {argv : List ℕ} {malloc : ℕ → Option ℕ}

/-- The loop over `argv` ends behind a string of `argv`. -/
theorem argvLast_ends {memory : ByteMemory} {last : ℕ} (argv : List ℕ) :
    argvLast memory argv last = last ∨
      ∃ p ∈ argv, argvLast memory argv last = p + stringSize memory p := by
  induction argv generalizing last with
  | nil => exact Or.inl rfl
  | cons p argv ih =>
      rw [argvLast, List.foldl_cons, ← argvLast]
      split
      case isTrue here =>
        rcases @ih (p + stringSize memory p) with same | ⟨q, isPointer, ends⟩
        · exact Or.inr ⟨p, List.mem_cons_self, same⟩
        · exact Or.inr ⟨q, List.mem_cons_of_mem _ isPointer, ends⟩
      case isFalse =>
        rcases @ih last with same | ⟨q, isPointer, ends⟩
        · exact Or.inl same
        · exact Or.inr ⟨q, List.mem_cons_of_mem _ isPointer, ends⟩

theorem byteAt_end {memory : ByteMemory} {addr : ℕ} {string : Bytes}
    (isString : memory.StringAt addr string) :
    byteAt memory.bytes (addr + string.length + 1 - 1) = nul := by
  rw [Nat.add_sub_cancel, isString.bytes string.length le_rfl]
  exact List.getD_eq_default _ _ le_rfl

/-- The area ends at a zero as well when a string of `environ` has been added to it. -/
theorem Relocating.ended_step {base : ℕ} {memory : ByteMemory} {chunk : Region}
    {loop : EnvironLoop} {front back : List Entry} {entry : Entry}
    (relocating : Relocating base memory chunk loop front (entry :: back))
    (ended : byteAt loop.memory.bytes (loop.procLast - 1) = nul) :
    byteAt (environStep loop entry.1).memory.bytes
      ((environStep loop entry.1).procLast - 1) = nul := by
  have isString := (Entry.allIn_middle.mp relocating.strings).1
  have spareEntry := (Entry.allApart_middle.mp relocating.spare).1
  have sized := Entry.stringSize_eq isString
  unfold environStep
  split
  case isTrue =>
    dsimp only
    rw [sized, Entry.size, ← Nat.add_assoc, memcpy, byteAt_write_of_not_holds, byteAt_end isString]
    -- the copy goes to the chunk, apart from the string
    intro inCopy
    apply spareEntry (entry.1 + entry.2.length + 1 - 1)
    · simp only [Region.Holds, Region.stop, List.map_cons, List.sum_cons, Entry.size] at inCopy ⊢
      omega
    · simp only [Entry.region, stringRegion, Region.Holds, Region.stop]
      omega
  case isFalse => exact ended

theorem Relocating.ended_run {base : ℕ} {memory : ByteMemory} {chunk : Region}
    {loop : EnvironLoop} {front back : List Entry}
    (relocating : Relocating base memory chunk loop front back)
    (ended : byteAt loop.memory.bytes (loop.procLast - 1) = nul) :
    byteAt ((back.map Prod.fst).foldl environStep loop).memory.bytes
      (((back.map Prod.fst).foldl environStep loop).procLast - 1) = nul := by
  induction back generalizing loop front with
  | nil => exact ended
  | cons entry back ih =>
      rcases relocating.step with ⟨addr, next, -⟩
      exact ih next (relocating.ended_step ended)

/-- `proc_init` leaves an area that starts at `argv[0]`. -/
theorem procInit_area {name : ℕ} (layout : before.Layout argv) (fresh : before.Fresh argv malloc)
    (isFirst : argv.head? = some name) (init : procInit before argv malloc = (true, proc)) :
    TitleArea name proc.procLast proc := by
  rcases procInit_start layout fresh isFirst init with
    ⟨p, last, loop, -, passed, starts, start, runs, rfl⟩
  have ended : byteAt before.memory.bytes (last - 1) = nul := by
    rcases @argvLast_ends before.memory name argv with same | ⟨q, isPointer, ends⟩
    · omega
    · rw [← passed, ends]
      exact byteAt_end (layout.strings (List.mem_append_left _ isPointer))
  have endedLast := start.ended_run ended
  rcases start.run with ⟨entries, ends, -, grows⟩
  rw [runs] at ends grows endedLast
  dsimp only at grows
  have bound := layout.bounded
  have lastInside := ends.lastInside
  have length := ends.writes.length
  have lastEq : sub64 loop.procLast 1 = loop.procLast - 1 := sub64_eq (by omega) (by omega)
  constructor
  · exact isFirst
  · rfl
  · dsimp only
    omega
  · dsimp only
    omega
  · dsimp only
    omega
  · dsimp only
    rw [lastEq]
    exact endedLast

/-- A title is set as it should be, after any others that had an area, when and only when it has
an area. -/
theorem titleSet_iff_hasArea {name : ℕ} (layout : before.Layout argv)
    (fresh : before.Fresh argv malloc) (isFirst : argv.head? = some name)
    (init : procInit before argv malloc = (true, proc)) (titles : List Bytes)
    (room : ∀ title ∈ titles, HasArea name proc.procLast title) (title : Bytes) :
    TitleSet (titles.foldl procSetTitle proc) name title ↔ HasArea name proc.procLast title :=
  ((procInit_area layout fresh isFirst init).setTitles room).titleSet_iff

/-- A title that is as long as the area, after one that is too long for it. -/
theorem titleSet_after_cut : ∃ proc : Proc, proc.procLast = 5 ∧
    (TitleSet ([[116, 105, 116, 108, 101]].foldl procSetTitle proc) 1 [110, 97, 109, 101] ↔
      HasArea 1 proc.procLast [110, 97, 109, 101]) := by
  let before : Proc := ⟨⟨[0, 97, 98, 0, 120, 0, 121, 0, 0, 0, 0, 0], []⟩, [6, 4], [], 0⟩
  have layout : before.Layout [1] := by
    refine ⟨?_, by decide, by decide⟩
    intro p isPointer
    have isOne : p = 1 ∨ p = 6 ∨ p = 4 := by simpa [before] using isPointer
    rcases isOne with rfl | rfl | rfl
    · exact ⟨3, by decide, rfl⟩
    · exact ⟨7, by decide, rfl⟩
    · exact ⟨5, by decide, rfl⟩
  let malloc : ℕ → Option ℕ := fun size => if size ≤ 4 then some 8 else none
  have fresh : before.Fresh [1] malloc := Proc.fresh_of_room (by decide) (by decide)
  have init : procInit before [1] malloc = (true, (procInit before [1] malloc).2) := rfl
  have last : (procInit before [1] malloc).2.procLast = 5 := by decide
  refine ⟨(procInit before [1] malloc).2, last,
    titleSet_iff_hasArea layout fresh rfl init [[116, 105, 116, 108, 101]] ?_ _⟩
  intro title _
  rw [last]
  exact Or.inl (by decide)

/-- `argv[0]` is empty and nothing follows it: the size of a title of one byte wraps around. -/
theorem title_without_area : ∃ before proc malloc, before.Layout [1] ∧ before.Fresh [1] malloc ∧
    procInit before [1] malloc = (true, proc) ∧ ¬TitleSet proc 1 [116] := by
  let before : Proc := ⟨⟨[0, 0, 120, 0, 97, 0, 0, 0], []⟩, [4], [], 0⟩
  have layout : before.Layout [1] := by
    refine ⟨?_, by decide, by decide⟩
    intro p isPointer
    have isOne : p = 1 ∨ p = 4 := by simpa [before] using isPointer
    rcases isOne with rfl | rfl
    · exact ⟨1, by decide, rfl⟩
    · exact ⟨5, by decide, rfl⟩
  have fresh : before.Fresh [1] fun size => if size ≤ 2 then some 6 else none :=
    Proc.fresh_of_room (by decide) (by decide)
  refine ⟨before, _, _, layout, fresh, rfl, ?_⟩
  intro set
  have room := (procInit_area layout fresh rfl rfl).titleSet_iff.mp set
  rcases room with nonempty | empty
  · exact absurd nonempty (by decide)
  · exact absurd empty (by decide)

end Init

end Libhelp

import Libhelp.Config.ErrorLine

/-!
# Checking a text line by line

The model of `config_test`, which loads the lines of a text one by one into one
configuration, and its agreement with loading the text as a whole.

It loads each line without its newline: the buffer `tmb` has room for two newlines,
but they are written behind the NUL that ends the line.  So a line that lacks its
`;` is not found faulty.  The result has one entry for each newline of the text and
one is written for each line that is not empty, so a text without empty lines makes
it write behind the array.
-/

namespace Libhelp

open CString

def lines (text : Bytes) : List Bytes :=
  text.splitOn Ascii.newline

/-- The pieces that `strtok(str, "\n")` delivers. -/
def strtokPieces (str : Bytes) : List Bytes :=
  (lines str).filter (· ≠ [])

/-- What `config_test` returns, and `*size` where it is written. -/
structure TestResult where
  size : Option ℕ
  strErr : Option (List ℕ)
  deriving DecidableEq

/-- The `strtok` loop of `config_test`, with `fuel` steps for each load.  `alloc i` answers
the requests for the `i`-th piece.  Writing behind `str_err` is not given a meaning. -/
def configTestLoop (alloc : ℕ → ℕ → Bool) (fuel : ℕ) :
    List Bytes → ℕ → Config → List ℕ → Option (Option (List ℕ))
  | [], _, _, strErr => some (some strErr)
  | istr :: rest, i, config, strErr =>
      if alloc i 0 = false then
        some none
      else
        let tmb := istr ++ [nul, Ascii.newline, Ascii.newline]
        match configLoad2 (fun n => alloc i (n + 1)) config tmb fuel with
        | none => none
        | some result =>
            if i < strErr.length then
              configTestLoop alloc fuel rest (i + 1) result.config
                (strErr.set i result.config.lineError)
            else
              none

/-- `config_test`.  `alloc 0` answers its own three requests for memory. -/
def configTest (alloc : ℕ → ℕ → Bool) (str : Bytes) (fuel : ℕ) : Option TestResult :=
  if alloc 0 0 = false ∨ alloc 0 1 = false then
    some ⟨none, none⟩
  else
    let strCount := str.count Ascii.newline
    if strCount = 0 then
      some ⟨some 0, none⟩
    else if alloc 0 2 = false then
      some ⟨some strCount, none⟩
    else
      (configTestLoop (fun i => alloc (i + 1)) fuel (strtokPieces str) 0 Config.new
        (List.replicate strCount 0)).map fun strErr => ⟨some strCount, strErr⟩

/-- The `strtok` loop loads pieces one after the other, from an index and a configuration on,
and these are the error lines it finds. -/
inductive Tested (alloc : ℕ → ℕ → Bool) : List Bytes → ℕ → Config → List ℕ → Prop where
  | nil {i : ℕ} {config : Config} : Tested alloc [] i config []
  | cons {istr : Bytes} {rest : List Bytes} {i : ℕ} {config : Config} {result : LoadResult}
      {entries : List ℕ} (tmb : alloc i 0 = true)
      (loads : Loads (fun n => alloc i (n + 1)) config
        (istr ++ [nul, Ascii.newline, Ascii.newline]) result)
      (tail : Tested alloc rest (i + 1) result.config entries) :
      Tested alloc (istr :: rest) i config (result.config.lineError :: entries)

/-- `config_test` returns an array with an error in it. -/
def Reports (str : Bytes) : Prop :=
  ∃ fuel size strErr, configTest (fun _ => ample) str fuel = some ⟨some size, some strErr⟩ ∧
    ∃ line ∈ strErr, line ≠ 0

def Rejects (str : Bytes) : Prop :=
  ∃ result, Loads ample Config.new str result ∧ result.ret = ERROR

section Lines

/-- Texts are built from their last line by putting lines before them. -/
theorem lines_induction {P : Bytes → Prop} (last : ∀ text, Ascii.newline ∉ text → P text)
    (more : ∀ line rest, Ascii.newline ∉ line → P rest → P (line ++ Ascii.newline :: rest))
    (text : Bytes) : P text := by
  induction size : text.length using Nat.strongRecOn generalizing text with
  | ind bound ih =>
      by_cases several : Ascii.newline ∈ text
      · rcases List.eq_append_cons_of_mem several with ⟨line, rest, rfl, single⟩
        refine more line rest single (ih rest.length ?_ rest rfl)
        simp only [List.length_append, List.length_cons] at size
        omega
      · exact last text several

theorem lines_of_not_mem {text : Bytes} (single : Ascii.newline ∉ text) : lines text = [text] :=
  List.splitOn_eq_singleton single

theorem lines_cons {line : Bytes} (single : Ascii.newline ∉ line) (rest : Bytes) :
    lines (line ++ Ascii.newline :: rest) = line :: lines rest :=
  List.splitOn_append_cons_self_of_not_mem single rest

theorem length_lines (text : Bytes) : (lines text).length = text.count Ascii.newline + 1 := by
  induction text using lines_induction with
  | last text single => simp [lines_of_not_mem single, List.count_eq_zero.mpr single]
  | more line rest single ih =>
      rw [lines_cons single, List.length_cons, ih, List.count_append, List.count_cons_self,
        List.count_eq_zero.mpr single]
      omega

theorem nulFree_of_mem_lines {text line : Bytes} (free : NulFree text) (mem : line ∈ lines text) :
    NulFree line := by
  induction text using lines_induction with
  | last text single =>
      rw [lines_of_not_mem single, List.mem_singleton] at mem
      rwa [mem]
  | more first rest single ih =>
      rw [nulFree_append, nulFree_cons] at free
      rw [lines_cons single] at mem
      rcases List.mem_cons.mp mem with rfl | mem
      · exact free.1
      · exact ih free.2.2 mem

/-- There are no more pieces than newlines exactly when some line is empty. -/
theorem length_strtokPieces_le_iff {text : Bytes} :
    (strtokPieces text).length ≤ text.count Ascii.newline ↔ [] ∈ lines text := by
  rw [← Nat.lt_succ_iff, Nat.succ_eq_add_one, ← length_lines, strtokPieces,
    List.length_filter_lt_length_iff_exists]
  simp

theorem flatMap_strtokPieces (text : Bytes) :
    (strtokPieces text).flatMap stmts = (lines text).flatMap stmts := by
  rw [strtokPieces]
  induction lines text with
  | nil => rfl
  | cons line rest ih =>
      rw [List.filter_cons, List.flatMap_cons]
      split
      · rw [List.flatMap_cons, ih]
      · rename_i dropped
        have empty : line = [] := by simpa using dropped
        rw [ih, empty]
        rfl

end Lines

section Whole

theorem stmts_prefix_lines (text : Bytes) : stmts text <+: (lines text).flatMap stmts := by
  induction text using lines_induction with
  | last text single => simp [lines_of_not_mem single]
  | more line rest single ih =>
      rw [lines_cons single, List.flatMap_cons, stmts, Scan.emits_append, Scan.emits_cons,
        Mode.emit_newline, List.nil_append]
      refine (List.prefix_append_right_inj _).mpr ?_
      rcases (Scan.initial.feed line).next_newline with ⟨_, number, back⟩ | ⟨fault, number, failed⟩
      · rw [back, Scan.emits_line .space number 1]
        exact ih
      · simp [failed]

theorem isFailed_of_line {text line : Bytes} (mem : line ∈ lines text)
    (lineFailed : (scan line).mode.isFailed) : (scan text).mode.isFailed := by
  induction text using lines_induction with
  | last text single =>
      rw [lines_of_not_mem single, List.mem_singleton] at mem
      rwa [← mem]
  | more first rest single ih =>
      rw [lines_cons single] at mem
      rw [scan, Scan.feed_append, Scan.feed_cons]
      rcases (Scan.initial.feed first).next_newline with ⟨accepted, number, back⟩ |
        ⟨fault, number, failed⟩
      · rcases List.mem_cons.mp mem with rfl | later
        · rw [scan, accepted] at lineFailed
          simp at lineFailed
        · rw [back, Scan.mode_feed_line .space number 1]
          exact ih later
      · rw [failed, Scan.feed_failed]
        rfl

end Whole

section Loop

/-- The entry of `str_err` for a piece: the line of its fault, which is its first. -/
def pieceError (piece : Bytes) : ℕ :=
  if (scan piece).mode.isFailed then (scan piece).line else 0

theorem pieceError_ne_zero_iff {piece : Bytes} :
    pieceError piece ≠ 0 ↔ (scan piece).mode.isFailed := by
  have positive : 1 ≤ (scan piece).line := Scan.le_feed_line Scan.initial piece
  unfold pieceError
  split
  · simp [‹(scan piece).mode.isFailed›]
    omega
  · simp [‹¬(scan piece).mode.isFailed›]

/-- A loader sees no further than the NUL that ends its text. -/
theorem configLoad2_append_nul {alloc : ℕ → Bool} {config : Config} {text : Bytes}
    (free : NulFree text) (rest : Bytes) (fuel : ℕ) :
    configLoad2 alloc config (text ++ nul :: rest) fuel = configLoad2 alloc config text fuel := by
  simp [configLoad2, configLoad2Start, strlen, cstr_append_nul free, cstr_of_nulFree free]

theorem piece_iff {config : Config} {piece : Bytes} (free : NulFree piece) {result : LoadResult} :
    Loads ample config (piece ++ [nul, Ascii.newline, Ascii.newline]) result ↔
      ∃ data, Exec config.data (stmts piece) data ∧
        result = (scan piece).result (config.begin piece) data := by
  simp only [Loads, configLoad2_append_nul free]
  exact loads_iff free

theorem configTestLoop_add {alloc : ℕ → ℕ → Bool} {fuel : ℕ} {pieces : List Bytes} {i : ℕ}
    {config : Config} {strErr : List ℕ} {out : Option (List ℕ)}
    (returned : configTestLoop alloc fuel pieces i config strErr = some out) (extra : ℕ) :
    configTestLoop alloc (fuel + extra) pieces i config strErr = some out := by
  induction pieces generalizing i config strErr with
  | nil => exact returned
  | cons piece rest ih =>
      simp only [configTestLoop] at returned ⊢
      split at returned
      · rwa [if_pos ‹_›]
      · rw [if_neg ‹_›]
        cases loaded : configLoad2 (fun n => alloc i (n + 1)) config
            (piece ++ [nul, Ascii.newline, Ascii.newline]) fuel with
        | none => simp [loaded] at returned
        | some result =>
            have longer := StepProgram.run_add loaded extra
            rw [← configLoad2] at longer
            simp only [loaded] at returned
            simp only [longer]
            split at returned
            · rw [if_pos ‹_›]
              exact ih returned
            · simp at returned

theorem configTestLoop_cons_iff {alloc : ℕ → ℕ → Bool} {piece : Bytes} {rest : List Bytes}
    {i : ℕ} {config : Config} {strErr out : List ℕ} :
    (∃ fuel, configTestLoop alloc fuel (piece :: rest) i config strErr = some (some out)) ↔
      alloc i 0 = true ∧ ∃ result, Loads (fun n => alloc i (n + 1)) config
          (piece ++ [nul, Ascii.newline, Ascii.newline]) result ∧ i < strErr.length ∧
        ∃ fuel, configTestLoop alloc fuel rest (i + 1) result.config
          (strErr.set i result.config.lineError) = some (some out) := by
  have unfolded : ∀ fuel, configTestLoop alloc fuel (piece :: rest) i config strErr =
      if alloc i 0 = false then some none
      else
        match configLoad2 (fun n => alloc i (n + 1)) config
            (piece ++ [nul, Ascii.newline, Ascii.newline]) fuel with
        | none => none
        | some result =>
            if i < strErr.length then
              configTestLoop alloc fuel rest (i + 1) result.config
                (strErr.set i result.config.lineError)
            else
              none := fun _ => rfl
  constructor
  · rintro ⟨fuel, returned⟩
    rw [unfolded] at returned
    by_cases refused : alloc i 0 = false
    · simp [refused] at returned
    · rw [if_neg refused] at returned
      cases loaded : configLoad2 (fun n => alloc i (n + 1)) config
          (piece ++ [nul, Ascii.newline, Ascii.newline]) fuel with
      | none => simp [loaded] at returned
      | some result =>
          simp only [loaded] at returned
          by_cases inside : i < strErr.length
          · rw [if_pos inside] at returned
            exact ⟨by simpa using refused, result, ⟨fuel, loaded⟩, inside, fuel, returned⟩
          · simp [inside] at returned
  · rintro ⟨tmb, result, ⟨loadFuel, loaded⟩, inside, ⟨restFuel, returned⟩⟩
    have loadLonger := StepProgram.run_add loaded restFuel
    have restLonger := configTestLoop_add returned loadFuel
    rw [← configLoad2] at loadLonger
    rw [Nat.add_comm] at restLonger
    refine ⟨loadFuel + restFuel, ?_⟩
    rw [unfolded, if_neg (by simp [tmb]), loadLonger]
    simp only [if_pos inside, restLonger]

theorem take_succ_set {values : List ℕ} {i value : ℕ} (inside : i < values.length) :
    (values.set i value).take (i + 1) = values.take i ++ [value] := by
  rw [List.take_add_one, List.getElem?_set_self inside, List.take_set_of_le le_rfl]
  rfl

theorem Tested.length_eq {alloc : ℕ → ℕ → Bool} {pieces : List Bytes} {i : ℕ} {config : Config}
    {entries : List ℕ} (tested : Tested alloc pieces i config entries) :
    entries.length = pieces.length := by
  induction tested with
  | nil => rfl
  | cons _ _ _ ih => rw [List.length_cons, List.length_cons, ih]

/-- The loop ends with an array exactly when it stays in the array and all pieces can be
loaded, and it has then written one entry for each piece. -/
theorem configTestLoop_iff {alloc : ℕ → ℕ → Bool} {pieces : List Bytes} {i : ℕ}
    {config : Config} {strErr out : List ℕ} (inside : i ≤ strErr.length) :
    (∃ fuel, configTestLoop alloc fuel pieces i config strErr = some (some out)) ↔
      i + pieces.length ≤ strErr.length ∧ ∃ entries, Tested alloc pieces i config entries ∧
        out = strErr.take i ++ (entries ++ strErr.drop (i + pieces.length)) := by
  induction pieces generalizing i config strErr with
  | nil =>
      constructor
      · rintro ⟨fuel, returned⟩
        exact ⟨inside, [], .nil, by simpa [configTestLoop, eq_comm] using returned⟩
      · rintro ⟨_, _, tested, rfl⟩
        cases tested
        exact ⟨0, by simp [configTestLoop]⟩
  | cons piece rest ih =>
      -- What the rest of the loop leaves of the array in which this piece has been recorded.
      have recorded : ∀ entry entries, i < strErr.length →
          (strErr.set i entry).take (i + 1) ++ (entries ++
            (strErr.set i entry).drop (i + 1 + rest.length)) =
          strErr.take i ++ (entry :: entries ++ strErr.drop (i + (rest.length + 1))) := by
        intro entry entries bound
        have offset : i + 1 + rest.length = i + (rest.length + 1) := by omega
        rw [take_succ_set bound, List.drop_set_of_lt (by omega), offset]
        simp
      rw [configTestLoop_cons_iff, List.length_cons]
      constructor
      · rintro ⟨tmb, result, loads, bound, returned⟩
        rw [ih (by simpa using Nat.succ_le_of_lt bound)] at returned
        rcases returned with ⟨fits, entries, tested, rfl⟩
        rw [List.length_set] at fits
        exact ⟨by omega, _, .cons tmb loads tested, recorded _ _ bound⟩
      · rintro ⟨fits, _, tested, rfl⟩
        have bound : i < strErr.length := by omega
        cases tested with
        | @cons _ _ _ _ result entries tmb loads tail =>
            refine ⟨tmb, result, loads, bound, ?_⟩
            rw [ih (by simpa using Nat.succ_le_of_lt bound), List.length_set]
            exact ⟨by omega, entries, tail, (recorded _ _ bound).symm⟩

/-- With enough memory all pieces can be loaded when all copies end, and the entries are the
errors that the pieces have by themselves. -/
theorem tested_ample_iff {pieces : List Bytes} (free : ∀ piece ∈ pieces, NulFree piece) {i : ℕ}
    {config : Config} {entries : List ℕ} :
    Tested (fun _ => ample) pieces i config entries ↔
      (∃ data, Exec config.data (pieces.flatMap stmts) data) ∧
        entries = pieces.map pieceError := by
  induction pieces generalizing i config entries with
  | nil =>
      constructor
      · intro tested
        cases tested
        exact ⟨⟨_, .nil⟩, rfl⟩
      · rintro ⟨_, rfl⟩
        exact .nil
  | cons piece rest ih =>
      have pieceFree := free piece List.mem_cons_self
      have ih := @ih fun other mem => free other (List.mem_cons_of_mem _ mem)
      -- The entry of this piece is its own error.
      have ownError : ∀ data,
          ((scan piece).result (config.begin piece) data).config.lineError = pieceError piece :=
        fun _ => Scan.result_lineError
      rw [List.flatMap_cons, List.map_cons]
      simp only [exec_append_iff]
      constructor
      · intro tested
        cases tested with
        | cons _ loads tail =>
            rcases (piece_iff pieceFree).mp loads with ⟨data, exec, rfl⟩
            rcases ih.mp tail with ⟨⟨last, restExec⟩, rfl⟩
            rw [Scan.result_data] at restExec
            exact ⟨⟨last, data, exec, restExec⟩, by rw [ownError]⟩
      · rintro ⟨⟨last, data, exec, restExec⟩, rfl⟩
        rw [← ownError data]
        exact .cons rfl ((piece_iff pieceFree).mpr ⟨data, exec, rfl⟩)
          (ih.mpr ⟨⟨last, by rwa [Scan.result_data]⟩, rfl⟩)

end Loop

section Agreement

theorem rejects_iff {text : Bytes} (free : NulFree text) :
    Rejects text ↔ SyntaxError text ∧ ∃ data, Exec ∅ (stmts text) data := by
  rw [syntaxError_iff]
  exact rejectedFrom_iff free

theorem mem_strtokPieces {text piece : Bytes} :
    piece ∈ strtokPieces text ↔ piece ∈ lines text ∧ piece ≠ [] := by
  simp [strtokPieces]

/-- A piece with an entry in `str_err` is a line that is faulty by itself. -/
theorem exists_pieceError_iff {text : Bytes} :
    (∃ piece ∈ strtokPieces text, pieceError piece ≠ 0) ↔
      ∃ line ∈ lines text, SyntaxError line := by
  simp only [pieceError_ne_zero_iff, syntaxError_iff]
  constructor
  · rintro ⟨piece, mem, failed⟩
    exact ⟨piece, (mem_strtokPieces.mp mem).1, failed⟩
  · rintro ⟨line, mem, failed⟩
    refine ⟨line, mem_strtokPieces.mpr ⟨mem, ?_⟩, failed⟩
    rintro rfl
    simp [scan, Scan.initial, Mode.isFailed] at failed

/-- `config_test` returns an array exactly when its requests are granted, the pieces fit and
can all be loaded; the entries behind those of the pieces are zero. -/
theorem configTest_array_iff {alloc : ℕ → ℕ → Bool} {text : Bytes} {size : ℕ} {strErr : List ℕ} :
    (∃ fuel, configTest alloc text fuel = some ⟨some size, some strErr⟩) ↔
      (alloc 0 0 = true ∧ alloc 0 1 = true ∧ alloc 0 2 = true) ∧
        size = text.count Ascii.newline ∧ size ≠ 0 ∧ (strtokPieces text).length ≤ size ∧
        ∃ entries, Tested (fun i => alloc (i + 1)) (strtokPieces text) 0 Config.new entries ∧
          strErr = entries ++ List.replicate (size - (strtokPieces text).length) 0 := by
  have loop : ∀ count, (∃ fuel, configTestLoop (fun i => alloc (i + 1)) fuel (strtokPieces text) 0
      Config.new (List.replicate count 0) = some (some strErr)) ↔ _ :=
    fun _ => configTestLoop_iff (Nat.zero_le _)
  simp only [List.length_replicate, Nat.zero_add, List.take_zero, List.nil_append,
    List.drop_replicate] at loop
  constructor
  · rintro ⟨fuel, returned⟩
    unfold configTest at returned
    dsimp only at returned
    split_ifs at returned with first none third
    · simp at returned
    · simp at returned
    · simp at returned
    · rw [Option.map_eq_some_iff] at returned
      rcases returned with ⟨out, returned, same⟩
      rcases TestResult.mk.inj same with ⟨sameSize, rfl⟩
      rcases Option.some.inj sameSize with rfl
      rcases (loop _).mp ⟨fuel, returned⟩ with ⟨fits, entries, tested, split⟩
      simp only [not_or, Bool.not_eq_false] at first third
      exact ⟨⟨first.1, first.2, third⟩, rfl, none, fits, entries, tested, split⟩
  · rintro ⟨⟨first, second, third⟩, rfl, several, fits, entries, tested, split⟩
    rcases (loop _).mpr ⟨fits, entries, tested, split⟩ with ⟨fuel, returned⟩
    refine ⟨fuel, ?_⟩
    simp [configTest, first, second, third, several, returned]

/-- `config_test` reports an error exactly when it stays in its array, some line is faulty by
itself, and all copies of the lines end. -/
theorem reports_iff {text : Bytes} (free : NulFree text) :
    Reports text ↔ [] ∈ lines text ∧ (∃ line ∈ lines text, SyntaxError line) ∧
      ∃ data, Exec ∅ ((lines text).flatMap stmts) data := by
  have pieceFree : ∀ piece ∈ strtokPieces text, NulFree piece := fun piece mem =>
    nulFree_of_mem_lines free (mem_strtokPieces.mp mem).1
  rw [← length_strtokPieces_le_iff, ← exists_pieceError_iff, ← flatMap_strtokPieces]
  constructor
  · rintro ⟨fuel, size, strErr, returned, line, mem, nonzero⟩
    rcases configTest_array_iff.mp ⟨fuel, returned⟩ with
      ⟨_, rfl, _, fits, entries, tested, rfl⟩
    rcases (tested_ample_iff pieceFree).mp tested with ⟨exec, rfl⟩
    refine ⟨fits, ?_, exec⟩
    rcases List.mem_append.mp mem with written | initial
    · rcases List.mem_map.mp written with ⟨piece, piece_mem, rfl⟩
      exact ⟨piece, piece_mem, nonzero⟩
    · exact absurd (List.eq_of_mem_replicate initial) nonzero
  · rintro ⟨fits, ⟨piece, mem, nonzero⟩, exec⟩
    have several : text.count Ascii.newline ≠ 0 := by
      have := List.length_pos_of_mem mem
      omega
    have tested : Tested (fun _ => ample) (strtokPieces text) 0 Config.new _ :=
      (tested_ample_iff pieceFree).mpr ⟨exec, rfl⟩
    rcases (@configTest_array_iff fun _ => ample).mpr
      ⟨⟨rfl, rfl, rfl⟩, rfl, several, fits, _, tested, rfl⟩ with ⟨fuel, returned⟩
    exact ⟨fuel, _, _, returned, pieceError piece,
      List.mem_append_left _ (List.mem_map_of_mem mem), nonzero⟩

/-- `config_test` agrees with the loader exactly on texts without syntax errors, on texts
whose copies before the error do not all end, and on texts in which some line is empty, some
line is faulty by itself, and all copies end. -/
theorem reports_iff_rejects {text : Bytes} (free : NulFree text) :
    (Reports text ↔ Rejects text) ↔
      ¬SyntaxError text ∨ (¬∃ data, Exec ∅ (stmts text) data) ∨
        ([] ∈ lines text ∧ (∃ line ∈ lines text, SyntaxError line) ∧
          ∃ data, Exec ∅ ((lines text).flatMap stmts) data) := by
  have rejects_of_reports : Reports text → Rejects text := by
    rw [reports_iff free, rejects_iff free]
    rintro ⟨_, ⟨line, mem, faulty⟩, data, exec⟩
    refine ⟨syntaxError_iff.mpr (isFailed_of_line mem (syntaxError_iff.mp faulty)), ?_⟩
    rcases stmts_prefix_lines text with ⟨rest, split⟩
    rw [← split, exec_append_iff] at exec
    rcases exec with ⟨middle, first, _⟩
    exact ⟨middle, first⟩
  rw [← reports_iff free]
  have := rejects_iff free
  tauto

/-- A line with a byte that begins nothing is faulty for both. -/
theorem reports_iff_rejects_symbol : Reports [61, 10] ↔ Rejects [61, 10] :=
  (reports_iff_rejects (by decide)).mpr (.inr (.inr
    ⟨by decide, ⟨[61], by decide, syntaxError_iff.mpr rfl⟩, ∅, .nil⟩))

/-- The line `a b` lacks its `;`, which only the loader sees. -/
theorem unterminated_line_unreported :
    Rejects [97, 32, 98, 10] ∧ ¬Reports [97, 32, 98, 10] ∧
      ¬(Reports [97, 32, 98, 10] ↔ Rejects [97, 32, 98, 10]) := by
  have rejects : Rejects [97, 32, 98, 10] :=
    ⟨⟨ERROR, ⟨∅, 1, some [97, 32, 98, 10]⟩, some (.unexpectedEndOfLine 1)⟩, ⟨20, rfl⟩, rfl⟩
  have unreported : ¬Reports [97, 32, 98, 10] := by
    rw [reports_iff (by decide)]
    rintro ⟨_, ⟨line, mem, faulty⟩, _⟩
    have split : lines [97, 32, 98, 10] = [[97, 32, 98], []] := by decide
    rw [split] at mem
    rw [syntaxError_iff] at faulty
    simp only [List.mem_cons, List.not_mem_nil, or_false] at mem
    rcases mem with rfl | rfl
    · exact absurd faulty (by decide)
    · exact absurd faulty (by decide)
  exact ⟨rejects, unreported, fun agree => unreported (agree.mpr rejects)⟩

end Agreement

end Libhelp

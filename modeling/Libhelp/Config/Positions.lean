import Libhelp.Config.Check
import Libhelp.Config.CopyStatement
import Libhelp.Config.Memory
import Libhelp.Lib.Search

/-!
# The entries of the check

The entries that `config_test` writes are counted by the pieces of `strtok`, which
skips empty lines, while its array has one entry for each newline.  So the entries
stay in the array exactly when some line is empty, and then the entry of a line
stands as many places before the place of the line as there are empty lines above it.
-/

namespace Libhelp

open CString

/-- `config_test` writes an entry of its array: it gets as far as loading the piece of that
number. -/
def WritesEntry (alloc : ℕ → ℕ → Bool) (text : Bytes) (j : ℕ) : Prop :=
  (alloc 0 0 = true ∧ alloc 0 1 = true ∧ alloc 0 2 = true) ∧ text.count Ascii.newline ≠ 0 ∧
    ∃ front piece back entries, strtokPieces text = front ++ piece :: back ∧ front.length = j ∧
      Tested (fun i => alloc (i + 1)) (front ++ [piece]) 0 Config.new entries

/-- However memory is given, `config_test` writes only inside its array, which has one entry
for each newline of the text. -/
def StaysInArray (text : Bytes) : Prop :=
  ∀ alloc j, WritesEntry alloc text j → j < text.count Ascii.newline

/-- The line with an index, counted from zero, is one that `config_load2` rejects. -/
def LineRejected (text : Bytes) (i : ℕ) : Prop :=
  ∃ line, (lines text)[i]? = some line ∧ Rejects line

/-- However memory is given, an entry of the array of `config_test` that is not zero stands at
the index of a line that `config_load2` rejects. -/
def EntriesPlaced (text : Bytes) : Prop :=
  ∀ alloc fuel size strErr, configTest alloc text fuel = some ⟨some size, some strErr⟩ →
    ∀ i, i < size → strErr.getD i 0 ≠ 0 → LineRejected text i

/-- The line with an index is faulty by itself, and its copies end. -/
def LineFaulty (text : Bytes) (i : ℕ) : Prop :=
  ∃ line, (lines text)[i]? = some line ∧ SyntaxError line ∧ ∃ data, Exec ∅ (stmts line) data

section Pieces

variable {text : Bytes}

theorem length_filter_nonempty (pieces : List Bytes) :
    (pieces.filter (· ≠ [])).length = pieces.length - pieces.count [] := by
  induction pieces with
  | nil => rfl
  | cons piece rest ih =>
      have bound := List.count_le_length (a := ([] : Bytes)) (l := rest)
      cases piece with
      | nil => simpa using ih
      | cons c piece =>
          simp only [ne_eq, reduceCtorEq, not_false_eq_true, decide_true,
            List.filter_cons_of_pos, List.length_cons]
          rw [List.count_cons_of_ne (by simp)]
          simp only [ne_eq] at ih
          omega

theorem exists_split_of_lt {pieces : List Bytes} {j : ℕ} (inside : j < pieces.length) :
    ∃ front piece back, pieces = front ++ piece :: back ∧ front.length = j := by
  refine ⟨pieces.take j, pieces[j], pieces.drop (j + 1), ?_, List.length_take_of_le inside.le⟩
  rw [List.getElem_cons_drop, List.take_append_drop]

theorem exists_piece_of_line {i : ℕ} {line : Bytes} (found : (lines text)[i]? = some line)
    (nonempty : line ≠ []) :
    ∃ front back, strtokPieces text = front ++ line :: back ∧
      front.length = i - ((lines text).take i).count [] := by
  rcases List.getElem?_eq_some_iff.mp found with ⟨inside, _⟩
  rcases exists_split_of_lt inside with ⟨before, other, after, split, place⟩
  have same : other = line := by simpa [split, ← place] using found
  subst same
  refine ⟨before.filter (· ≠ []), after.filter (· ≠ []), ?_, ?_⟩
  · rw [strtokPieces, split]
    exact Search.filter_split (by simpa using nonempty)
  · rw [length_filter_nonempty, split, ← place, List.take_left]

theorem exists_line_of_piece {j : ℕ} {piece : Bytes}
    (found : (strtokPieces text)[j]? = some piece) :
    ∃ i, (lines text)[i]? = some piece ∧ j = i - ((lines text).take i).count [] := by
  rcases Search.exists_split_of_filter found with ⟨before, after, split, _, place⟩
  refine ⟨before.length, by simp [split], ?_⟩
  rw [split, List.take_left, ← place, length_filter_nonempty]

end Pieces

/-- Memory for `config_test` itself and for all pieces, but for the load of one piece only. -/
def memoryForLoad (j i n : ℕ) : Bool :=
  i = 0 ∨ i = j + 1 ∨ n = 0

theorem memoryForLoad_refuses {j k : ℕ} (other : k ≠ j) :
    memoryForLoad j (k + 1) 0 = true ∧ memoryForLoad j (k + 1) 1 = false := by
  simp [memoryForLoad, other]

section Runs

variable {alloc : ℕ → ℕ → Bool} {front rest : List Bytes} {i : ℕ} {config : Config}
  {entries : List ℕ}

theorem Loads.refused {alloc : ℕ → Bool} (refuses : alloc 0 = false) (config : Config)
    (text : Bytes) :
    Loads alloc config text
      ⟨ERROR, { config with lineError := 0, conf := none }, some .cantMalloc⟩ :=
  ⟨0, by simp [configLoad2, configLoad2Start, refuses]⟩

theorem tested_refused_append
    (refused : ∀ k, i ≤ k → k < i + front.length → alloc k 0 = true ∧ alloc k 1 = false)
    (tail : ∀ config' : Config, config'.data = config.data →
      Tested alloc rest (i + front.length) config' entries) :
    Tested alloc (front ++ rest) i config (List.replicate front.length 0 ++ entries) := by
  induction front generalizing i config with
  | nil => exact tail config rfl
  | cons piece front ih =>
      have here := refused i le_rfl (by simp)
      have later := @ih (i + 1) { config with lineError := 0, conf := none } ?_ ?_
      · exact .cons here.1 (Loads.refused here.2 config _) later
      · intro k lower upper
        exact refused k (by omega) (by rw [List.length_cons]; omega)
      · intro config' same
        have place : i + 1 + front.length = i + (piece :: front).length := by
          rw [List.length_cons]
          omega
        rw [place]
        exact tail config' same

theorem Tested.rejects {pieces : List Bytes} (tested : Tested alloc pieces i config entries)
    (free : ∀ piece ∈ pieces, NulFree piece) {j : ℕ} (nonzero : entries.getD j 0 ≠ 0) :
    ∃ piece, pieces[j]? = some piece ∧ Rejects piece := by
  induction tested generalizing j with
  | nil => simp at nonzero
  | @cons piece rest i config result entries tmb loads tail ih =>
      cases j with
      | zero =>
          refine ⟨piece, rfl, ?_⟩
          have pieceFree := free piece List.mem_cons_self
          have line : result.config.lineError ≠ 0 := by simpa using nonzero
          rcases (piece_iff pieceFree).mp (loads_ample_of_lineError loads line) with
            ⟨data, exec, rfl⟩
          have failed : (scan piece).mode.isFailed := by
            by_contra accepted
            rw [Scan.result_lineError, if_neg accepted] at line
            exact line rfl
          have noKeys : ∀ key ∈ (∅ : Store), key ∈ config.data := by
            rintro key ⟨_, mem⟩
            cases mem
          rcases exec.of_subset noKeys (by decide) with ⟨alone, execAlone⟩
          exact (rejects_iff pieceFree).mpr ⟨syntaxError_iff.mpr failed, alone, execAlone⟩
      | succ j =>
          have inRest : entries.getD j 0 ≠ 0 := by simpa using nonzero
          exact ih (fun other mem => free other (List.mem_cons_of_mem _ mem)) inRest

end Runs

/-- With memory for the load of one piece only, the entry of that piece is its own error. -/
theorem tested_memoryForLoad {front back : List Bytes} {piece : Bytes} (free : NulFree piece)
    {data : Store} (exec : Exec ∅ (stmts piece) data) :
    Tested (fun i => memoryForLoad front.length (i + 1)) (front ++ piece :: back) 0 Config.new
      (List.replicate front.length 0 ++ pieceError piece :: List.replicate back.length 0) := by
  apply tested_refused_append
  · intro k _ upper
    apply memoryForLoad_refuses
    omega
  · intro config same
    have granted : (fun n => memoryForLoad front.length (0 + front.length + 1) (n + 1)) =
        ample := by
      funext n
      simp [memoryForLoad, ample]
    have error : ((scan piece).result (config.begin piece) data).config.lineError =
        pieceError piece := Scan.result_lineError
    rw [← error]
    refine .cons (by simp [memoryForLoad]) ?_ ?_
    · rw [granted, piece_iff free]
      exact ⟨data, same ▸ exec, rfl⟩
    · have rest := @tested_refused_append (fun i => memoryForLoad front.length (i + 1)) back []
        (0 + front.length + 1) ((scan piece).result (config.begin piece) data).config [] ?_
        (fun _ _ => .nil)
      · simpa using rest
      · intro k lower _
        apply memoryForLoad_refuses
        omega

section Array

variable {text : Bytes}

/-- Every entry that `config_test` writes on the way to its array lies in the array. -/
theorem WritesEntry.lt_of_returned {alloc : ℕ → ℕ → Bool} {fuel size j : ℕ} {strErr : List ℕ}
    (returned : configTest alloc text fuel = some ⟨some size, some strErr⟩)
    (writes : WritesEntry alloc text j) : j < strErr.length := by
  rcases configTest_array_iff.mp ⟨fuel, returned⟩ with ⟨_, _, _, fits, entries, tested, rfl⟩
  rcases writes with ⟨_, _, front, piece, back, _, split, rfl, _⟩
  have length := congrArg List.length split
  rw [List.length_append, List.length_replicate, tested.length_eq]
  simp only [List.length_append, List.length_cons] at length
  omega

/-- `config_test` never writes outside its array exactly when some line is empty: at the end
of the text, or where two newlines follow each other, or at its beginning. -/
theorem staysInArray_iff (several : Ascii.newline ∈ text) :
    StaysInArray text ↔ [] ∈ lines text := by
  rw [← length_strtokPieces_le_iff]
  constructor
  · intro stays
    by_contra longer
    rw [not_le] at longer
    -- When every load is refused its memory, all pieces are visited.
    rcases exists_split_of_lt longer with ⟨front, piece, back, split, place⟩
    have tested := @tested_refused_append (fun i => memoryForLoad (text.count Ascii.newline + 1)
      (i + 1)) (front ++ [piece]) [] 0 Config.new [] ?_ (fun _ _ => .nil)
    · rw [List.append_nil] at tested
      have count : text.count Ascii.newline ≠ 0 := by
        rwa [Ne, List.count_eq_zero, not_not]
      exact lt_irrefl _ (stays _ _
        ⟨⟨rfl, rfl, rfl⟩, count, front, piece, back, _, split, place, tested⟩)
    · intro k _ upper
      apply memoryForLoad_refuses
      rw [List.length_append, place, List.length_singleton] at upper
      omega
  · rintro short alloc j ⟨_, _, front, piece, back, _, split, rfl, _⟩
    have length := congrArg List.length split
    simp only [List.length_append, List.length_cons] at length
    omega

theorem staysInArray_iff_ended : StaysInArray [97, 32, 49, 59, 10] :=
  (staysInArray_iff (by decide)).mpr (by decide)

/-- The text `a 1;\nb 2;` has one newline, and `config_test` writes two entries. -/
theorem writes_behind_array :
    WritesEntry (fun _ => ample) [97, 32, 49, 59, 10, 98, 32, 50, 59] 1 ∧
      ¬StaysInArray [97, 32, 49, 59, 10, 98, 32, 50, 59] := by
  have writes : WritesEntry (fun _ => ample) [97, 32, 49, 59, 10, 98, 32, 50, 59] 1 :=
    ⟨⟨rfl, rfl, rfl⟩, by decide, [[97, 32, 49, 59]], [98, 32, 50, 59], [], _, by decide, rfl,
      .cons rfl ⟨20, rfl⟩ (.cons rfl ⟨20, rfl⟩ .nil)⟩
  exact ⟨writes, fun stays => absurd (stays _ 1 writes) (by decide)⟩

/-- The entries of `config_test` stand at the indices of rejected lines exactly when it returns
no array, since no line is empty, or when each faulty line has, as many lines above it as there
are empty lines above it, again a faulty line. -/
theorem entriesPlaced_iff (free : NulFree text) :
    EntriesPlaced text ↔ [] ∉ lines text ∨
      ∀ i, LineFaulty text i → LineFaulty text (i - ((lines text).take i).count []) := by
  have pieceFree : ∀ piece ∈ strtokPieces text, NulFree piece := fun piece mem =>
    nulFree_of_mem_lines free (mem_strtokPieces.mp mem).1
  constructor
  · intro placed
    by_cases short : [] ∈ lines text
    · right
      rintro i ⟨line, found, faulty, data, exec⟩
      have failed := syntaxError_iff.mp faulty
      have nonempty : line ≠ [] := by
        rintro rfl
        simp [scan, Scan.initial, Mode.isFailed] at failed
      have lineFree := nulFree_of_mem_lines free (List.mem_of_getElem? found)
      rcases exists_piece_of_line found nonempty with ⟨front, back, split, place⟩
      have fits := length_strtokPieces_le_iff.mpr short
      have length := congrArg List.length split
      rw [List.length_append, List.length_cons] at length
      have tested := @tested_memoryForLoad front back line lineFree data exec
      rw [← split] at tested
      rcases (@configTest_array_iff (memoryForLoad front.length)).mpr
        ⟨⟨rfl, rfl, rfl⟩, rfl, by omega, fits, _, tested, rfl⟩ with ⟨fuel, returned⟩
      have entry := placed _ fuel _ _ returned front.length (by omega) (by
        simpa using pieceError_ne_zero_iff.mpr failed)
      rw [place] at entry
      rcases entry with ⟨other, found', rejects⟩
      have otherFree := nulFree_of_mem_lines free (List.mem_of_getElem? found')
      exact ⟨other, found', (rejects_iff otherFree).mp rejects⟩
    · exact .inl short
  · rintro shifted alloc fuel size strErr returned i inside nonzero
    rcases configTest_array_iff.mp ⟨fuel, returned⟩ with ⟨_, rfl, _, fits, entries, tested, rfl⟩
    have short := length_strtokPieces_le_iff.mp fits
    have written : entries.getD i 0 ≠ 0 := by
      intro zero
      apply nonzero
      rw [List.getD_eq_getElem?_getD] at zero ⊢
      rcases lt_or_ge i entries.length with early | late
      · rw [List.getElem?_append_left early, zero]
      · rw [List.getElem?_append_right late, List.getElem?_replicate]
        split <;> rfl
    rcases tested.rejects pieceFree written with ⟨piece, found, rejects⟩
    rcases exists_line_of_piece found with ⟨place, isLine, rfl⟩
    have lineFree := nulFree_of_mem_lines free (List.mem_of_getElem? isLine)
    rcases shifted with long | shifted
    · exact absurd short long
    · rcases shifted place ⟨piece, isLine, (rejects_iff lineFree).mp rejects⟩ with
        ⟨line, found', faulty⟩
      have free' := nulFree_of_mem_lines free (List.mem_of_getElem? found')
      exact ⟨line, found', (rejects_iff free').mpr faulty⟩

theorem not_lineFaulty_of_nil {i : ℕ} (found : (lines text)[i]? = some []) :
    ¬LineFaulty text i := by
  rintro ⟨line, found', faulty, _⟩
  rcases Option.some.inj (found.symm.trans found') with rfl
  exact absurd (syntaxError_iff.mp faulty) (by decide)

theorem entriesPlaced_iff_first : EntriesPlaced [61, 10] := by
  apply (entriesPlaced_iff (by decide)).mpr
  right
  have split : lines [61, 10] = [[61], []] := by decide
  rintro (_ | _ | i) faulty
  · simpa using faulty
  · exact absurd faulty (not_lineFaulty_of_nil (by rw [split]; rfl))
  · rcases faulty with ⟨line, found, _⟩
    simp [split] at found

/-- In `\n=\n` the entry for the `=` stands at the index of the empty first line. -/
theorem entry_of_empty_line : ¬EntriesPlaced [10, 61, 10] := by
  intro placed
  rcases placed (fun _ => ample) 20 2 [1, 0] rfl 0 (by decide) (by decide) with
    ⟨line, found, rejects⟩
  have split : lines [10, 61, 10] = [[], [61], []] := by decide
  apply @not_lineFaulty_of_nil [10, 61, 10] 0 (by rw [split]; rfl)
  have free : NulFree line := nulFree_of_mem_lines (by decide) (List.mem_of_getElem? found)
  exact ⟨line, found, (rejects_iff free).mp rejects⟩

end Array

end Libhelp

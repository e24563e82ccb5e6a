import Libhelp.Lib.CString
import Mathlib.Algebra.GroupWithZero.Nat
import Mathlib.Data.List.TakeDrop

/-!
# Copying a file

The model of `file_copy`.  A path names a file, and two paths may name the same one.  How
each `read` and `write` ends is given by a list of results, which the calls take one
after the other.

A `read` that fails ends the loop like the end of the file, and `creat` empties the file
before it is read.  So a copy that returns 0 has the content of the source just when no
`read` fails before the end, and the two files are not one that had content.
-/

namespace Libhelp

/-- `BUFSIZE` -/
def bufSize : ℕ := 512

/-- How a `read` ends. -/
inductive ReadResult where
  | fails
  /-- It brings one byte and up to `n` more. -/
  | brings (n : ℕ)

/-- How a `write` ends. -/
inductive WriteResult where
  | fails
  /-- It stops after `n` bytes, or before the last one. -/
  | stops (n : ℕ)
  | writes

/-- The files that paths name, by their numbers, and their contents. -/
structure FileSystem where
  file : Bytes → Option ℕ
  content : ℕ → Bytes
  next : ℕ
  named : ∀ path number, file path = some number → number < next

namespace FileSystem

/-- The content of the file that a path names. -/
def contentOf (fs : FileSystem) (path : Bytes) : Option Bytes :=
  (fs.file path).map fs.content

def setContent (fs : FileSystem) (number : ℕ) (content : Bytes) : FileSystem :=
  { fs with content := fun other => if other = number then content else fs.content other }

/-- `creat`, which empties a file or makes an empty one. -/
def creat (fs : FileSystem) (path : Bytes) : ℕ × FileSystem :=
  match fs.file path with
  | some number => (number, fs.setContent number [])
  | none =>
      (fs.next, {
        file := fun other => if other = path then some fs.next else fs.file other
        content := fun other => if other = fs.next then [] else fs.content other
        next := fs.next + 1
        named := by
          intro other number isNamed
          split at isNamed
          · cases isNamed
            exact Nat.lt_succ_self _
          · exact (fs.named other number isNamed).trans (Nat.lt_succ_self _) })

/-- Bytes that are stored in a file from an offset on. -/
def store (fs : FileSystem) (number offset : ℕ) (bytes : Bytes) : FileSystem :=
  fs.setContent number ((fs.content number).take offset ++ bytes ++
    (fs.content number).drop (offset + bytes.length))

/-- `read` into a buffer of `BUFSIZE` bytes: what it returns and what it brings. -/
def read (fs : FileSystem) (number offset : ℕ) : ReadResult → ℤ × Bytes
  | .fails => (-1, [])
  | .brings n =>
      let buf := ((fs.content number).drop offset).take (min (n + 1) bufSize)
      (buf.length, buf)

/-- `write` of a buffer. -/
def write (fs : FileSystem) (number offset : ℕ) (buf : Bytes) : WriteResult → ℤ × FileSystem
  | .fails => (-1, fs)
  | .stops n =>
      let part := buf.take (min n (buf.length - 1))
      (part.length, fs.store number offset part)
  | .writes => (buf.length, fs.store number offset buf)

end FileSystem

/-- The results of a `read` and of the `write` after it. -/
structure CopyCall where
  read : ReadResult
  write : WriteResult

/-- The loop of `file_copy` and its end, `none` when it goes on after the calls.  The files are
read and written from the offsets on. -/
def copyLoop (fromFd toFd : ℕ) (fs : FileSystem) (fromOffset toOffset : ℕ) :
    List CopyCall → Option (Int32 × FileSystem)
  | [] => none
  | ⟨read, write⟩ :: calls =>
      let (nread, buf) := fs.read fromFd fromOffset read
      if nread > 0 then
        let (written, fs) := fs.write toFd toOffset buf write
        if written ≠ nread then
          some (-1, fs)
        else
          copyLoop fromFd toFd fs (fromOffset + buf.length) (toOffset + buf.length) calls
      else
        some (0, fs)

/-- `file_copy`.  `open` and `creat` may fail. -/
def fileCopy (fs : FileSystem) (fromPath toPath : Bytes) (opens creates : Bool)
    (calls : List CopyCall) : Option (Int32 × FileSystem) :=
  match if opens then fs.file fromPath else none with
  | none => some (-1, fs)
  | some fromFd =>
      if creates then
        match fs.creat toPath with
        | (toFd, fs) => copyLoop fromFd toFd fs 0 0 calls
      else
        some (-1, fs)

/-- The result of a copy tells whether the copy is complete. -/
structure CopyTells (fs : FileSystem) (fromPath toPath : Bytes) (code : Int32)
    (after : FileSystem) : Prop where
  zero : code = 0 → after.contentOf toPath = fs.contentOf fromPath
  incomplete : after.contentOf toPath ≠ fs.contentOf fromPath → code = -1

/-- What a `read` brings at most. -/
def CopyCall.amount : CopyCall → ℕ
  | ⟨.fails, _⟩ => 0
  | ⟨.brings n, _⟩ => min (n + 1) bufSize

/-- A `read` that does not fail before a `write` of all it brings. -/
def CopyCall.Whole : CopyCall → Prop
  | ⟨.brings _, .writes⟩ => True
  | _ => False

/-- A `read` fails when bytes are left that it should bring, and nothing has stopped the copy
before. -/
def FailsEarly (left : ℕ) (calls : List CopyCall) : Prop :=
  ∃ before write behind, calls = before ++ ⟨.fails, write⟩ :: behind ∧
    (∀ call ∈ before, call.Whole) ∧ (before.map CopyCall.amount).sum < left

/-- No `read` fails early, and a file with content is not copied to itself. -/
def CopyUndisturbed (fs : FileSystem) (fromPath toPath : Bytes) (opens creates : Bool)
    (calls : List CopyCall) : Prop :=
  opens = true → creates = true → ∀ number, fs.file fromPath = some number →
    if fs.file toPath = some number then
      fs.content number = []
    else
      ¬FailsEarly (fs.content number).length calls

section FailsEarly

variable {left n : ℕ} {write : WriteResult} {calls : List CopyCall}

theorem failsEarly_fails : FailsEarly left (⟨.fails, write⟩ :: calls) ↔ 0 < left := by
  constructor
  · intro early
    rcases early with ⟨before, other, behind, split, whole, less⟩
    exact Nat.zero_lt_of_lt less
  · intro some
    exact ⟨[], write, calls, rfl, by simp, some⟩

theorem failsEarly_brings : FailsEarly left (⟨.brings n, write⟩ :: calls) ↔
    write = .writes ∧ FailsEarly (left - min (n + 1) bufSize) calls := by
  constructor
  · intro early
    rcases early with ⟨before, other, behind, split, whole, less⟩
    cases before with
    | nil => cases split
    | cons first before =>
        rcases List.cons.inj split with ⟨rfl, rest⟩
        rcases List.forall_mem_cons.mp whole with ⟨firstWhole, whole⟩
        rw [List.map_cons, List.sum_cons, CopyCall.amount] at less
        refine ⟨?_, before, other, behind, rest, whole, by omega⟩
        cases write with
        | fails => cases firstWhole
        | stops => cases firstWhole
        | writes => rfl
  · intro early
    rcases early with ⟨rfl, before, other, behind, split, whole, less⟩
    refine ⟨⟨.brings n, .writes⟩ :: before, other, behind, ?_, ?_, ?_⟩
    · rw [split, List.cons_append]
    · exact List.forall_mem_cons.mpr ⟨trivial, whole⟩
    · rw [List.map_cons, List.sum_cons, CopyCall.amount]
      omega

end FailsEarly

section Loop

variable {fs after : FileSystem} {fromFd toFd offset n : ℕ} {content buf : Bytes} {code : Int32}
  {calls : List CopyCall}

/-- A copy up to an offset of the file with a content. -/
structure CopiedUpTo (fromFd toFd : ℕ) (content : Bytes) (offset : ℕ) (fs : FileSystem) : Prop where
  source : fs.content fromFd = content
  copied : fs.content toFd = content.take offset
  inside : offset ≤ content.length

theorem FileSystem.content_store (fs : FileSystem) (number offset : ℕ) (bytes : Bytes) :
    (fs.store number offset bytes).content number =
      (fs.content number).take offset ++ bytes ++
        (fs.content number).drop (offset + bytes.length) :=
  if_pos rfl

theorem FileSystem.content_store_ne {number other : ℕ} (differs : other ≠ number)
    (fs : FileSystem) (offset : ℕ) (bytes : Bytes) :
    (fs.store number offset bytes).content other = fs.content other :=
  if_neg differs

theorem natCast_length_pos (nonempty : buf ≠ []) : (buf.length : ℤ) > 0 :=
  Int.natCast_pos.mpr (List.length_pos_iff.mpr nonempty)

theorem write_ne {write : WriteResult} (nonempty : buf ≠ []) (stopped : write ≠ .writes) :
    (fs.write toFd offset buf write).1 ≠ buf.length := by
  have positive := List.length_pos_iff.mpr nonempty
  cases write with
  | fails =>
      show (-1 : ℤ) ≠ buf.length
      omega
  | stops n =>
      show ((buf.take (min n (buf.length - 1))).length : ℤ) ≠ buf.length
      rw [List.length_take]
      omega
  | writes => exact absurd rfl stopped

theorem CopiedUpTo.step (copying : CopiedUpTo fromFd toFd content offset fs)
    (differs : fromFd ≠ toFd) (n : ℕ) (brought : buf = (content.drop offset).take n) :
    CopiedUpTo fromFd toFd content (offset + buf.length) (fs.store toFd offset buf) := by
  have length : buf.length = min n (content.length - offset) := by
    rw [brought, List.length_take, List.length_drop]
  have inside := copying.inside
  refine ⟨?_, ?_, by omega⟩
  · rw [FileSystem.content_store_ne differs]
    exact copying.source
  · have ends : content.drop offset = buf ++ content.drop (offset + buf.length) := by
      rw [← List.drop_drop, length]
      nth_rewrite 1 [← List.take_append_drop (min n (content.length - offset))
        (content.drop offset)]
      rw [brought]
      congr 1
      apply List.take_eq_take_iff.mpr
      rw [List.length_drop]
      omega
    rw [FileSystem.content_store, copying.copied, List.take_take, Nat.min_self,
      List.drop_eq_nil_of_le (by rw [List.length_take]; omega), List.append_nil]
    nth_rewrite 2 [← List.take_append_drop offset content]
    rw [ends, ← List.append_assoc, List.take_left']
    rw [List.length_append, List.length_take_of_le inside]

theorem copyLoop_next (copying : CopiedUpTo fromFd toFd content offset fs)
    (brought : buf = (content.drop offset).take (min (n + 1) bufSize)) (nonempty : buf ≠ []) :
    copyLoop fromFd toFd fs offset offset (⟨.brings n, .writes⟩ :: calls) =
      copyLoop fromFd toFd (fs.store toFd offset buf) (offset + buf.length)
        (offset + buf.length) calls := by
  have positive := natCast_length_pos nonempty
  rw [copyLoop, FileSystem.read, copying.source]
  dsimp only
  rw [← brought, if_pos positive, FileSystem.write]
  dsimp only
  rw [if_neg (not_not.mpr rfl)]

theorem copyLoop_stops {write : WriteResult} (copying : CopiedUpTo fromFd toFd content offset fs)
    (brought : buf = (content.drop offset).take (min (n + 1) bufSize)) (nonempty : buf ≠ [])
    (stopped : write ≠ .writes) :
    ∃ after, copyLoop fromFd toFd fs offset offset (⟨.brings n, write⟩ :: calls) =
      some (-1, after) := by
  have positive := natCast_length_pos nonempty
  rw [copyLoop, FileSystem.read, copying.source]
  dsimp only
  rw [← brought, if_pos positive, if_pos (write_ne nonempty stopped)]
  exact ⟨_, rfl⟩

theorem copyLoop_ends {write : WriteResult} (copying : CopiedUpTo fromFd toFd content offset fs)
    (ends : (content.drop offset).take (min (n + 1) bufSize) = []) :
    copyLoop fromFd toFd fs offset offset (⟨.brings n, write⟩ :: calls) = some (0, fs) := by
  rw [copyLoop, FileSystem.read, copying.source]
  dsimp only
  rw [ends, if_neg (by decide)]

/-- The loop returns 0 with less than the content just when a `read` fails early. -/
theorem copyLoop_iff (copying : CopiedUpTo fromFd toFd content offset fs) (differs : fromFd ≠ toFd)
    (returned : copyLoop fromFd toFd fs offset offset calls = some (code, after)) :
    (code = 0 ∨ code = -1) ∧ ((code = 0 → after.content toFd = content) ↔
      ¬FailsEarly (content.length - offset) calls) := by
  induction calls generalizing fs offset with
  | nil => cases returned
  | cons call calls ih =>
      rcases call with ⟨read, write⟩
      have inside := copying.inside
      cases read with
      | fails =>
          cases returned
          rw [failsEarly_fails, copying.copied, List.take_eq_self_iff]
          refine ⟨Or.inl rfl, ?_⟩
          constructor
          · intro complete
            have reached := complete rfl
            omega
          · intro nothing _
            omega
      | brings n =>
          rw [failsEarly_brings]
          generalize brought : (content.drop offset).take (min (n + 1) bufSize) = buf
          by_cases ends : buf = []
          · -- the end of the file has been reached
            have nothing : content.length - offset = 0 := by
              have length := congrArg List.length (brought.trans ends)
              rw [List.length_take, List.length_drop, List.length_nil] at length
              have positive : 0 < bufSize := by decide
              omega
            rw [copyLoop_ends copying (brought.trans ends)] at returned
            cases returned
            refine ⟨Or.inl rfl, iff_of_true ?_ ?_⟩
            · intro _
              rw [copying.copied]
              exact List.take_of_length_le (by omega)
            · intro early
              rcases early with ⟨-, before, other, behind, split, whole, less⟩
              omega
          · by_cases stopped : write = .writes
            · subst stopped
              rw [copyLoop_next copying brought.symm ends] at returned
              have left : content.length - (offset + buf.length) =
                  content.length - offset - min (n + 1) bufSize := by
                rw [← brought, List.length_take, List.length_drop]
                omega
              rcases ih (copying.step differs _ brought.symm) returned with ⟨codes, iff⟩
              rw [left] at iff
              exact ⟨codes, by simpa using iff⟩
            · rcases @copyLoop_stops fs fromFd toFd offset n content buf calls write copying
                brought.symm ends stopped with ⟨stoppedAfter, stops⟩
              rw [stops] at returned
              cases returned
              refine ⟨Or.inr rfl, iff_of_true ?_ ?_⟩
              · intro zero
                exact absurd zero (by decide)
              · exact fun early => stopped early.1

/-- With more calls than there are bytes left the loop returns. -/
theorem copyLoop_returns (copying : CopiedUpTo fromFd toFd content offset fs)
    (differs : fromFd ≠ toFd) (enough : content.length - offset < calls.length) :
    ∃ code after, copyLoop fromFd toFd fs offset offset calls = some (code, after) := by
  induction calls generalizing fs offset with
  | nil => cases enough
  | cons call calls ih =>
      rcases call with ⟨read, write⟩
      cases read with
      | fails => exact ⟨0, fs, rfl⟩
      | brings n =>
          generalize brought : (content.drop offset).take (min (n + 1) bufSize) = buf
          by_cases ends : buf = []
          · exact ⟨0, fs, copyLoop_ends copying (brought.trans ends)⟩
          · by_cases stopped : write = .writes
            · subst stopped
              rw [copyLoop_next copying brought.symm ends]
              apply ih (copying.step differs _ brought.symm)
              have positive := List.length_pos_iff.mpr ends
              rw [List.length_cons] at enough
              have fits : buf.length ≤ content.length - offset := by
                rw [← brought, List.length_take, List.length_drop]
                exact Nat.min_le_right _ _
              omega
            · rcases @copyLoop_stops fs fromFd toFd offset n content buf calls write copying
                brought.symm ends stopped with ⟨after, stops⟩
              exact ⟨-1, after, stops⟩

theorem copyLoop_empty (number : ℕ) (empty : fs.content number = [])
    (returned : copyLoop number number fs 0 0 calls = some (code, after)) :
    code = 0 ∧ after = fs := by
  cases calls with
  | nil => cases returned
  | cons call calls =>
      rcases call with ⟨read, write⟩
      cases read with
      | fails =>
          cases returned
          exact ⟨rfl, rfl⟩
      | brings n =>
          rw [copyLoop, FileSystem.read, empty, List.drop_nil, List.take_nil] at returned
          dsimp only at returned
          rw [if_neg (by decide)] at returned
          cases returned
          exact ⟨rfl, rfl⟩

theorem copyLoop_empty_returns (number : ℕ) (empty : fs.content number = [])
    (enough : 0 < calls.length) :
    ∃ code after, copyLoop number number fs 0 0 calls = some (code, after) := by
  cases calls with
  | nil => cases enough
  | cons call calls =>
      rcases call with ⟨read, write⟩
      cases read with
      | fails => exact ⟨0, fs, rfl⟩
      | brings n =>
          refine ⟨0, fs, ?_⟩
          rw [copyLoop, FileSystem.read, empty, List.drop_nil, List.take_nil]
          rfl

theorem write_file (fs : FileSystem) (write : WriteResult) :
    (fs.write toFd offset buf write).2.file = fs.file := by
  cases write <;> rfl

theorem copyLoop_file {fromOffset toOffset : ℕ}
    (returned : copyLoop fromFd toFd fs fromOffset toOffset calls = some (code, after)) :
    after.file = fs.file := by
  induction calls generalizing fs fromOffset toOffset with
  | nil => cases returned
  | cons call calls ih =>
      rw [copyLoop] at returned
      dsimp only at returned
      split at returned
      · split at returned
        · cases returned
          exact write_file fs call.write
        · exact (ih returned).trans (write_file fs call.write)
      · cases returned
        rfl

end Loop

section Files

variable {fs after : FileSystem} {fromPath toPath : Bytes} {number : ℕ} {opens creates : Bool}
  {calls : List CopyCall} {code : Int32}

theorem FileSystem.creat_named (fs : FileSystem) (path : Bytes) :
    (fs.creat path).2.file path = some (fs.creat path).1 ∧
      (fs.creat path).2.content (fs.creat path).1 = [] := by
  unfold creat
  split
  case h_1 number isNamed => exact ⟨isNamed, if_pos rfl⟩
  case h_2 => exact ⟨if_pos rfl, if_pos rfl⟩

theorem FileSystem.creat_same (same : fs.file toPath = some number) :
    fs.creat toPath = (number, fs.setContent number []) := by
  unfold creat
  rw [same]

theorem FileSystem.creat_ne (named : fs.file fromPath = some number)
    (other : fs.file toPath ≠ some number) : number ≠ (fs.creat toPath).1 ∧
      (fs.creat toPath).2.content number = fs.content number := by
  unfold creat
  split
  case h_1 target isNamed =>
    have differs : number ≠ target := by
      intro same
      exact other (same ▸ isNamed)
    exact ⟨differs, if_neg differs⟩
  case h_2 =>
    have differs : number ≠ fs.next := (fs.named fromPath number named).ne
    exact ⟨differs, if_neg differs⟩

theorem fileCopy_fails (fails : opens = false ∨ creates = false ∨ fs.file fromPath = none)
    (returned : fileCopy fs fromPath toPath opens creates calls = some (code, after)) :
    code = -1 := by
  unfold fileCopy at returned
  split at returned
  case h_1 =>
    cases returned
    rfl
  case h_2 fromFd opened =>
    split at returned
    case isTrue created =>
      rcases fails with closed | uncreated | unnamed
      · rw [if_neg (by simp [closed])] at opened
        cases opened
      · rw [uncreated] at created
        cases created
      · rw [unnamed] at opened
        split at opened <;> cases opened
    case isFalse =>
      cases returned
      rfl

theorem fileCopy_opened (named : fs.file fromPath = some number) :
    fileCopy fs fromPath toPath true true calls =
      copyLoop number (fs.creat toPath).1 (fs.creat toPath).2 0 0 calls := by
  unfold fileCopy
  rw [if_pos rfl, named]
  rfl

theorem copying_start (named : fs.file fromPath = some number)
    (other : fs.file toPath ≠ some number) :
    CopiedUpTo number (fs.creat toPath).1 (fs.content number) 0 (fs.creat toPath).2 :=
  ⟨(fs.creat_ne named other).2, (fs.creat_named toPath).2, Nat.zero_le _⟩

theorem contentOf_named (named : fs.file fromPath = some number) :
    fs.contentOf fromPath = some (fs.content number) := by
  rw [FileSystem.contentOf, named]
  rfl

theorem contentOf_copied
    (returned : copyLoop number (fs.creat toPath).1 (fs.creat toPath).2 0 0 calls =
      some (code, after)) :
    after.contentOf toPath = some (after.content (fs.creat toPath).1) := by
  apply contentOf_named
  rw [copyLoop_file returned]
  exact (fs.creat_named toPath).1

/-- A file that is copied to itself is emptied, and nothing is read. -/
theorem copyTells_same (named : fs.file fromPath = some number)
    (same : fs.file toPath = some number)
    (returned : fileCopy fs fromPath toPath true true calls = some (code, after)) :
    CopyTells fs fromPath toPath code after ↔ fs.content number = [] := by
  rw [fileCopy_opened named] at returned
  have copied := contentOf_copied returned
  rw [FileSystem.creat_same same] at returned copied
  have empty : (fs.setContent number []).content number = [] := if_pos rfl
  rcases copyLoop_empty number empty returned with ⟨rfl, rfl⟩
  rw [empty] at copied
  constructor
  · intro tells
    have complete := tells.zero rfl
    rw [copied, contentOf_named named, Option.some.injEq] at complete
    exact complete.symm
  · intro nothing
    have complete : (fs.setContent number []).contentOf toPath = fs.contentOf fromPath := by
      rw [copied, contentOf_named named, nothing]
    exact ⟨fun _ => complete, fun incomplete => absurd complete incomplete⟩

theorem copyTells_ne (named : fs.file fromPath = some number)
    (other : fs.file toPath ≠ some number)
    (returned : fileCopy fs fromPath toPath true true calls = some (code, after)) :
    CopyTells fs fromPath toPath code after ↔
      ¬FailsEarly (fs.content number).length calls := by
  rw [fileCopy_opened named] at returned
  have copied := contentOf_copied returned
  rcases copyLoop_iff (copying_start named other) (fs.creat_ne named other).1 returned with
    ⟨codes, tells⟩
  rw [Nat.sub_zero] at tells
  rw [← tells]
  constructor
  · intro copyTells zero
    have complete := copyTells.zero zero
    rw [copied, contentOf_named named, Option.some.injEq] at complete
    exact complete
  · intro complete
    constructor
    · intro zero
      rw [copied, contentOf_named named, complete zero]
    · intro incomplete
      rcases codes with zero | failed
      · rw [copied, contentOf_named named, complete zero] at incomplete
        exact absurd rfl incomplete
      · exact failed

theorem copyTells_of_returned
    (returned : fileCopy fs fromPath toPath opens creates calls = some (code, after)) :
    CopyTells fs fromPath toPath code after ↔
      CopyUndisturbed fs fromPath toPath opens creates calls := by
  by_cases fails : opens = false ∨ creates = false ∨ fs.file fromPath = none
  · have code_eq := fileCopy_fails fails returned
    apply iff_of_true
    · constructor
      · intro zero
        rw [code_eq] at zero
        exact absurd zero (by decide)
      · exact fun _ => code_eq
    · intro opened created number named
      rw [opened, created, named] at fails
      simp at fails
  · simp only [not_or, Bool.not_eq_false] at fails
    rcases fails with ⟨opened, created, isNamed⟩
    rcases Option.ne_none_iff_exists'.mp isNamed with ⟨number, named⟩
    subst opened created
    have undisturbed : CopyUndisturbed fs fromPath toPath true true calls ↔
        if fs.file toPath = some number then
          fs.content number = []
        else
          ¬FailsEarly (fs.content number).length calls := by
      unfold CopyUndisturbed
      simp [named]
    rw [undisturbed]
    by_cases same : fs.file toPath = some number
    · rw [if_pos same]
      exact copyTells_same named same returned
    · rw [if_neg same]
      exact copyTells_ne named same returned

theorem fileCopy_returns (enough : ∀ number, fs.file fromPath = some number →
    (fs.content number).length < calls.length) :
    ∃ code after, fileCopy fs fromPath toPath opens creates calls = some (code, after) := by
  cases opens with
  | false => exact ⟨-1, fs, rfl⟩
  | true =>
      cases named : fs.file fromPath with
      | none =>
          refine ⟨-1, fs, ?_⟩
          unfold fileCopy
          rw [if_pos rfl, named]
      | some number =>
          cases creates with
          | false =>
              refine ⟨-1, fs, ?_⟩
              unfold fileCopy
              rw [if_pos rfl, named]
              rfl
          | true =>
              rw [fileCopy_opened named]
              have longer := enough number named
              by_cases same : fs.file toPath = some number
              · have empty : (fs.setContent number []).content number = [] := if_pos rfl
                rw [FileSystem.creat_same same]
                exact copyLoop_empty_returns number empty (by omega)
              · exact copyLoop_returns (copying_start named same) (fs.creat_ne named same).1 longer

/-- A copy returns, and what it returns tells whether it is complete when and only when no `read`
fails early and no file with content is copied to itself. -/
theorem copyTells_iff (fs : FileSystem) (fromPath toPath : Bytes) (opens creates : Bool)
    (calls : List CopyCall) :
    ((∀ number, fs.file fromPath = some number → (fs.content number).length < calls.length) →
        ∃ code after, fileCopy fs fromPath toPath opens creates calls = some (code, after)) ∧
      ∀ code after, fileCopy fs fromPath toPath opens creates calls = some (code, after) →
        (CopyTells fs fromPath toPath code after ↔
          CopyUndisturbed fs fromPath toPath opens creates calls) :=
  ⟨fileCopy_returns, fun _ _ returned => copyTells_of_returned returned⟩

/-- A file of two bytes. -/
def oneFile : FileSystem where
  file path := if path = [97] then some 0 else none
  content _ := [1, 2]
  next := 1
  named := by
    intro path number isNamed
    split at isNamed
    · cases isNamed
      exact Nat.zero_lt_one
    · cases isNamed

/-- The file is read and written a byte at a time. -/
theorem copyTells_whole : ∃ after, after.contentOf [98] = some [1, 2] ∧
    (CopyTells oneFile [97] [98] 0 after ↔ CopyUndisturbed oneFile [97] [98] true true
      [⟨.brings 0, .writes⟩, ⟨.brings 0, .writes⟩, ⟨.brings 0, .writes⟩]) :=
  ⟨_, rfl, (copyTells_iff oneFile [97] [98] true true
    [⟨.brings 0, .writes⟩, ⟨.brings 0, .writes⟩, ⟨.brings 0, .writes⟩]).2 0 _ rfl⟩

/-- The first `read` fails; and a file is copied to itself. -/
theorem copy_tells_wrong :
    (∃ after, fileCopy oneFile [97] [98] true true [⟨.fails, .writes⟩] = some (0, after) ∧
        ¬CopyTells oneFile [97] [98] 0 after) ∧
      ∃ after, fileCopy oneFile [97] [97] true true [⟨.brings 511, .writes⟩] = some (0, after) ∧
        ¬CopyTells oneFile [97] [97] 0 after := by
  constructor
  · refine ⟨_, rfl, ?_⟩
    intro tells
    have complete := tells.zero rfl
    exact absurd complete (by decide)
  · refine ⟨_, rfl, ?_⟩
    intro tells
    have complete := tells.zero rfl
    exact absurd complete (by decide)

end Files

end Libhelp

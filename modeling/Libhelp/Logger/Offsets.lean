import Libhelp.Logger.Stream
import Mathlib.Data.List.GetD

/-!
# The offsets of a line

The offsets and sizes that `log_put` comes to in `str`.  `snprintf` and `vsnprintf`
return the length a text would have, and `p` moves on by that much whether or not the
text fits.  So the offsets are inside `str` just when the whole line fits, the newline
included.
-/

namespace Libhelp

open CString

/-- What `log_put` does with an offset `p - str` or a size. -/
inductive LogStep where
  /-- `p` is behind the header. -/
  | header (offset : ℕ)
  /-- The size `end - p` for the message, before it is a `size_t`. -/
  | room (size : ℤ)
  /-- `p` is behind the message. -/
  | message (offset : ℕ)
  | newline (offset : ℕ)
  | fwrite (size : ℕ)

/-- The offsets and sizes of a call of `log_put`, in their order. -/
def logSteps (log : Option Log) (put : LogPut) : List LogStep :=
  match log with
  | none => []
  | some log =>
      if log.Filters put.level then
        []
      else
        let log := logTime log put.time put.tm
        let p := (logHeader log put.level put.file put.func put.line).length
        .header p :: .room ((logStrSize : ℤ) - p) ::
          match put.message with
          | none => []
          | some message =>
              let p := p + message.length
              [.message p, .newline p, .fwrite (p + 1)]

namespace LogPut

/-- The header of the line. -/
def header (put : LogPut) (log : Log) : Bytes :=
  logHeader (logTime log put.time put.tm) put.level put.file put.func put.line

/-- Header, message and newline fit `str`.  A message that cannot be formatted is empty. -/
def Fits (put : LogPut) (log : Log) : Prop :=
  (put.header log).length + (put.message.getD []).length + 1 ≤ logStrSize

instance (put : LogPut) (log : Log) : Decidable (put.Fits log) :=
  inferInstanceAs (Decidable (_ ≤ _))

end LogPut

def LogStep.Inside : LogStep → Prop
  | .header offset => offset < logStrSize
  | .room size => 0 ≤ size
  | .message offset => offset < logStrSize
  | .newline offset => offset < logStrSize
  | .fwrite size => size ≤ logStrSize

/-- All offsets and sizes are inside `str`, and a line that fits is written as it is. -/
structure LogPut.Kept (put : LogPut) (log : Option Log) : Prop where
  inside : ∀ step ∈ logSteps log put, step.Inside
  written : ∀ state message, log = some state → put.message = some message →
    ¬state.Filters put.level → put.Fits state →
      (logPut state put).2 = .writes state.fd (put.header state ++ message ++ ascii "\n")

namespace Stack

variable {stack : Stack} {offset size : ℕ} {bytes rest text : Bytes}

/-- What is read up to the end of bytes that have been stored. -/
theorem range_store (stack : Stack) (offset : ℕ) (bytes rest : Bytes) :
    (List.range (offset + bytes.length)).map (stack.store offset (bytes ++ rest)) =
      (List.range offset).map stack ++ bytes := by
  rw [List.range_add, List.map_append, List.map_map]
  congr 1
  · apply List.map_congr_left
    intro address isBefore
    have before : ¬offset ≤ address := Nat.not_le.mpr (List.mem_range.mp isBefore)
    exact if_neg fun stored => before stored.1
  · apply List.ext_getElem
    · simp
    · intro i _ inBytes
      have inside : offset ≤ offset + i ∧ offset + i < offset + (bytes ++ rest).length := by
        rw [List.length_append]
        omega
      rw [List.getElem_map, List.getElem_range]
      show (if _ then _ else _) = _
      rw [if_pos inside, Nat.add_sub_cancel_left, List.getD_append _ _ _ _ inBytes]
      exact List.getD_eq_getElem _ _ inBytes

/-- A text that fits with the byte that ends it comes behind what is before it. -/
theorem range_snprintf (fits : text.length < size) :
    (List.range (offset + text.length)).map (stack.snprintf offset size text) =
      (List.range offset).map stack ++ text := by
  have nonzero : size ≠ 0 := Nat.ne_zero_of_lt fits
  have whole : Libhelp.snprintf size text = text :=
    List.take_of_length_le (Nat.le_sub_one_of_lt fits)
  rw [snprintf, if_neg nonzero, whole]
  exact range_store stack offset text [nul]

end Stack

variable {log : Log} {put : LogPut} {stack : Stack} {header message : Bytes}

theorem logRoom_eq {offset : ℕ} (inside : offset ≤ logStrSize) :
    logRoom offset = logStrSize - offset := by
  have bound : offset ≤ 2048 := inside
  unfold logRoom logStrSize
  omega

theorem logText_eq (fits : header.length + message.length + 1 ≤ logStrSize) :
    logText stack header message = header ++ message ++ ascii "\n" := by
  have headerFits : 0 + header.length < logStrSize := by omega
  have room : logRoom header.length = logStrSize - header.length := logRoom_eq (by omega)
  have first := @Stack.range_snprintf stack 0 logStrSize header (by omega)
  rw [Nat.zero_add, List.range_zero, List.map_nil, List.nil_append] at first
  have second := @Stack.range_snprintf (stack.snprintf 0 logStrSize header) header.length
    (logRoom header.length) message (by omega)
  rw [first] at second
  have third := Stack.range_store
    ((stack.snprintf 0 logStrSize header).snprintf header.length (logRoom header.length) message)
    (header.length + message.length) (ascii "\n") []
  rw [second, List.append_nil] at third
  exact third

theorem logPut_writes (passes : ¬log.Filters put.level) (formatted : put.message = some message) :
    (logPut log put).2 = .writes log.fd (logText put.stack (put.header log) message) := by
  unfold logPut
  rw [if_neg passes, formatted]
  dsimp only
  rw [(Log.logTime_file_fd log put.time put.tm).2]
  rfl

/-- `fwrite` is asked for the bytes of the text that is written. -/
theorem fwrite_mem_logSteps {fd : Option Bytes} {text : Bytes}
    (writes : (logPut log put).2 = .writes fd text) :
    .fwrite text.length ∈ logSteps (some log) put := by
  unfold logPut at writes
  split at writes
  case isTrue => cases writes
  case isFalse passes =>
    cases formatted : put.message with
    | none =>
        rw [formatted] at writes
        cases writes
    | some message =>
        rw [formatted] at writes
        cases writes
        simp [logSteps, passes, formatted, logText]

theorem logSteps_of_passes (passes : ¬log.Filters put.level) : logSteps (some log) put =
    .header (put.header log).length :: .room ((logStrSize : ℤ) - (put.header log).length) ::
      match put.message with
      | none => []
      | some message =>
          [.message ((put.header log).length + message.length),
            .newline ((put.header log).length + message.length),
            .fwrite ((put.header log).length + message.length + 1)] :=
  if_neg passes

theorem inside_iff_fits (passes : ¬log.Filters put.level) :
    (∀ step ∈ logSteps (some log) put, step.Inside) ↔ put.Fits log := by
  rw [logSteps_of_passes passes, LogPut.Fits]
  cases put.message with
  | none =>
      simp only [List.forall_mem_cons, LogStep.Inside, Option.getD_none, List.length_nil]
      constructor
      · intro inside
        exact inside.1
      · intro fits
        exact ⟨fits, by omega, by simp⟩
  | some message =>
      simp only [List.forall_mem_cons, LogStep.Inside, Option.getD_some]
      constructor
      · intro inside
        exact inside.2.2.1
      · intro fits
        exact ⟨by omega, by omega, fits, fits, fits, by simp⟩

/-- `log_put` keeps its offsets inside `str` when and only when the line is not put at all or
fits. -/
theorem kept_iff_fits (put : LogPut) (log : Option Log) : put.Kept log ↔
    ∀ state, log = some state → state.Filters put.level ∨ put.Fits state := by
  constructor
  · intro kept state isState
    subst isState
    by_cases filters : state.Filters put.level
    · exact Or.inl filters
    · exact Or.inr ((inside_iff_fits filters).mp kept.inside)
  · intro condition
    constructor
    · cases log with
      | none => simp [logSteps]
      | some state =>
          rcases condition state rfl with filters | fits
          · simp [logSteps, filters]
          · by_cases filters : state.Filters put.level
            · simp [logSteps, filters]
            · exact (inside_iff_fits filters).mpr fits
    · intro state message _ formatted passes fits
      have lineFits : (put.header state).length + message.length + 1 ≤ logStrSize := by
        rw [LogPut.Fits, formatted] at fits
        exact fits
      rw [logPut_writes passes formatted, logText_eq lineFits]

/-- A call of `log_error` whose message has as many bytes as `str`. -/
def longPut : LogPut :=
  ⟨.error, none, none, 0, some (List.replicate 2048 97), 0, ⟨0, 0, 0, 0, 0, 0⟩, fun _ => 0⟩

/-- The newline is stored behind `str`. -/
theorem longPut_outside : ¬longPut.Kept (some (Log.memoryWith none)) := by
  intro kept
  have passes : ¬(Log.memoryWith none).Filters longPut.level := by decide
  have fits : longPut.Fits (Log.memoryWith none) := (inside_iff_fits passes).mp kept.inside
  have length : (longPut.message.getD []).length = 2048 := List.length_replicate
  rw [LogPut.Fits, length, logStrSize] at fits
  omega

end Libhelp

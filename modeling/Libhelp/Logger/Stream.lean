import Libhelp.Logger.Logger

/-!
# The stream of a logger

What a logger does with files in a run that starts with `log_new`.  `log_new` leaves
`file` as it finds it in memory, so `log_rotate` opens whatever name is there; and a
`log_rotate` that fails leaves no stream for the next `log_put`.
-/

namespace Libhelp

open Transition CString

inductive LogEvent where
  | put (put : LogPut)
  | setPid (pid : Int32)
  | setStrLevel (level : Bytes)
  | rotate (opens : Bool)

/-- The file name and the stream of an effect are those of the file `f`. -/
def LogEffect.On (f : Bytes) : LogEffect → Prop
  | .nothing => True
  | .opens name => name = some f
  | .writes fd _ => fd = some f

namespace Log

def call (log : Log) : LogEvent → Log × LogEffect
  | .put put => logPut log put
  | .setPid pid => (logSetPid log pid, .nothing)
  | .setStrLevel level => (logSetStrLevel log level, .nothing)
  | .rotate opens => (logRotate log opens, .opens log.file)

/-- The runs that start with a successful `log_new` on the memory `malloc` gave it. -/
def system (memory : Log) (f : Bytes) (level : Int32) : System Log LogEvent where
  init log := ∃ opens pid, logNew (some memory) opens pid f level = some log
  step log event after := after = (log.call event).1

/-- `log_rotate` is called only when the memory happened to have a pointer to the name `f` where
`file` is, and `log_put` with a line to write only when there is a stream. -/
def Ready (log memory : Log) (f : Bytes) : LogEvent → Prop
  | .rotate _ => memory.file = some f
  | .put put => ¬log.Filters put.level → put.message ≠ none → log.fd ≠ none
  | _ => True

section Put

variable {log : Log} {put : LogPut} {f : Bytes}

theorem logTime_file_fd (log : Log) (time : Int64) (tm : Tm) :
    (logTime log time tm).file = log.file ∧ (logTime log time tm).fd = log.fd := by
  unfold logTime
  split
  · exact ⟨rfl, rfl⟩
  · exact ⟨rfl, rfl⟩

theorem logPut_file_fd (log : Log) (put : LogPut) :
    (logPut log put).1.file = log.file ∧ (logPut log put).1.fd = log.fd := by
  unfold logPut
  split
  · exact ⟨rfl, rfl⟩
  · split
    · exact logTime_file_fd _ _ _
    · exact logTime_file_fd _ _ _

theorem logSetStrLevel_file_fd (log : Log) (level : Bytes) :
    (logSetStrLevel log level).file = log.file ∧ (logSetStrLevel log level).fd = log.fd := by
  unfold logSetStrLevel
  repeat' split
  all_goals exact ⟨rfl, rfl⟩

theorem logPut_on : (logPut log put).2.On f ↔
    (¬log.Filters put.level → put.message ≠ none → log.fd = some f) := by
  unfold logPut
  split
  case isTrue filters => simp [LogEffect.On, filters]
  case isFalse passes =>
    cases put.message with
    | none => simp [LogEffect.On]
    | some message => simp [LogEffect.On, passes, logTime_file_fd]

end Put

section Run

variable {memory log after : Log} {event : LogEvent} {f : Bytes} {level : Int32}

theorem logNew_file_fd {opens : Bool} {pid : Int32}
    (created : logNew (some memory) opens pid f level = some log) :
    log.file = memory.file ∧ log.fd = some f := by
  unfold logNew fopen at created
  cases opens with
  | false => cases created
  | true =>
      cases created
      exact ⟨rfl, rfl⟩

/-- `file` stays as it is, and the stream is one of the file `f` as long as `log_rotate` finds
this name. -/
structure Streams (log memory : Log) (f : Bytes) : Prop where
  file : log.file = memory.file
  fd : log.fd = none ∨ log.fd = some f

theorem Streams.congr (streams : log.Streams memory f)
    (same : after.file = log.file ∧ after.fd = log.fd) : after.Streams memory f := by
  rcases same with ⟨file, fd⟩
  refine ⟨file.trans streams.file, ?_⟩
  rw [fd]
  exact streams.fd

theorem Streams.step (streams : log.Streams memory f) (ready : log.Ready memory f event)
    (stepped : (system memory f level).step log event after) : after.Streams memory f := by
  have same : after = (log.call event).1 := stepped
  subst same
  cases event with
  | put put => exact streams.congr (logPut_file_fd log put)
  | setPid pid => exact streams.congr ⟨rfl, rfl⟩
  | setStrLevel name => exact streams.congr (logSetStrLevel_file_fd log name)
  | rotate opens =>
      refine ⟨streams.file, ?_⟩
      have name : log.file = some f := streams.file.trans ready
      show fopen log.file opens = none ∨ fopen log.file opens = some f
      rw [name]
      cases opens with
      | false => exact Or.inl rfl
      | true => exact Or.inr rfl

theorem streams_reachable
    (reachable : ((system memory f level).restrict fun log => log.Ready memory f).Reachable log) :
    log.Streams memory f := by
  apply reachable.invariant
  · intro log starts
    rcases starts with ⟨opens, pid, created⟩
    rcases logNew_file_fd created with ⟨file, fd⟩
    exact ⟨file, Or.inr fd⟩
  · intro log event after streams stepped
    exact streams.step stepped.1 stepped.2

/-- In a run all of whose steps are ready, a step is on the file given to `log_new` when and
only when it is ready. -/
theorem effect_on_iff_ready
    (reachable : ((system memory f level).restrict fun log => log.Ready memory f).Reachable log)
    (event : LogEvent) : (log.call event).2.On f ↔ log.Ready memory f event := by
  have streams := streams_reachable reachable
  cases event with
  | put put =>
      apply logPut_on.trans
      show _ ↔ (_ → _ → log.fd ≠ none)
      rcases streams.fd with closed | opened
      · simp [closed]
      · simp [opened]
  | setPid pid => exact Iff.rfl
  | setStrLevel name => exact Iff.rfl
  | rotate opens =>
      show log.file = some f ↔ memory.file = some f
      rw [streams.file]

end Run

/-- The memory `malloc` gives, with a pointer to a name where `file` is. -/
def memoryWith (file : Option Bytes) : Log :=
  ⟨0, 0, [], [], file, none⟩

theorem effect_on_rotated : ∃ log : Log, log.fd = some (ascii "a.log") ∧
    (log.call (.rotate false)).2.On (ascii "a.log") := by
  have created : ((system (memoryWith (some (ascii "a.log"))) (ascii "a.log") 3).restrict
      fun log => log.Ready (memoryWith (some (ascii "a.log"))) (ascii "a.log")).Reachable
      ⟨3, 0, [], Libhelp.pidStr 1, some (ascii "a.log"), some (ascii "a.log")⟩ :=
    .init ⟨true, 1, rfl⟩
  exact ⟨_, rfl, (effect_on_iff_ready created (.rotate false)).mpr rfl⟩

/-- `log_new` on `a.log` in memory where `file` points to `b.log`: the logger is rotated to
`b.log`.  And a logger that could not be rotated writes to `NULL`. -/
theorem rotates_elsewhere :
    (∃ log, (system (memoryWith (some (ascii "b.log"))) (ascii "a.log") 3).Reachable log ∧
        ¬(log.call (.rotate true)).2.On (ascii "a.log")) ∧
      ∃ log put text,
        (system (memoryWith (some (ascii "a.log"))) (ascii "a.log") 3).Reachable log ∧
          (log.call (.put put)).2 = .writes none text := by
  constructor
  · have created : (system (memoryWith (some (ascii "b.log"))) (ascii "a.log") 3).Reachable
        ⟨3, 0, [], Libhelp.pidStr 1, some (ascii "b.log"), some (ascii "a.log")⟩ :=
      .init ⟨true, 1, rfl⟩
    exact ⟨_, created, by simp [call, LogEffect.On, ascii]⟩
  · have created : (system (memoryWith (some (ascii "a.log"))) (ascii "a.log") 3).Reachable
        ⟨3, 0, [], Libhelp.pidStr 1, some (ascii "a.log"), some (ascii "a.log")⟩ :=
      .init ⟨true, 1, rfl⟩
    have rotated : (system (memoryWith (some (ascii "a.log"))) (ascii "a.log") 3).Reachable
        ⟨3, 0, [], Libhelp.pidStr 1, some (ascii "a.log"), none⟩ :=
      .step (.rotate false) created rfl
    refine ⟨_, ⟨.error, none, none, 0, some (ascii "x"), 0, ⟨0, 0, 0, 0, 0, 0⟩, fun _ => 0⟩, _,
      rotated, rfl⟩

end Log

end Libhelp

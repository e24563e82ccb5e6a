import Libhelp.Semaphore.Accounting

/-!
# Creating a semaphore while other processes open it

The model of `semaphore_create` and `semaphore_open` on one name that does not
exist yet.  Each system call of `semaphore_create` is a step; `semaphore_open`
takes two, it finds the file and it maps the file and returns the handle.  Their
calls on the open file are taken to succeed.  A process that holds a handle uses
the semaphore as soon as the file has been extended: before that the access to
the mapping kills it.  The bytes the file is extended with are zero, and the lock
and the condition variable made of them are taken to work.

The name is there for other processes from the first step on.  A handle that is
returned before the last step belongs to a semaphore that is not initialised, and
the last step throws away what has been posted through it.
-/

namespace Libhelp

open Transition

/-- What `semaphore_create` does next. -/
inductive CreateStep where
  | openFile
  | truncate
  | map
  | initLock
  | initCond
  | setCount
  | created
  /-- The name existed already. -/
  | failed
  deriving DecidableEq

/-- The file under the name of the semaphore and the processes that use it. -/
structure SemaphoreFile (ι : Type*) where
  next : CreateStep
  present : Bool
  extended : Bool
  lockInit : Bool
  nonzeroInit : Bool
  countSet : Bool
  semaphore : Semaphore ι
  /-- The processes in `semaphore_open` that have found the file. -/
  opening : Finset ι
  /-- The processes to which `semaphore_open` has returned a handle. -/
  handles : Finset ι

inductive SemaphoreFileEvent (ι : Type*) where
  /-- The creator takes its next step. -/
  | create
  /-- `semaphore_open` looks the name up. -/
  | find (process : ι)
  /-- `semaphore_open` maps the file and returns the handle. -/
  | returns (process : ι)
  /-- A step of `semaphore_post` or `semaphore_wait`. -/
  | use (event : SemaphoreEvent ι)

/-- The process that takes a step. -/
def SemaphoreEvent.process {ι : Type*} : SemaphoreEvent ι → ι
  | .post process => process
  | .wait process => process
  | .resume process => process
  | .spurious process => process

namespace SemaphoreFile

variable {ι : Type*} [DecidableEq ι]

/-- Nobody has created the file. -/
def absent : SemaphoreFile ι :=
  ⟨.openFile, false, false, false, false, false, Semaphore.create, ∅, ∅⟩

/-- The next step of `semaphore_create`. -/
def semaphoreCreate (f : SemaphoreFile ι) : SemaphoreFile ι :=
  match f.next with
  | .openFile =>
      if f.present then
        { f with next := .failed }
      else
        { f with next := .truncate, present := true }
  | .truncate => { f with next := .map, extended := true }
  | .map => { f with next := .initLock }
  | .initLock => { f with next := .initCond, lockInit := true }
  | .initCond => { f with next := .setCount, nonzeroInit := true }
  | .setCount =>
      { f with next := .created, countSet := true, semaphore := { f.semaphore with count := 0 } }
  | .created => f
  | .failed => f

/-- `semaphore_open` returns `NULL` when there is no file. -/
def semaphoreFind (process : ι) (f : SemaphoreFile ι) : SemaphoreFile ι :=
  if f.present then { f with opening := insert process f.opening } else f

def semaphoreReturn (process : ι) (f : SemaphoreFile ι) : SemaphoreFile ι :=
  { f with opening := f.opening.erase process, handles := insert process f.handles }

def step (f : SemaphoreFile ι) : SemaphoreFileEvent ι → SemaphoreFile ι → Prop
  | .create, after => after = f.semaphoreCreate
  | .find process, after => after = f.semaphoreFind process
  | .returns process, after => process ∈ f.opening ∧ after = f.semaphoreReturn process
  | .use event, after =>
      f.extended ∧ event.process ∈ f.handles ∧
        ∃ semaphore, f.semaphore.step event semaphore ∧ after = { f with semaphore := semaphore }

def tally (f : SemaphoreFile ι) : SemaphoreFileEvent ι → Tally → Tally
  | .use event, tally => f.semaphore.tally event tally
  | _, tally => tally

/-- One `semaphore_create` among the calls of other processes, with the tally of these. -/
def system (ι : Type*) [DecidableEq ι] :
    System (SemaphoreFile ι × Tally) (SemaphoreFileEvent ι) :=
  System.recording ⟨fun f => f = absent, step⟩ ⟨0, 0⟩ tally

/-- What `semaphore_create` has to do before the semaphore can be used. -/
def Initialised (f : SemaphoreFile ι) : Prop :=
  f.extended ∧ f.lockInit ∧ f.nonzeroInit ∧ f.countSet

/-- `semaphore_open` returns after `semaphore_create` has. -/
def ReturnsLate (f : SemaphoreFile ι) : SemaphoreFileEvent ι → Prop
  | .returns _ => f.next = .created
  | _ => True

/-- What stands in the file when the creator has come to its next step. -/
structure Progress (f : SemaphoreFile ι) : Prop where
  countSet : f.countSet = true → f.next = .created
  extended : f.next ∈ [.map, .initLock, .initCond, .setCount, .created] → f.extended
  lockInit : f.next ∈ [.initCond, .setCount, .created] → f.lockInit
  nonzeroInit : f.next ∈ [.setCount, .created] → f.nonzeroInit
  created : f.next = .created → f.countSet

/-- Until the creator is done nobody has used the semaphore. -/
def Unused (f : SemaphoreFile ι) (tally : Tally) : Prop :=
  f.next = .created ∨ f.handles = ∅ ∧ f.semaphore.count = 0 ∧ tally = ⟨0, 0⟩

/-- What a step does. -/
inductive Does (f : SemaphoreFile ι) : SemaphoreFileEvent ι → SemaphoreFile ι → Prop where
  | creates : Does f .create f.semaphoreCreate
  | finds (process : ι) (opening : Finset ι) : Does f (.find process) { f with opening := opening }
  | returns (process : ι) : Does f (.returns process) (f.semaphoreReturn process)
  | uses (event : SemaphoreEvent ι) (semaphore : Semaphore ι) (handle : event.process ∈ f.handles)
      (stepped : f.semaphore.step event semaphore) :
      Does f (.use event) { f with semaphore := semaphore }

section Progress

variable {f after : SemaphoreFile ι} {event : SemaphoreFileEvent ι}

theorem step_does (stepped : f.step event after) : f.Does event after := by
  cases event with
  | create =>
      have same : after = f.semaphoreCreate := stepped
      rw [same]
      exact .creates
  | find process =>
      have same : after = f.semaphoreFind process := stepped
      rw [same, semaphoreFind]
      split
      · exact .finds process _
      · exact .finds process f.opening
  | returns process =>
      rcases stepped with ⟨-, rfl⟩
      exact .returns process
  | use event =>
      rcases stepped with ⟨-, handle, semaphore, stepped, rfl⟩
      exact .uses event semaphore handle stepped

omit [DecidableEq ι] in
theorem Progress.initialised (progress : f.Progress) (created : f.next = .created) :
    f.Initialised := by
  refine ⟨?_, ?_, ?_, progress.created created⟩
  · exact progress.extended (by simp [created])
  · exact progress.lockInit (by simp [created])
  · exact progress.nonzeroInit (by simp [created])

omit [DecidableEq ι] in
theorem Progress.semaphoreCreate (progress : f.Progress) : f.semaphoreCreate.Progress := by
  rcases progress with ⟨countSet, extended, lockInit, nonzeroInit, created⟩
  unfold SemaphoreFile.semaphoreCreate
  split
  case h_1 openFile =>
    split
    all_goals constructor <;> simp_all
  all_goals constructor <;> simp_all

/-- Only the creator moves on and writes the file. -/
theorem Progress.step (progress : f.Progress) (stepped : f.step event after) :
    after.Progress := by
  rcases progress with ⟨countSet, extended, lockInit, nonzeroInit, created⟩
  cases step_does stepped with
  | creates => exact Progress.semaphoreCreate ⟨countSet, extended, lockInit, nonzeroInit, created⟩
  | finds => exact ⟨countSet, extended, lockInit, nonzeroInit, created⟩
  | returns => exact ⟨countSet, extended, lockInit, nonzeroInit, created⟩
  | uses => exact ⟨countSet, extended, lockInit, nonzeroInit, created⟩

end Progress

section Account

variable {f after : SemaphoreFile ι} {event : SemaphoreFileEvent ι} {tally : Tally}

omit [DecidableEq ι] in
/-- While nobody has used the semaphore, setting the counter to zero changes nothing. -/
theorem Unused.semaphoreCreate (unused : f.Unused tally) :
    f.semaphoreCreate.Unused tally ∧
      f.semaphoreCreate.semaphore.count = f.semaphore.count := by
  unfold SemaphoreFile.semaphoreCreate
  split
  case h_1 =>
    split
    all_goals simp_all [Unused]
  case h_6 setCount =>
    rcases unused with created | ⟨-, zero, -⟩
    · simp [created] at setCount
    · exact ⟨Or.inl rfl, zero.symm⟩
  all_goals simp_all [Unused]

/-- Handles that are returned late keep the semaphore unused until it is created. -/
theorem Unused.step (unused : f.Unused tally) (late : f.ReturnsLate event)
    (stepped : f.step event after) : after.Unused (f.tally event tally) := by
  cases step_does stepped with
  | creates => exact unused.semaphoreCreate.1
  | finds => exact unused
  | returns => exact Or.inl late
  | uses event semaphore handle =>
      rcases unused with created | ⟨noHandles, -, -⟩
      · exact Or.inl created
      · simp [noHandles] at handle

theorem Unused.accounts (unused : f.Unused tally) (accounts : tally.Accounts f.semaphore.count)
    (stepped : f.step event after) : (f.tally event tally).Accounts after.semaphore.count := by
  cases step_does stepped with
  | creates =>
      rw [unused.semaphoreCreate.2]
      exact accounts
  | finds => exact accounts
  | returns => exact accounts
  | uses event semaphore handle used => exact Semaphore.accounts_step accounts used

end Account

omit [DecidableEq ι] in
theorem progress_absent : (absent : SemaphoreFile ι).Progress := by
  constructor <;> simp [absent]

/-- A handle that is returned before `semaphore_create` is done belongs to a semaphore that is
not initialised. -/
theorem early_handle {f after : SemaphoreFile ι} {tally tallied : Tally} {process : ι}
    (reachable : (system ι).Reachable (f, tally)) (early : ¬f.ReturnsLate (.returns process))
    (returned : (system ι).step (f, tally) (.returns process) (after, tallied)) :
    process ∈ after.handles ∧ ¬after.Initialised := by
  have progress : f.Progress := by
    apply reachable.invariant (I := fun s => s.1.Progress)
    · intro s starts
      have : s.1 = absent := starts.1
      rw [this]
      exact progress_absent
    · intro s event after progress stepped
      exact progress.step stepped.1
  rcases returned with ⟨⟨-, rfl⟩, -⟩
  refine ⟨Finset.mem_insert_self _ _, ?_⟩
  intro initialised
  exact early (progress.countSet initialised.2.2.2)

/-- A handle that is returned after `semaphore_create` belongs to an initialised semaphore, and
what is posted through it is there for the waits. -/
theorem late_handles_initialised {f : SemaphoreFile ι} {tally : Tally}
    (reachable : ((system ι).restrict fun s event => s.1.ReturnsLate event).Reachable (f, tally)) :
    (f.handles.Nonempty → f.Initialised) ∧ tally.waits ≤ tally.posts ∧
      f.semaphore.count.toNat = (tally.posts - tally.waits) % 2 ^ 32 := by
  have invariant : f.Progress ∧ f.Unused tally ∧ tally.Accounts f.semaphore.count := by
    apply reachable.invariant (I := fun s =>
      s.1.Progress ∧ s.1.Unused s.2 ∧ s.2.Accounts s.1.semaphore.count)
    · intro s starts
      rcases s with ⟨f, tally⟩
      rcases starts with ⟨isAbsent, zero⟩
      have : f = absent := isAbsent
      have : tally = ⟨0, 0⟩ := zero
      subst f tally
      exact ⟨progress_absent, Or.inr ⟨rfl, rfl, rfl⟩, 0, rfl⟩
    · intro s event after invariant stepped
      rcases invariant with ⟨progress, unused, accounts⟩
      rcases stepped with ⟨late, stepped, tallied⟩
      rw [tallied]
      exact ⟨progress.step stepped, unused.step late stepped, unused.accounts accounts stepped⟩
  rcases invariant with ⟨progress, unused, accounts⟩
  refine ⟨?_, accounts.waits_le, accounts.count_eq⟩
  intro handles
  rcases unused with created | ⟨noHandles, -, -⟩
  · exact progress.initialised created
  · simp [noHandles] at handles

theorem creating (steps : ℕ) :
    ((system ι).restrict fun s event => s.1.ReturnsLate event).Reachable
      (semaphoreCreate^[steps] absent, ⟨0, 0⟩) := by
  induction steps with
  | zero => exact .init ⟨rfl, rfl⟩
  | succ steps ih =>
      rw [Function.iterate_succ_apply']
      exact .step .create ih ⟨trivial, rfl, rfl⟩

theorem late_handles_initialised_post :
    ∃ f : SemaphoreFile ℕ, f.handles.Nonempty ∧ f.Initialised ∧ f.semaphore.count.toNat = 1 := by
  have found : ((system ℕ).restrict fun s event => s.1.ReturnsLate event).Reachable
      (⟨.created, true, true, true, true, true, .create, {0}, ∅⟩, ⟨0, 0⟩) :=
    .step (.find 0) (creating 6) ⟨trivial, rfl, rfl⟩
  have returned : ((system ℕ).restrict fun s event => s.1.ReturnsLate event).Reachable
      (⟨.created, true, true, true, true, true, .create, ∅, {0}⟩, ⟨0, 0⟩) :=
    .step (.returns 0) found ⟨rfl, ⟨Finset.mem_singleton_self 0, rfl⟩, rfl⟩
  have posted : ((system ℕ).restrict fun s event => s.1.ReturnsLate event).Reachable
      (⟨.created, true, true, true, true, true, ⟨1, ∅, ∅⟩, ∅, {0}⟩, ⟨1, 0⟩) :=
    .step (.use (.post 0)) returned ⟨trivial, ⟨rfl, Finset.mem_singleton_self 0, ⟨1, ∅, ∅⟩,
      ⟨⟨by decide, by decide⟩, .create, Semaphore.Signal.nobody rfl, rfl⟩, rfl⟩, rfl⟩
  have handles : ({0} : Finset ℕ).Nonempty := Finset.singleton_nonempty 0
  rcases late_handles_initialised posted with ⟨initialised, -, count⟩
  exact ⟨_, handles, initialised handles, count⟩

/-- A handle is returned as soon as the name exists.  One that is returned before the counter is
set loses its post. -/
theorem early_handle_loses_post :
    (∃ f tally, (system ℕ).Reachable (f, tally) ∧ f.handles.Nonempty ∧ ¬f.Initialised) ∧
      ∃ f tally, (system ℕ).Reachable (f, tally) ∧
        f.semaphore.count.toNat ≠ (tally.posts - tally.waits) % 2 ^ 32 := by
  constructor
  · have found : (system ℕ).Reachable
        (⟨.truncate, true, false, false, false, false, .create, {0}, ∅⟩, ⟨0, 0⟩) :=
      .step (.find 0) (creating 1).of_restrict ⟨rfl, rfl⟩
    have returned : (system ℕ).Reachable
        (⟨.truncate, true, false, false, false, false, .create, ∅, {0}⟩, ⟨0, 0⟩) :=
      .step (.returns 0) found ⟨⟨Finset.mem_singleton_self 0, rfl⟩, rfl⟩
    refine ⟨_, _, returned, Finset.singleton_nonempty 0, ?_⟩
    intro initialised
    exact absurd initialised.1 (by decide)
  · have found : (system ℕ).Reachable
        (⟨.setCount, true, true, true, true, false, .create, {0}, ∅⟩, ⟨0, 0⟩) :=
      .step (.find 0) (creating 5).of_restrict ⟨rfl, rfl⟩
    have returned : (system ℕ).Reachable
        (⟨.setCount, true, true, true, true, false, .create, ∅, {0}⟩, ⟨0, 0⟩) :=
      .step (.returns 0) found ⟨⟨Finset.mem_singleton_self 0, rfl⟩, rfl⟩
    have posted : (system ℕ).Reachable
        (⟨.setCount, true, true, true, true, false, ⟨1, ∅, ∅⟩, ∅, {0}⟩, ⟨1, 0⟩) :=
      .step (.use (.post 0)) returned ⟨⟨rfl, Finset.mem_singleton_self 0, ⟨1, ∅, ∅⟩,
        ⟨⟨by decide, by decide⟩, .create, Semaphore.Signal.nobody rfl, rfl⟩, rfl⟩, rfl⟩
    have counted : (system ℕ).Reachable
        (⟨.created, true, true, true, true, true, ⟨0, ∅, ∅⟩, ∅, {0}⟩, ⟨1, 0⟩) :=
      .step .create posted ⟨rfl, rfl⟩
    exact ⟨_, _, counted, by decide⟩

end SemaphoreFile

end Libhelp

import Libhelp.Lib.Transition
import Libhelp.Lockrun.Options
import Mathlib.Data.Set.Function

/-!
# The lock of `lockrun`

The model of `main` of `lockrun` behind its command line, for any number of processes on
any number of lock files.  A lock that `lockf` gives belongs to one process; a child does
not inherit it, and it goes when its owner closes the file or dies, however that happens.

So a lock is always owned by a live `lockrun` that has taken it, and a child with a live
`lockrun` is the one that it waits for.
-/

namespace Libhelp

open CString Transition

namespace Lockrun

/-- How far a `lockrun` has come. -/
inductive Stage (π φ : Type*) where
  /-- before `open` -/
  | opening
  /-- before the next `lockf` -/
  | trying (lfd : φ) (attempts : ℕ)
  | sleeping (lfd : φ) (attempts : ℕ)
  /-- before `fork` -/
  | locked (lfd : φ)
  /-- in `waitpid` -/
  | waiting (lfd : φ) (childpid : π)
  /-- before `exit`, with the lock or without -/
  | ending (lock : Option φ) (rc : ℤ)
  deriving DecidableEq

/-- How far a child has come. -/
inductive Task (φ : Type*) where
  /-- before `close(lfd)` -/
  | forked (lfd : φ)
  /-- before `execvp` -/
  | detached
  | command
  /-- a zombie, with its exit status unless a signal has killed it -/
  | ended (exitstatus : Option UInt8)
  deriving DecidableEq

/-- A child whose `lockrun` is dead has no parent here. -/
inductive Process (π φ : Type*) where
  | lockrun (settings : Settings) (stage : Stage π φ)
  | child (parent : Option π) (lockfile : Bytes) (task : Task φ)
  deriving DecidableEq

/-- The processes, the owners of the locks, and the files that there are. -/
structure Machine (π φ : Type*) where
  process : π → Option (Process π φ)
  owner : φ → Option π
  inode : Bytes → Option φ

/-- What happens to a process or to a lock file. -/
inductive Event (π φ : Type*) where
  | launches (pid : π) (argv0 : Bytes) (args : List Bytes)
  | opens (pid : π) (file : φ)
  | failsToOpen (pid : π)
  | locks (pid : π)
  /-- `lockf` does not give the lock, for any reason. -/
  | isRefused (pid : π)
  | wakes (pid : π)
  | forks (pid child : π)
  | failsToFork (pid : π)
  | closes (pid : π)
  | executes (pid : π)
  /-- The child exits with the value of `rc`, which nothing has set. -/
  | failsToExecute (pid : π) (rc : UInt8)
  | ends (pid : π) (exitstatus : Option UInt8)
  /-- A child goes whose status nobody asks for. -/
  | vanishes (pid : π)
  | reaps (pid : π)
  /-- `waitpid` fails, the child having gone by itself. -/
  | hasNoChild (pid : π)
  | exits (pid : π)
  | isKilled (pid : π)
  /-- Somebody else removes the lock file, or puts another file in its place. -/
  | isReplaced (lockfile : Bytes) (file : Option φ)

/-- What becomes of a `lockrun` that does not get the lock. -/
def refusal {π φ : Type*} (settings : Settings) (lfd : φ) (attempts : ℕ) : Stage π φ :=
  let attempts := attempts + 1
  if ¬settings.waitForLock then
    .ending none (if settings.quiet then 0 else 1)
  else if settings.retries > 0 ∧ (attempts : ℤ) ≥ settings.retries then
    .ending none 1
  else
    .sleeping lfd attempts

/-- The status of a child in the status of its `lockrun`. -/
def exitCode : Option UInt8 → ℤ
  | some status => status.toNat
  | none => 1

namespace Process

variable {π φ : Type*}

/-- The file whose lock a process relies on. -/
def lock : Process π φ → Option φ
  | .lockrun _ (.locked lfd) => some lfd
  | .lockrun _ (.waiting lfd _) => some lfd
  | .lockrun _ (.ending lock _) => lock
  | _ => none

/-- The file that a `lockrun` has open and may yet lock, or has locked. -/
def opened : Process π φ → Option φ
  | .lockrun _ (.trying lfd _) => some lfd
  | .lockrun _ (.sleeping lfd _) => some lfd
  | process => process.lock

def childpid : Process π φ → Option π
  | .lockrun _ (.waiting _ childpid) => some childpid
  | _ => none

def parent : Process π φ → Option π
  | .child parent _ _ => parent
  | _ => none

/-- The name of the lock file that a process has been started with. -/
def lockfile : Process π φ → Option Bytes
  | .lockrun settings _ => settings.lockfile
  | .child _ lockfile _ => some lockfile

def IsOrphan : Process π φ → Prop
  | .child parent _ _ => parent = none
  | .lockrun _ _ => False

/-- A `lockrun` comes back to a lock only with `--wait`, and not more often than it may. -/
def Patient : Process π φ → Prop
  | .lockrun settings (.trying _ attempts) =>
      attempts ≠ 0 → settings.waitForLock ∧ (settings.retries > 0 → attempts < settings.retries)
  | .lockrun settings (.sleeping _ attempts) =>
      settings.waitForLock ∧ (settings.retries > 0 → attempts < settings.retries)
  | _ => True

def abandon [DecidableEq π] (pid : π) : Process π φ → Process π φ
  | .child parent lockfile task =>
      .child (if parent = some pid then none else parent) lockfile task
  | process => process

section Refusal

theorem refusal_patient (settings : Settings) (lfd : φ) (attempts : ℕ) :
    (lockrun settings (refusal settings lfd attempts) : Process π φ).Patient := by
  simp only [refusal]
  split
  · trivial
  case isFalse waits =>
    split
    · trivial
    case isFalse permitted =>
      refine ⟨not_not.mp waits, fun limited => ?_⟩
      push_cast at permitted ⊢
      omega

/-- A process that does not get the lock goes back to it, or leaves without it. -/
theorem refusal_views (settings : Settings) (lfd : φ) (attempts : ℕ) {process : Process π φ}
    (isRefused : process = .lockrun settings (refusal settings lfd attempts)) :
    process.lock = none ∧ process.childpid = none ∧
      (process.opened = none ∨ process.opened = some lfd) := by
  subst isRefused
  simp only [refusal]
  split
  · exact ⟨rfl, rfl, .inl rfl⟩
  · split
    · exact ⟨rfl, rfl, .inl rfl⟩
    · exact ⟨rfl, rfl, .inr rfl⟩

end Refusal

end Process

namespace Machine

variable {π φ : Type*} [DecidableEq π]

def start (inode : Bytes → Option φ) : Machine π φ :=
  ⟨fun _ => none, fun _ => none, inode⟩

def put (m : Machine π φ) (pid : π) (process : Process π φ) : Machine π φ :=
  { m with process := Function.update m.process pid (some process) }

/-- A process is gone, its files are closed and its children have no parent. -/
def remove (m : Machine π φ) (pid : π) : Machine π φ where
  process := Function.update (fun other => (m.process other).map (Process.abandon pid)) pid none
  owner file := if m.owner file = some pid then none else m.owner file
  inode := m.inode

/-- A process closes a file, and has no lock on it any more. -/
def close [DecidableEq φ] (m : Machine π φ) (pid : π) (file : φ) : Machine π φ :=
  { m with owner := fun other =>
      if other = file ∧ m.owner file = some pid then none else m.owner other }

/-- The steps of the processes. -/
inductive Step [DecidableEq φ] (m : Machine π φ) : Event π φ → Machine π φ → Prop where
  | launches {pid : π} {argv0 : Bytes} {args : List Bytes} {settings : Settings}
      {argv : List Bytes} (free : m.process pid = none)
      (accepted : cmdline argv0 args = .command settings argv) :
      Step m (.launches pid argv0 args) (m.put pid (.lockrun settings .opening))
  | opens {pid : π} {settings : Settings} {lockfile : Bytes} {file : φ}
      (isHere : m.process pid = some (.lockrun settings .opening))
      (isLockfile : settings.lockfile = some lockfile) (present : m.inode lockfile = some file) :
      Step m (.opens pid file) (m.put pid (.lockrun settings (.trying file 0)))
  | creates {pid : π} {settings : Settings} {lockfile : Bytes} {file : φ}
      (isHere : m.process pid = some (.lockrun settings .opening))
      (isLockfile : settings.lockfile = some lockfile) (absent : m.inode lockfile = none)
      (unnamed : ∀ name, m.inode name ≠ some file)
      (unused : ∀ other process, m.process other = some process → process.opened ≠ some file) :
      Step m (.opens pid file)
        ({ m with inode := Function.update m.inode lockfile (some file) }.put pid
          (.lockrun settings (.trying file 0)))
  | failsToOpen {pid : π} {settings : Settings}
      (isHere : m.process pid = some (.lockrun settings .opening)) :
      Step m (.failsToOpen pid) (m.put pid (.lockrun settings (.ending none 1)))
  | locks {pid : π} {settings : Settings} {lfd : φ} {attempts : ℕ}
      (isHere : m.process pid = some (.lockrun settings (.trying lfd attempts)))
      (free : m.owner lfd = none) :
      Step m (.locks pid)
        ({ m with owner := Function.update m.owner lfd (some pid) }.put pid
          (.lockrun settings (.locked lfd)))
  | isRefused {pid : π} {settings : Settings} {lfd : φ} {attempts : ℕ}
      (isHere : m.process pid = some (.lockrun settings (.trying lfd attempts))) :
      Step m (.isRefused pid) (m.put pid (.lockrun settings (refusal settings lfd attempts)))
  | wakes {pid : π} {settings : Settings} {lfd : φ} {attempts : ℕ}
      (isHere : m.process pid = some (.lockrun settings (.sleeping lfd attempts))) :
      Step m (.wakes pid) (m.put pid (.lockrun settings (.trying lfd attempts)))
  | forks {pid child : π} {settings : Settings} {lfd : φ} {lockfile : Bytes}
      (isHere : m.process pid = some (.lockrun settings (.locked lfd)))
      (isLockfile : settings.lockfile = some lockfile) (free : m.process child = none) :
      Step m (.forks pid child)
        ((m.put pid (.lockrun settings (.waiting lfd child))).put child
          (.child (some pid) lockfile (.forked lfd)))
  | failsToFork {pid : π} {settings : Settings} {lfd : φ}
      (isHere : m.process pid = some (.lockrun settings (.locked lfd))) :
      Step m (.failsToFork pid) (m.put pid (.lockrun settings (.ending (some lfd) 1)))
  | closes {pid : π} {parent : Option π} {lockfile : Bytes} {lfd : φ}
      (isHere : m.process pid = some (.child parent lockfile (.forked lfd))) :
      Step m (.closes pid) ((m.close pid lfd).put pid (.child parent lockfile .detached))
  | executes {pid : π} {parent : Option π} {lockfile : Bytes}
      (isHere : m.process pid = some (.child parent lockfile .detached)) :
      Step m (.executes pid) (m.put pid (.child parent lockfile .command))
  | failsToExecute {pid : π} {parent : Option π} {lockfile : Bytes} {rc : UInt8}
      (isHere : m.process pid = some (.child parent lockfile .detached)) :
      Step m (.failsToExecute pid rc) (m.put pid (.child parent lockfile (.ended (some rc))))
  | ends {pid : π} {parent : Option π} {lockfile : Bytes} {task : Task φ}
      {exitstatus : Option UInt8} (isHere : m.process pid = some (.child parent lockfile task))
      (running : ∀ exitstatus, task ≠ .ended exitstatus) :
      Step m (.ends pid exitstatus) (m.put pid (.child parent lockfile (.ended exitstatus)))
  | vanishes {pid : π} {parent : Option π} {lockfile : Bytes} {task : Task φ}
      (isHere : m.process pid = some (.child parent lockfile task))
      (unwanted : parent = none ∨ ∀ exitstatus, task ≠ .ended exitstatus) :
      Step m (.vanishes pid) (m.remove pid)
  | reaps {pid child : π} {settings : Settings} {lfd : φ} {lockfile : Bytes}
      {exitstatus : Option UInt8}
      (isHere : m.process pid = some (.lockrun settings (.waiting lfd child)))
      (hasEnded : m.process child = some (.child (some pid) lockfile (.ended exitstatus))) :
      Step m (.reaps pid)
        ((m.remove child).put pid (.lockrun settings (.ending (some lfd) (exitCode exitstatus))))
  | hasNoChild {pid child : π} {settings : Settings} {lfd : φ}
      (isHere : m.process pid = some (.lockrun settings (.waiting lfd child)))
      (isGone : ∀ lockfile task,
        m.process child ≠ some (.child (some pid) lockfile task)) :
      Step m (.hasNoChild pid) (m.put pid (.lockrun settings (.ending (some lfd) 0)))
  | exits {pid : π} {settings : Settings} {lock : Option φ} {rc : ℤ}
      (isHere : m.process pid = some (.lockrun settings (.ending lock rc))) :
      Step m (.exits pid) (m.remove pid)
  | isKilled {pid : π} {settings : Settings} {stage : Stage π φ}
      (isHere : m.process pid = some (.lockrun settings stage)) :
      Step m (.isKilled pid) (m.remove pid)
  | isReplaced {lockfile : Bytes} {file : Option φ} :
      Step m (.isReplaced lockfile file)
        { m with inode := Function.update m.inode lockfile file }

/-- Any number of processes, on the files that there are at the start. -/
def system [DecidableEq φ] (inode : Bytes → Option φ) : System (Machine π φ) (Event π φ) :=
  ⟨fun m => m = start inode, Step⟩

/-- What a process shows of itself. -/
def sees {α : Type*} (m : Machine π φ) (view : Process π φ → Option α) (pid : π) : Option α :=
  (m.process pid).bind view

/-- A lock is owned by the `lockrun` that relies on it, and every child that has a parent is
the one its parent waits for. -/
structure Coherent (m : Machine π φ) : Prop where
  owned : ∀ file pid, m.owner file = some pid ↔ m.sees Process.lock pid = some file
  awaited : ∀ child pid, m.sees Process.parent child = some pid →
    m.sees Process.childpid pid = some child ∧
      m.sees Process.lockfile child = m.sees Process.lockfile pid
  patient : ∀ pid process, m.process pid = some process → process.Patient

variable {m after : Machine π φ} {pid other : π} {process : Process π φ}

section Views

variable {α : Type*} {view : Process π φ → Option α}

theorem process_put : (m.put pid process).process other =
    if other = pid then some process else m.process other :=
  Function.update_apply _ _ _ _

theorem process_remove : (m.remove pid).process other =
    if other = pid then none else (m.process other).map (Process.abandon pid) := by
  simp only [remove, Function.update_apply]

theorem sees_put : (m.put pid process).sees view other =
    if other = pid then view process else m.sees view other := by
  rw [sees, process_put]
  split <;> rfl

theorem sees_remove (steady : ∀ process, view (process.abandon pid) = view process) :
    (m.remove pid).sees view other = if other = pid then none else m.sees view other := by
  rw [sees, process_remove]
  split
  · rfl
  · rw [Option.bind_map]
    exact congrArg (m.process other).bind (funext steady)

omit [DecidableEq π] in
theorem process_ne {here there : Option (Process π φ)} (isHere : m.process pid = here)
    (isThere : m.process other = there) (differ : here ≠ there) : pid ≠ other := by
  rintro rfl
  exact differ (isHere.symm.trans isThere)

omit [DecidableEq π] in
theorem sees_of (isHere : m.process pid = some process) : m.sees view pid = view process := by
  rw [sees, isHere]
  rfl

omit [DecidableEq π] in
theorem sees_of_free (free : m.process pid = none) : m.sees view pid = none := by
  rw [sees, free]
  rfl

theorem abandon_steady (process : Process π φ) :
    (process.abandon pid).lock = process.lock ∧ (process.abandon pid).opened = process.opened ∧
      (process.abandon pid).childpid = process.childpid ∧
        (process.abandon pid).lockfile = process.lockfile := by
  cases process <;> exact ⟨rfl, rfl, rfl, rfl⟩

theorem sees_parent_remove : (m.remove pid).sees Process.parent other =
    if other = pid then none else (m.sees Process.parent other).filter (· ≠ pid) := by
  rw [sees, process_remove]
  split
  · rfl
  · rw [sees]
    cases m.process other with
    | none => rfl
    | some process =>
        cases process with
        | lockrun settings stage => rfl
        | child parent lockfile task =>
            cases parent with
            | none => rfl
            | some parent =>
                by_cases isPid : parent = pid <;>
                  simp [Process.abandon, Process.parent, isPid, Option.filter]

omit [DecidableEq π] in
theorem child_of_parent {child : π} (isParent : m.sees Process.parent child = some pid) :
    ∃ lockfile task, m.process child = some (.child (some pid) lockfile task) := by
  rcases Option.bind_eq_some_iff.mp isParent with ⟨process, isHere, isParent⟩
  cases process with
  | lockrun settings stage => cases isParent
  | child parent lockfile task =>
      cases isParent
      exact ⟨lockfile, task, isHere⟩

end Views

section Coherence

/-- A process changes, and it may get a lock: its parent and its child are still the ones for
it. -/
theorem Coherent.put_owner (coherent : m.Coherent) {owner : φ → Option π}
    (owned : ∀ file other, owner file = some other ↔
      (if other = pid then process.lock else m.sees Process.lock other) = some file)
    (children : ∀ child, m.sees Process.parent child = some pid → child ≠ pid →
      process.childpid = some child ∧ m.sees Process.lockfile child = process.lockfile)
    (hasParent : ∀ parent, process.parent = some parent → parent ≠ pid ∧
      m.sees Process.childpid parent = some pid ∧
        process.lockfile = m.sees Process.lockfile parent)
    (patient : process.Patient) : ({ m with owner := owner }.put pid process).Coherent where
  owned file other := by
    rw [sees_put]
    exact owned file other
  awaited child parent isParent := by
    rw [sees_put] at isParent
    rw [sees_put, sees_put, sees_put]
    by_cases isChild : child = pid
    · rw [if_pos isChild] at isParent ⊢
      rcases hasParent parent isParent with ⟨differs, waits, sameName⟩
      rw [if_neg differs, if_neg differs, isChild]
      exact ⟨waits, sameName⟩
    · rw [if_neg isChild] at isParent ⊢
      by_cases isHere : parent = pid
      · subst isHere
        rw [if_pos rfl, if_pos rfl]
        exact children child isParent isChild
      · rw [if_neg isHere, if_neg isHere]
        exact coherent.awaited child parent isParent
  patient other process' isHere := by
    rw [process_put] at isHere
    split at isHere
    · cases isHere
      exact patient
    · exact coherent.patient other process' isHere

/-- A process changes that keeps its lock. -/
theorem Coherent.put (coherent : m.Coherent) (sameLock : process.lock = m.sees Process.lock pid)
    (children : ∀ child, m.sees Process.parent child = some pid → child ≠ pid →
      process.childpid = some child ∧ m.sees Process.lockfile child = process.lockfile)
    (hasParent : ∀ parent, process.parent = some parent → parent ≠ pid ∧
      m.sees Process.childpid parent = some pid ∧
        process.lockfile = m.sees Process.lockfile parent)
    (patient : process.Patient) : (m.put pid process).Coherent := by
  apply coherent.put_owner _ children hasParent patient
  intro file other
  split
  case isTrue same =>
    rw [same, sameLock]
    exact coherent.owned file pid
  case isFalse => exact coherent.owned file other

omit [DecidableEq π] in
theorem Coherent.relations {process' : Process π φ} (coherent : m.Coherent)
    (isHere : m.process pid = some process) (childpid : process'.childpid = process.childpid)
    (parent : process'.parent = process.parent) (lockfile : process'.lockfile = process.lockfile) :
    (∀ child, m.sees Process.parent child = some pid → child ≠ pid →
      process'.childpid = some child ∧ m.sees Process.lockfile child = process'.lockfile) ∧
    (∀ parent, process'.parent = some parent → parent ≠ pid ∧
      m.sees Process.childpid parent = some pid ∧
        process'.lockfile = m.sees Process.lockfile parent) := by
  constructor
  · intro child isParent _
    have waits := coherent.awaited child pid isParent
    rwa [sees_of isHere, sees_of isHere, ← childpid, ← lockfile] at waits
  · intro other isParent
    rw [parent] at isParent
    have waits := coherent.awaited pid other ((sees_of isHere).trans isParent)
    refine ⟨?_, waits.1, ?_⟩
    · rintro rfl
      rw [sees_of isHere] at waits
      cases process with
      | lockrun settings stage => cases isParent
      | child parent lockfile task => cases waits.1
    · rw [lockfile, ← (sees_of isHere : m.sees Process.lockfile _ = _), waits.2]

theorem Coherent.put_same {process' : Process π φ} (coherent : m.Coherent)
    (isHere : m.process pid = some process) (lock : process'.lock = process.lock)
    (childpid : process'.childpid = process.childpid) (parent : process'.parent = process.parent)
    (lockfile : process'.lockfile = process.lockfile) (patient : process'.Patient) :
    (m.put pid process').Coherent := by
  rcases coherent.relations isHere childpid parent lockfile with ⟨children, hasParent⟩
  exact coherent.put (lock.trans (sees_of isHere).symm) children hasParent patient

theorem Coherent.remove (coherent : m.Coherent) (pid : π) : (m.remove pid).Coherent where
  owned file other := by
    rw [sees_remove fun process => (abandon_steady process).1]
    show (if m.owner file = some pid then none else m.owner file) = some other ↔ _
    by_cases isOwner : m.owner file = some pid
    · rw [if_pos isOwner]
      constructor
      · intro absurd
        cases absurd
      · intro holds
        split at holds
        · cases holds
        · have owns := (coherent.owned file other).mpr holds
          rw [isOwner] at owns
          cases owns
          contradiction
    · rw [if_neg isOwner, coherent.owned file other]
      split
      case isTrue same =>
        subst same
        exact iff_of_false (fun holds => isOwner ((coherent.owned file other).mpr holds))
          (by simp)
      case isFalse => rfl
  awaited child parent isParent := by
    rw [sees_parent_remove] at isParent
    rw [sees_remove fun process => (abandon_steady process).2.2.1,
      sees_remove fun process => (abandon_steady process).2.2.2,
      sees_remove fun process => (abandon_steady process).2.2.2]
    split at isParent
    case isTrue => cases isParent
    case isFalse notChild =>
      rcases Option.filter_eq_some_iff.mp isParent with ⟨isParent, notPid⟩
      have differs : parent ≠ pid := by simpa using notPid
      rw [if_neg differs, if_neg differs, if_neg notChild]
      exact coherent.awaited child parent isParent
  patient other process' isHere := by
    by_cases same : other = pid
    · subst same
      rw [process_remove, if_pos rfl] at isHere
      cases isHere
    · rw [process_remove, if_neg same] at isHere
      rcases Option.map_eq_some_iff.mp isHere with ⟨process, wasHere, rfl⟩
      have patient := coherent.patient other process wasHere
      cases process <;> exact patient

omit [DecidableEq π] in
theorem Coherent.inode (coherent : m.Coherent) (inode : Bytes → Option φ) :
    Coherent { m with inode := inode } :=
  ⟨coherent.owned, coherent.awaited, coherent.patient⟩

/-- A lock that is free is given to a process that has no other one. -/
theorem Coherent.lock {file : φ} {process' : Process π φ} (coherent : m.Coherent)
    [DecidableEq φ] (free : m.owner file = none) (isHere : m.process pid = some process)
    (without : process.lock = none) (lock : process'.lock = some file)
    (childpid : process'.childpid = process.childpid) (parent : process'.parent = process.parent)
    (lockfile : process'.lockfile = process.lockfile) (patient : process'.Patient) :
    ({ m with owner := Function.update m.owner file (some pid) }.put pid process').Coherent := by
  rcases coherent.relations isHere childpid parent lockfile with ⟨children, hasParent⟩
  apply coherent.put_owner _ children hasParent patient
  intro other holder
  rw [Function.update_apply]
  split
  case isTrue same =>
    subst same
    split
    case isTrue isPid => exact iff_of_true (by rw [isPid]) lock
    case isFalse differs =>
      apply iff_of_false
      · intro isPid
        cases isPid
        contradiction
      · intro holds
        rw [← coherent.owned, free] at holds
        cases holds
  case isFalse differs =>
    rw [coherent.owned]
    split
    case isTrue isPid =>
      subst isPid
      rw [sees_of isHere, without, lock]
      constructor
      · intro holds
        cases holds
      · intro holds
        cases holds
        contradiction
    case isFalse => rfl

omit [DecidableEq π] in
theorem Coherent.no_child (coherent : m.Coherent) (idle : m.sees Process.childpid pid = none)
    (child : π) : m.sees Process.parent child ≠ some pid := by
  intro isParent
  rw [(coherent.awaited child pid isParent).1] at idle
  cases idle

theorem Coherent.fork {settings : Settings} {lfd : φ} {child : π} {lockfile : Bytes}
    (coherent : m.Coherent) (isHere : m.process pid = some (.lockrun settings (.locked lfd)))
    (isLockfile : settings.lockfile = some lockfile) (free : m.process child = none) :
    ((m.put pid (.lockrun settings (.waiting lfd child))).put child
      (.child (some pid) lockfile (.forked lfd))).Coherent := by
  have differs : pid ≠ child := process_ne isHere free (Option.some_ne_none _)
  have waits : (m.put pid (.lockrun settings (.waiting lfd child))).Coherent := by
    apply coherent.put
    · exact (sees_of isHere : m.sees Process.lock _ = _).symm
    · intro other isParent
      exact absurd isParent (coherent.no_child (sees_of isHere) other)
    · intro parent isParent
      cases isParent
    · trivial
  have stillFree : (m.put pid (.lockrun settings (.waiting lfd child))).process child = none := by
    rw [process_put, if_neg differs.symm, free]
  apply waits.put
  · exact (sees_of_free stillFree).symm
  · intro other isParent
    exact absurd isParent (waits.no_child (sees_of_free stillFree) other)
  · intro parent isParent
    cases isParent
    rw [sees_put, sees_put, if_pos rfl, if_pos rfl]
    exact ⟨differs, rfl, isLockfile.symm⟩
  · trivial

theorem Coherent.reap {settings : Settings} {lfd : φ} {child : π} {lockfile : Bytes}
    {task : Task φ} {rc : ℤ} (coherent : m.Coherent)
    (isHere : m.process pid = some (.lockrun settings (.waiting lfd child)))
    (isChild : m.process child = some (.child (some pid) lockfile task)) :
    ((m.remove child).put pid (.lockrun settings (.ending (some lfd) rc))).Coherent := by
  have differs : pid ≠ child := process_ne isHere isChild nofun
  have removed := coherent.remove child
  apply removed.put
  · rw [sees_remove fun process => (abandon_steady process).1, if_neg differs, sees_of isHere]
    rfl
  · intro other isParent _
    rw [sees_parent_remove] at isParent
    split at isParent
    case isTrue => cases isParent
    case isFalse notChild =>
      rcases Option.filter_eq_some_iff.mp isParent with ⟨isParent, -⟩
      have waits := (coherent.awaited other pid isParent).1
      rw [sees_of isHere] at waits
      cases waits
      contradiction
  · intro parent isParent
    cases isParent
  · trivial

/-- A child that closes the lock file has no lock to lose. -/
theorem Coherent.close_eq [DecidableEq φ] {file : φ} (coherent : m.Coherent)
    (isHere : m.process pid = some process) (without : process.lock = none) :
    m.close pid file = m := by
  have same : (fun other => if other = file ∧ m.owner file = some pid then none
      else m.owner other) = m.owner := by
    funext other
    apply if_neg
    rintro ⟨-, owns⟩
    rw [coherent.owned, sees_of isHere, without] at owns
    cases owns
  rw [close, same]

theorem Coherent.step [DecidableEq φ] {event : Event π φ} (coherent : m.Coherent)
    (stepped : Step m event after) : after.Coherent := by
  cases stepped with
  | launches free accepted =>
      apply coherent.put
      · exact (sees_of_free free : m.sees Process.lock _ = _).symm
      · intro child isParent
        exact absurd isParent (coherent.no_child (sees_of_free free) child)
      · intro parent isParent
        cases isParent
      · trivial
  | opens isHere isLockfile present =>
      exact coherent.put_same isHere rfl rfl rfl rfl fun positive => absurd rfl positive
  | creates isHere isLockfile absent unnamed unused =>
      exact (coherent.inode _).put_same isHere rfl rfl rfl rfl fun positive => absurd rfl positive
  | failsToOpen isHere => exact coherent.put_same isHere rfl rfl rfl rfl trivial
  | locks isHere free => exact coherent.lock free isHere rfl rfl rfl rfl rfl trivial
  | isRefused isHere =>
      rcases Process.refusal_views _ _ _ rfl with ⟨noLock, noChild, -⟩
      exact coherent.put_same isHere noLock noChild rfl rfl (Process.refusal_patient _ _ _)
  | wakes isHere =>
      exact coherent.put_same isHere rfl rfl rfl rfl fun _ => coherent.patient _ _ isHere
  | forks isHere isLockfile free => exact coherent.fork isHere isLockfile free
  | failsToFork isHere => exact coherent.put_same isHere rfl rfl rfl rfl trivial
  | closes isHere =>
      rw [coherent.close_eq isHere rfl]
      exact coherent.put_same isHere rfl rfl rfl rfl trivial
  | executes isHere => exact coherent.put_same isHere rfl rfl rfl rfl trivial
  | failsToExecute isHere => exact coherent.put_same isHere rfl rfl rfl rfl trivial
  | ends isHere running => exact coherent.put_same isHere rfl rfl rfl rfl trivial
  | vanishes isHere unwanted => exact coherent.remove _
  | reaps isHere hasEnded => exact coherent.reap isHere hasEnded
  | hasNoChild isHere isGone =>
      apply coherent.put
      · exact (sees_of isHere : m.sees Process.lock _ = _).symm
      · intro other isParent
        have waits := (coherent.awaited other _ isParent).1
        rw [sees_of isHere] at waits
        cases waits
        rcases child_of_parent isParent with ⟨lockfile, task, isChild⟩
        exact absurd isChild (isGone lockfile task)
      · intro parent isParent
        cases isParent
      · trivial
  | exits isHere => exact coherent.remove _
  | isKilled isHere => exact coherent.remove _
  | isReplaced => exact coherent.inode _

omit [DecidableEq π] in
/-- A child that has a parent has one that waits for it, with the lock. -/
theorem Coherent.held {parent : π} {lockfile : Bytes} {task : Task φ} (coherent : m.Coherent)
    (isHere : m.process pid = some (.child (some parent) lockfile task)) :
    ∃ settings file, m.process parent = some (.lockrun settings (.waiting file pid)) ∧
      settings.lockfile = some lockfile ∧ m.owner file = some parent := by
  rcases coherent.awaited pid parent (sees_of isHere) with ⟨waits, sameName⟩
  rcases Option.bind_eq_some_iff.mp waits with ⟨process, isThere, isChild⟩
  rw [sees_of isHere, sees_of isThere] at sameName
  cases process with
  | child => cases isChild
  | lockrun settings stage =>
      cases stage with
      | waiting lfd childpid =>
          cases isChild
          refine ⟨settings, lfd, isThere, sameName.symm, ?_⟩
          rw [coherent.owned, sees_of isThere]
          rfl
      | _ => cases isChild

end Coherence

end Machine

end Lockrun

end Libhelp

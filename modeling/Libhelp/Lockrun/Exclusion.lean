import Libhelp.Lockrun.Lock

/-!
# One command at a time

No lock is left over from a `lockrun` that has been killed.  But its child is, which may not
have started the command yet: the next `lockrun` then starts another one beside it.  Apart
from that, and from lock files that are removed while they are in use, commands with one
lock file run one at a time.
-/

namespace Libhelp

open CString Transition

namespace Lockrun

namespace Machine

variable {π φ : Type*} [DecidableEq π]

/-- Nobody kills a `lockrun` that has forked and has not yet come back from `waitpid`, and no lock
file that a `lockrun` has open gets removed or replaced. -/
def Undisturbed (m : Machine π φ) : Event π φ → Prop
  | .isKilled pid => m.sees Process.childpid pid = none
  | .isReplaced lockfile _ => ∀ pid, m.sees Process.opened pid ≠ none →
      m.sees Process.lockfile pid ≠ some lockfile
  | _ => True

/-- Every file that is open still has the name that it has been opened by, and no child has
been left alone. -/
structure Kept (m : Machine π φ) : Prop where
  named : ∀ pid file, m.sees Process.opened pid = some file →
    ∃ lockfile, m.sees Process.lockfile pid = some lockfile ∧ m.inode lockfile = some file
  cared : ∀ pid process, m.process pid = some process → ¬process.IsOrphan

variable {m after : Machine π φ} {pid other : π} {process : Process π φ}

section Names

theorem Kept.put (kept : m.Kept)
    (named : ∀ file, process.opened = some file →
      ∃ lockfile, process.lockfile = some lockfile ∧ m.inode lockfile = some file)
    (cared : ¬process.IsOrphan) :
    (m.put pid process).Kept where
  named other file isOpen := by
    rw [sees_put] at isOpen ⊢
    split at isOpen
    case isTrue same =>
      rw [if_pos same]
      exact named file isOpen
    case isFalse differs =>
      rw [if_neg differs]
      exact kept.named other file isOpen
  cared other process' isHere := by
    rw [process_put] at isHere
    split at isHere
    · cases isHere
      exact cared
    · exact kept.cared other process' isHere

/-- A process changes that opens no file. -/
theorem Kept.put_same {process' : Process π φ} (kept : m.Kept)
    (isHere : m.process pid = some process)
    (opened : process'.opened = none ∨ process'.opened = process.opened)
    (lockfile : process'.lockfile = process.lockfile)
    (cared : ¬process'.IsOrphan) :
    (m.put pid process').Kept := by
  apply kept.put _ cared
  intro file isOpen
  rcases opened with closed | same
  · rw [closed] at isOpen
    cases isOpen
  · have named := kept.named pid file ((sees_of isHere).trans (same.symm.trans isOpen))
    rwa [sees_of isHere, ← lockfile] at named

theorem Kept.remove (kept : m.Kept) (alone : ∀ child, m.sees Process.parent child ≠ some pid) :
    (m.remove pid).Kept where
  named other file isOpen := by
    rw [sees_remove fun process => (abandon_steady process).2.1] at isOpen
    rw [sees_remove fun process => (abandon_steady process).2.2.2]
    split at isOpen
    case isTrue => cases isOpen
    case isFalse differs =>
      rw [if_neg differs]
      exact kept.named other file isOpen
  cared other process' isHere := by
    rw [process_remove] at isHere
    split at isHere
    case isTrue => cases isHere
    case isFalse =>
      rcases Option.map_eq_some_iff.mp isHere with ⟨process, wasHere, rfl⟩
      cases process with
      | lockrun settings stage => exact id
      | child parent lockfile task =>
          intro orphan
          by_cases isParent : parent = some pid
          · exact alone other ((sees_of wasHere).trans isParent)
          · have same : parent = none := (if_neg isParent).symm.trans orphan
            exact kept.cared other _ wasHere same

omit [DecidableEq π] in
theorem Kept.relock (kept : m.Kept) (owner : φ → Option π) : Kept { m with owner := owner } :=
  ⟨kept.named, kept.cared⟩

omit [DecidableEq π] in
theorem Kept.has_parent {parent : Option π} {lockfile : Bytes} {task : Task φ} (kept : m.Kept)
    (isHere : m.process pid = some (.child parent lockfile task)) : parent ≠ none :=
  kept.cared pid _ isHere

/-- A lock file is created for a process that opens it. -/
theorem Kept.create {settings : Settings} {lockfile : Bytes} {file : φ} (kept : m.Kept)
    (isLockfile : settings.lockfile = some lockfile) (absent : m.inode lockfile = none) :
    ({ m with inode := Function.update m.inode lockfile (some file) }.put pid
      (.lockrun settings (.trying file 0))).Kept := by
  have created : Kept { m with inode := Function.update m.inode lockfile (some file) } := by
    refine ⟨fun other file' isOpen => ?_, kept.cared⟩
    rcases kept.named other file' isOpen with ⟨name, isName, present⟩
    refine ⟨name, isName, ?_⟩
    show Function.update m.inode lockfile (some file) name = some file'
    rw [Function.update_of_ne _, present]
    rintro rfl
    rw [absent] at present
    cases present
  apply created.put
  · intro file' isOpen
    cases isOpen
    exact ⟨lockfile, isLockfile, Function.update_self _ _ _⟩
  · exact id

theorem Kept.reap {settings : Settings} {lfd : φ} {child : π} {lockfile : Bytes} {task : Task φ}
    {rc : ℤ} (kept : m.Kept) (coherent : m.Coherent)
    (isHere : m.process pid = some (.lockrun settings (.waiting lfd child)))
    (isChild : m.process child = some (.child (some pid) lockfile task)) :
    ((m.remove child).put pid (.lockrun settings (.ending (some lfd) rc))).Kept := by
  have stillHere : (m.remove child).process pid =
      some (.lockrun settings (.waiting lfd child)) := by
    rw [process_remove, if_neg (process_ne isHere isChild nofun), isHere]
    rfl
  have removed := kept.remove (coherent.no_child (sees_of isChild))
  exact removed.put_same stillHere (.inr rfl) rfl id

theorem Kept.step [DecidableEq φ] {event : Event π φ} (coherent : m.Coherent) (kept : m.Kept)
    (undisturbed : m.Undisturbed event) (stepped : Step m event after) : after.Kept := by
  cases stepped with
  | launches free accepted => exact kept.put (fun file isOpen => nomatch isOpen) id
  | opens isHere isLockfile present =>
      apply kept.put _ id
      intro file isOpen
      cases isOpen
      exact ⟨_, isLockfile, present⟩
  | creates isHere isLockfile absent unnamed unused => exact kept.create isLockfile absent
  | failsToOpen isHere => exact kept.put_same isHere (.inl rfl) rfl id
  | locks isHere free =>
      exact (kept.relock _).put_same isHere (.inr rfl) rfl id
  | isRefused isHere =>
      rcases Process.refusal_views _ _ _ rfl with ⟨-, -, opened⟩
      exact kept.put_same isHere opened rfl id
  | wakes isHere => exact kept.put_same isHere (.inr rfl) rfl id
  | forks isHere isLockfile free =>
      apply Kept.put
      · exact kept.put_same isHere (.inr rfl) rfl id
      · intro file isOpen
        cases isOpen
      · intro isOrphan
        cases isOrphan
  | failsToFork isHere => exact kept.put_same isHere (.inr rfl) rfl id
  | closes isHere =>
      rw [coherent.close_eq isHere rfl]
      exact kept.put_same isHere (.inl rfl) rfl (kept.has_parent isHere)
  | executes isHere => exact kept.put_same isHere (.inl rfl) rfl (kept.has_parent isHere)
  | failsToExecute isHere => exact kept.put_same isHere (.inl rfl) rfl (kept.has_parent isHere)
  | ends isHere running => exact kept.put_same isHere (.inl rfl) rfl (kept.has_parent isHere)
  | vanishes isHere unwanted => exact kept.remove (coherent.no_child (sees_of isHere))
  | reaps isHere hasEnded => exact kept.reap coherent isHere hasEnded
  | hasNoChild isHere isGone => exact kept.put_same isHere (.inr rfl) rfl id
  | exits isHere => exact kept.remove (coherent.no_child (sees_of isHere))
  | isKilled isHere => exact kept.remove (coherent.no_child undisturbed)
  | isReplaced =>
      refine ⟨fun pid file isOpen => ?_, kept.cared⟩
      rcases kept.named pid file isOpen with ⟨name, isName, present⟩
      refine ⟨name, isName, ?_⟩
      show Function.update m.inode _ _ name = some file
      rw [Function.update_of_ne _, present]
      rintro rfl
      have isUsed : m.sees Process.opened pid = some file := isOpen
      exact undisturbed pid (by simp [isUsed]) isName

end Names

section Runs

variable [DecidableEq φ] {inode : Bytes → Option φ}

theorem coherent_of_reachable (reachable : (system (π := π) inode).Reachable m) :
    m.Coherent := by
  apply reachable.invariant
  · rintro m rfl
    refine ⟨fun file pid => ?_, fun child pid isParent => ?_, fun pid process isHere => ?_⟩
    · exact iff_of_false (fun owns => nomatch owns) (fun holds => nomatch holds)
    · cases isParent
    · cases isHere
  · intro m event after coherent stepped
    exact coherent.step stepped

theorem kept_of_reachable
    (reachable : ((system (π := π) inode).restrict Undisturbed).Reachable m) :
    m.Coherent ∧ m.Kept := by
  apply reachable.invariant
  · rintro m rfl
    refine ⟨coherent_of_reachable (.init rfl), ?_⟩
    refine ⟨fun _ _ isOpen => ?_, fun _ _ isHere => ?_⟩
    · cases isOpen
    · cases isHere
  · rintro m event after ⟨coherent, kept⟩ ⟨undisturbed, stepped⟩
    exact ⟨coherent.step stepped, kept.step coherent undisturbed stepped⟩

/-- A command that has been started for a lock file and has not ended. -/
def Runs (m : Machine π φ) (pid : π) (lockfile : Bytes) : Prop :=
  ∃ parent, m.process pid = some (.child parent lockfile .command)

/-- A `lockrun` that nobody gets in the way of takes a free lock and starts its command. -/
theorem starts_of_free (inode : Bytes → Option φ) {pid child : π} {argv0 lockfile : Bytes}
    {args argv : List Bytes} {settings : Settings} {file : φ}
    (accepted : cmdline argv0 args = .command settings argv)
    (isLockfile : settings.lockfile = some lockfile) (present : m.inode lockfile = some file)
    (unlocked : m.owner file = none) (free : m.process pid = none)
    (childFree : m.process child = none) (differs : pid ≠ child) :
    ∃ after, (((system inode).restrict Undisturbed).startingAt m).Reachable after ∧
      after.Runs child lockfile ∧ after.inode = m.inode ∧
      after.process pid = some (.lockrun settings (.waiting file child)) ∧
      ∀ other, other ≠ pid → other ≠ child → after.process other = m.process other := by
  have start : (((system inode).restrict Undisturbed).startingAt m).Reachable m := .init rfl
  have launched := start.step (Event.launches pid argv0 args) ⟨trivial, .launches free accepted⟩
  have opened := launched.step (Event.opens pid file)
    ⟨trivial, .opens (by rw [process_put, if_pos rfl]) isLockfile present⟩
  have locked := opened.step (Event.locks pid)
    ⟨trivial, .locks (by rw [process_put, if_pos rfl]) unlocked⟩
  have forked := locked.step (Event.forks pid child) ⟨trivial,
    .forks (by rw [process_put, if_pos rfl]) isLockfile
      (by simp [process_put, differs.symm, childFree])⟩
  have closed := forked.step (Event.closes child)
    ⟨trivial, .closes (by rw [process_put, if_pos rfl])⟩
  have executed := closed.step (Event.executes child)
    ⟨trivial, .executes (by rw [process_put, if_pos rfl])⟩
  refine ⟨_, executed, ⟨some pid, ?_⟩, rfl, ?_, ?_⟩
  · rw [process_put, if_pos rfl]
  · simp [process_put, close, differs]
  · intro other notPid notChild
    simp [process_put, close, notPid, notChild]

/-- The command line `lockrun -L=f -- true`. -/
theorem accepts_lockfile : cmdline (ascii "lockrun")
    (render [.attached .lockfile false (ascii "f")] ++ ascii "--" :: [ascii "true"]) =
      .command (applyAll .initial [.attached .lockfile false (ascii "f")]) [ascii "true"] :=
  cmdline_render _ (List.cons_ne_nil _ _) rfl

/-- A command runs under the first `lockrun` that there is. -/
theorem exists_running : ∃ m : Machine ℕ ℕ,
    ((system fun _ => some 0).restrict Undisturbed).Reachable m ∧ m.Runs 1 (ascii "f") ∧
      m.inode (ascii "f") = some 0 ∧ m.process 2 = none ∧ m.process 3 = none ∧
        ∃ settings, m.process 0 = some (.lockrun settings (.waiting 0 1)) := by
  rcases starts_of_free (m := start fun _ => some 0) (fun _ => some 0) accepts_lockfile
    rfl rfl rfl rfl rfl (show 0 ≠ 1 by decide) with ⟨m, reached, runs, sameInode, waits, others⟩
  refine ⟨m, reached, runs, ?_, others 2 (by decide) (by decide), others 3 (by decide)
    (by decide), _, waits⟩
  rw [sameInode]
  rfl

/-- In every run a lock is owned by a live `lockrun` that has taken it and has not ended, and
by nobody else; a command with a live `lockrun` has one that waits for it with the lock; and
a `lockrun` comes back to a lock no more often than its options say. -/
theorem lock_owned (reachable : (system (π := π) inode).Reachable m) :
    (∀ file pid, m.owner file = some pid ↔ ∃ process, m.process pid = some process ∧
      process.lock = some file) ∧
    (∀ pid parent lockfile task, m.process pid = some (.child (some parent) lockfile task) →
      ∃ settings file, m.process parent = some (.lockrun settings (.waiting file pid)) ∧
        settings.lockfile = some lockfile ∧ m.owner file = some parent) ∧
    ∀ pid process, m.process pid = some process → process.Patient := by
  have coherent := coherent_of_reachable reachable
  refine ⟨fun file pid => ?_, fun _ _ _ _ isHere => coherent.held isHere, coherent.patient⟩
  rw [coherent.owned, sees, Option.bind_eq_some_iff]

theorem lock_owned_running : ∃ (m : Machine ℕ ℕ) (parent : ℕ) (file : ℕ),
    m.Runs 1 (ascii "f") ∧ m.owner file = some parent := by
  rcases exists_running with ⟨m, reachable, runs, -, -, -, settings, waits⟩
  exact ⟨m, 0, 0, runs, ((lock_owned reachable.of_restrict).1 0 0).mpr ⟨_, waits, rfl⟩⟩

/-- While nobody kills a `lockrun` between `fork` and the end of `waitpid`, and nobody takes a
lock file away that is in use, no two commands with one lock file run at the same time. -/
theorem command_unique {first second : π} {lockfile : Bytes}
    (reachable : ((system (π := π) inode).restrict Undisturbed).Reachable m)
    (firstRuns : m.Runs first lockfile) (secondRuns : m.Runs second lockfile) :
    first = second := by
  rcases kept_of_reachable reachable with ⟨coherent, kept⟩
  have held : ∀ {pid}, m.Runs pid lockfile → ∃ settings file parent,
      m.inode lockfile = some file ∧ m.owner file = some parent ∧
        m.process parent = some (.lockrun settings (.waiting file pid)) := by
    rintro pid ⟨parent, isHere⟩
    rcases Option.ne_none_iff_exists'.mp (kept.has_parent isHere) with ⟨parent, rfl⟩
    rcases coherent.held isHere with ⟨settings, file, waits, isLockfile, owns⟩
    rcases kept.named parent file (sees_of waits) with ⟨name, isName, present⟩
    have same : settings.lockfile = some name := (sees_of waits).symm.trans isName
    rw [isLockfile] at same
    cases same
    exact ⟨settings, file, parent, present, owns, waits⟩
  rcases held firstRuns with ⟨settings, file, parent, present, owns, waits⟩
  rcases held secondRuns with ⟨settings', file', parent', present', owns', waits'⟩
  rw [present] at present'
  cases present'
  rw [owns] at owns'
  cases owns'
  rw [waits] at waits'
  cases waits'
  rfl

/-- The options `--wait -L=f`. -/
def waitingOptions : List Given :=
  [.switch .wait true none, .attached .lockfile false (ascii "f")]

/-- A second `lockrun` waits for the lock. -/
theorem exists_sleeping : ∃ m : Machine ℕ ℕ,
    ((system fun _ => some 0).restrict Undisturbed).Reachable m ∧ m.Runs 1 (ascii "f") ∧
      m.process 2 = some (.lockrun (applyAll .initial waitingOptions) (.sleeping 0 1)) := by
  rcases exists_running with ⟨m, reachable, ⟨parent, isHere⟩, present, free, -⟩
  have accepted : cmdline (ascii "lockrun")
      (render waitingOptions ++ ascii "--" :: [ascii "true"]) =
        .command (applyAll .initial waitingOptions) [ascii "true"] :=
    cmdline_render _ (List.cons_ne_nil _ _) rfl
  have launched := reachable.step
    (Event.launches 2 (ascii "lockrun") (render waitingOptions ++ ascii "--" :: [ascii "true"]))
    ⟨trivial, .launches free accepted⟩
  have opened := launched.step (Event.opens 2 0)
    ⟨trivial, .opens (by rw [process_put, if_pos rfl]) rfl present⟩
  have refused := opened.step (Event.isRefused 2)
    ⟨trivial, .isRefused (by rw [process_put, if_pos rfl])⟩
  refine ⟨_, refused, ⟨parent, ?_⟩, ?_⟩
  · simp [process_put, isHere]
  · rw [process_put, if_pos rfl]
    rfl

theorem command_unique_running : ∃ m : Machine ℕ ℕ,
    ((system fun _ => some 0).restrict Undisturbed).Reachable m ∧
      m.process 2 = some (.lockrun (applyAll .initial waitingOptions) (.sleeping 0 1)) ∧
        m.Runs 1 (ascii "f") ∧ ∀ other, m.Runs other (ascii "f") → other = 1 := by
  rcases exists_sleeping with ⟨m, reachable, runs, sleeps⟩
  exact ⟨m, reachable, sleeps, runs,
    fun other otherRuns => command_unique reachable otherRuns runs⟩

/-- However a run has gone, and whatever has been killed in it: when no live `lockrun` has
taken the lock of a lock file, one that is started now gets its command to run. -/
theorem command_starts {pid child : π} {argv0 lockfile : Bytes} {args argv : List Bytes}
    {settings : Settings} {file : φ} (reachable : (system (π := π) inode).Reachable m)
    (accepted : cmdline argv0 args = .command settings argv)
    (isLockfile : settings.lockfile = some lockfile) (present : m.inode lockfile = some file)
    (untaken : ∀ other process, m.process other = some process → process.lock ≠ some file)
    (free : m.process pid = none) (childFree : m.process child = none) (differs : pid ≠ child) :
    ∃ after, (((system inode).restrict Undisturbed).startingAt m).Reachable after ∧
      after.Runs child lockfile ∧
      ∀ other, other ≠ pid → other ≠ child → after.process other = m.process other := by
  have unlocked : m.owner file = none := by
    rw [Option.eq_none_iff_forall_ne_some]
    intro other owns
    have holds := ((coherent_of_reachable reachable).owned file other).mp owns
    rcases Option.bind_eq_some_iff.mp holds with ⟨process, isHere, holds⟩
    exact untaken other process isHere holds
  rcases starts_of_free inode accepted isLockfile present unlocked free childFree
    differs with ⟨after, reached, runs, -, -, others⟩
  exact ⟨after, reached, runs, others⟩

/-- The first `lockrun` has been killed, and its command still runs. -/
theorem command_starts_killed : ∃ m after : Machine ℕ ℕ,
    (system fun _ => some 0).Reachable m ∧ m.process 0 = none ∧ m.Runs 1 (ascii "f") ∧
      after.Runs 1 (ascii "f") ∧ after.Runs 3 (ascii "f") := by
  rcases exists_running with ⟨m, before, ⟨parent, isHere⟩, present, free, childFree, _, waits⟩
  have reachable := before.of_restrict.step (Event.isKilled 0) (.isKilled waits)
  have owns : m.owner 0 = some 0 := by
    rw [(coherent_of_reachable before.of_restrict).owned, sees_of waits]
    rfl
  have unlocked : (m.remove 0).owner 0 = none := if_pos owns
  have untaken : ∀ other process, (m.remove 0).process other = some process →
      process.lock ≠ some 0 := by
    intro other process isThere holds
    have taken := ((coherent_of_reachable reachable).owned 0 other).mpr
      ((sees_of isThere).trans holds)
    rw [unlocked] at taken
    cases taken
  have gone : (m.remove 0).process 0 = none := by
    rw [process_remove, if_pos rfl]
  have runs : (m.remove 0).Runs 1 (ascii "f") := by
    refine ⟨if parent = some 0 then none else parent, ?_⟩
    rw [process_remove, if_neg (by decide), isHere]
    rfl
  rcases command_starts reachable accepts_lockfile rfl present untaken
    (by rw [process_remove, if_neg (by decide), free]; rfl)
    (by rw [process_remove, if_neg (by decide), childFree]; rfl) (show 2 ≠ 3 by decide) with
    ⟨after, -, second, others⟩
  rcases runs with ⟨parent', isThere⟩
  refine ⟨m.remove 0, after, reachable, gone, ⟨parent', isThere⟩, ⟨parent', ?_⟩, second⟩
  rw [others 1 (by decide) (by decide), isThere]

/-- When a `lockrun` is killed whose command runs, nothing keeps a second command from being
started beside it. -/
theorem command_overlaps {pid child pid' child' : π} {argv0 lockfile : Bytes}
    {args argv : List Bytes} {settings settings' : Settings} {file : φ}
    (reachable : (system (π := π) inode).Reachable m)
    (waits : m.process pid = some (.lockrun settings (.waiting file child)))
    (runs : m.Runs child lockfile) (accepted : cmdline argv0 args = .command settings' argv)
    (isLockfile : settings'.lockfile = some lockfile) (present : m.inode lockfile = some file)
    (free : m.process pid' = none) (childFree : m.process child' = none) (differs : pid' ≠ child') :
    ∃ killed after, m.Step (.isKilled pid) killed ∧
      (((system inode).restrict Undisturbed).startingAt killed).Reachable after ∧
      child ≠ child' ∧ after.Runs child lockfile ∧ after.Runs child' lockfile := by
  rcases runs with ⟨parent, isHere⟩
  have owns : m.owner file = some pid := by
    rw [(coherent_of_reachable reachable).owned, sees_of waits]
    rfl
  have staysFree : ∀ {other}, m.process other = none → (m.remove pid).process other = none := by
    intro other free
    rw [process_remove, free]
    split <;> rfl
  have differsFrom : ∀ {other}, m.process other = none → child ≠ other :=
    fun free => process_ne isHere free (Option.some_ne_none _)
  rcases starts_of_free (m := m.remove pid) inode accepted isLockfile present
    (if_pos owns) (staysFree free) (staysFree childFree) differs with
    ⟨after, reached, runs', -, -, others⟩
  refine ⟨m.remove pid, after, .isKilled waits, reached, differsFrom childFree, ?_, runs'⟩
  refine ⟨if parent = some pid then none else parent, ?_⟩
  rw [others child (differsFrom free) (differsFrom childFree), process_remove,
    if_neg (process_ne isHere waits nofun), isHere]
  rfl

theorem command_overlaps_running : ∃ m : Machine ℕ ℕ,
    m.Runs 1 (ascii "f") ∧ m.Runs 3 (ascii "f") := by
  rcases exists_running with ⟨m, reachable, runs, present, free, childFree, settings, waits⟩
  rcases command_overlaps reachable.of_restrict waits runs accepts_lockfile rfl present free
    childFree (by decide) with ⟨killed, after, -, -, -, first, second⟩
  exact ⟨after, first, second⟩

end Runs

end Machine

end Lockrun

end Libhelp

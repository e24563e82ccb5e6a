import Libhelp.Lib.Transition
import Mathlib.Data.Finset.Card

/-!
# The semaphore between processes

The model of `semaphore_post` and `semaphore_wait` on one semaphore.  The mutex
makes a critical section one step; a process that blocks in `pthread_cond_wait`
has left its critical section and enters it again when it has been woken and gets
the lock.  Between two steps the lock is free.

A post signals only when it finds the counter at zero.  So a post that finds it
above zero while a process is blocked may leave that process behind: exactly when
it takes the counter above the number of processes that have been woken and still
want the lock.
-/

namespace Libhelp

open Transition

/-- A semaphore, with the processes that are inside `semaphore_wait` without the lock. -/
structure Semaphore (ι : Type*) where
  count : UInt32
  /-- The processes blocked in `pthread_cond_wait`. -/
  blocked : Finset ι
  /-- The processes woken from `pthread_cond_wait` that have not got the lock yet. -/
  woken : Finset ι
  deriving DecidableEq

/-- What a process does with the semaphore. -/
inductive SemaphoreEvent (ι : Type*) where
  | post (process : ι)
  | wait (process : ι)
  /-- A woken process gets the lock again. -/
  | resume (process : ι)
  /-- A blocked process wakes up without a signal. -/
  | spurious (process : ι)

namespace Semaphore

variable {ι : Type*} [DecidableEq ι]

def create : Semaphore ι :=
  ⟨0, ∅, ∅⟩

def wake (s : Semaphore ι) (process : ι) : Semaphore ι :=
  { s with blocked := s.blocked.erase process, woken := insert process s.woken }

/-- `pthread_cond_signal` wakes one blocked process, if there is one. -/
inductive Signal (s : Semaphore ι) : Semaphore ι → Prop where
  | wakes (process : ι) (isBlocked : process ∈ s.blocked) : Signal s (s.wake process)
  | nobody (empty : s.blocked = ∅) : Signal s s

/-- The critical section of `semaphore_post`. -/
def semaphorePost (s after : Semaphore ι) : Prop :=
  ∃ signalled, (if s.count = 0 then Signal s signalled else signalled = s) ∧
    after = { signalled with count := signalled.count + 1 }

/-- A process in `semaphore_wait` tests the counter with the lock held, and leaves or blocks. -/
def semaphoreWait (process : ι) (s : Semaphore ι) : Semaphore ι :=
  if s.count = 0 then
    { s with blocked := insert process s.blocked }
  else
    { s with count := s.count - 1 }

/-- A process that is not inside `semaphore_wait`. -/
def Outside (s : Semaphore ι) (process : ι) : Prop :=
  process ∉ s.blocked ∧ process ∉ s.woken

def step (s : Semaphore ι) : SemaphoreEvent ι → Semaphore ι → Prop
  | .post process, after => s.Outside process ∧ s.semaphorePost after
  | .wait process, after => s.Outside process ∧ after = semaphoreWait process s
  | .resume process, after =>
      process ∈ s.woken ∧
        after = semaphoreWait process { s with woken := s.woken.erase process }
  | .spurious process, after => process ∈ s.blocked ∧ after = s.wake process

/-- Any number of processes on a new semaphore. -/
def system (ι : Type*) [DecidableEq ι] : System (Semaphore ι) (SemaphoreEvent ι) :=
  ⟨fun s => s = create, step⟩

/-- A process is blocked although the counter would let it pass, and no process that has
been woken will come and take the counter down. -/
def LostWakeup (s : Semaphore ι) : Prop :=
  s.count ≠ 0 ∧ s.woken = ∅ ∧ s.blocked ≠ ∅

/-- A post that finds the counter above zero and a process blocked does not take the counter
above the number of woken processes. -/
def PostSafe (s : Semaphore ι) : SemaphoreEvent ι → Prop
  | .post _ => s.blocked = ∅ ∨ s.count = 0 ∨ (s.count + 1).toNat ≤ s.woken.card
  | _ => True

/-- While a process is blocked, woken processes can take the counter down to zero. -/
def Covered (s : Semaphore ι) : Prop :=
  s.blocked = ∅ ∨ s.count.toNat ≤ s.woken.card

section Counter

theorem toNat_pred {count : UInt32} (positive : count ≠ 0) :
    (count - 1).toNat + 1 = count.toNat := by
  have nonzero : count.toNat ≠ 0 := fun zero => positive (UInt32.toNat_inj.mp zero)
  have bound : (1 : UInt32) ≤ count := by
    rw [UInt32.le_iff_toNat_le]
    exact Nat.pos_of_ne_zero nonzero
  have subtracted : (count - 1).toNat = count.toNat - 1 := UInt32.toNat_sub_of_le _ _ bound
  omega

end Counter

section Steps

variable {s after : Semaphore ι} {process : ι}

/-- With the counter at zero a signalled process covers the post that signalled it. -/
theorem Covered.post (covered : s.Covered) (safe : s.PostSafe (.post process))
    (posted : s.semaphorePost after) : after.Covered := by
  rcases posted with ⟨signalled, signals, rfl⟩
  split at signals
  case isTrue zero =>
    cases signals with
    | wakes woken isBlocked =>
        apply Or.inr
        have present : 0 < (insert woken s.woken).card :=
          Finset.card_pos.mpr ⟨woken, Finset.mem_insert_self _ _⟩
        show (s.count + 1).toNat ≤ (insert woken s.woken).card
        rw [zero]
        exact present
    | nobody empty => exact Or.inl empty
  case isFalse positive =>
    subst signals
    rcases safe with empty | zero | bound
    · exact Or.inl empty
    · exact absurd zero positive
    · exact Or.inr bound

theorem Covered.wait (covered : s.Covered) : (semaphoreWait process s).Covered := by
  unfold semaphoreWait
  split
  case isTrue zero =>
    apply Or.inr
    simp [zero]
  case isFalse positive =>
    have lower := toNat_pred positive
    apply covered.imp id
    intro bound
    show (s.count - 1).toNat ≤ s.woken.card
    omega

theorem Covered.resume (covered : s.Covered) (isWoken : process ∈ s.woken) :
    (semaphoreWait process { s with woken := s.woken.erase process }).Covered := by
  unfold semaphoreWait
  split
  case isTrue zero =>
    apply Or.inr
    have : s.count = 0 := zero
    simp [this]
  case isFalse positive =>
    have lower := toNat_pred positive
    have fewer := Finset.card_erase_add_one isWoken
    apply covered.imp id
    intro bound
    show (s.count - 1).toNat ≤ (s.woken.erase process).card
    dsimp only at lower
    omega

theorem Covered.wake (covered : s.Covered) (isBlocked : process ∈ s.blocked) :
    (s.wake process).Covered := by
  rcases covered with empty | bound
  · simp [empty] at isBlocked
  · exact Or.inr (bound.trans (Finset.card_le_card (Finset.subset_insert _ _)))

/-- Every step that is no unsafe post keeps the woken processes able to use up the counter. -/
theorem Covered.step {event : SemaphoreEvent ι} (covered : s.Covered) (safe : s.PostSafe event)
    (stepped : s.step event after) : after.Covered := by
  cases event with
  | post process => exact covered.post safe stepped.2
  | wait process =>
      rcases stepped with ⟨-, rfl⟩
      exact covered.wait
  | resume process =>
      rcases stepped with ⟨isWoken, rfl⟩
      exact covered.resume isWoken
  | spurious process =>
      rcases stepped with ⟨isBlocked, rfl⟩
      exact covered.wake isBlocked

omit [DecidableEq ι] in
theorem Covered.not_lostWakeup (covered : s.Covered) : ¬s.LostWakeup := by
  intro lost
  rcases lost with ⟨positive, noneWoken, someBlocked⟩
  rcases covered with empty | bound
  · exact someBlocked empty
  · rw [noneWoken, Finset.card_empty, Nat.le_zero] at bound
    exact positive (UInt32.toNat_inj.mp bound)

end Steps

/-- No wake-up is lost in any run all of whose posts are safe. -/
theorem no_lostWakeup {s : Semaphore ι} (reachable : ((system ι).restrict PostSafe).Reachable s) :
    ¬s.LostWakeup := by
  apply Covered.not_lostWakeup
  apply reachable.invariant
  · intro s starts
    have : s = create := starts
    subst this
    exact Or.inl rfl
  · intro s event after covered stepped
    exact covered.step stepped.1 stepped.2

theorem no_lostWakeup_woken : ∃ s : Semaphore ℕ, s.count ≠ 0 ∧ s.blocked ≠ ∅ ∧ ¬s.LostWakeup := by
  have oneWaits : ((system ℕ).restrict PostSafe).Reachable ⟨0, {0}, ∅⟩ :=
    .step (.wait 0) (.init rfl) ⟨trivial, ⟨by decide, by decide⟩, by decide⟩
  have twoWait : ((system ℕ).restrict PostSafe).Reachable ⟨0, {1, 0}, ∅⟩ :=
    .step (.wait 1) oneWaits ⟨trivial, ⟨by decide, by decide⟩, by decide⟩
  have onePost : ((system ℕ).restrict PostSafe).Reachable ⟨1, {1}, {0}⟩ :=
    .step (.post 2) twoWait ⟨Or.inr (Or.inl rfl), ⟨by decide, by decide⟩, ⟨0, {1}, {0}⟩,
      Signal.wakes (s := ⟨0, {1, 0}, ∅⟩) 0 (by decide), by decide⟩
  exact ⟨_, by decide, by decide, no_lostWakeup onePost⟩

section Lost

variable {start s after : Semaphore ι} {process : ι}

/-- When the counter is above the number of woken processes, letting all of them go on loses
the wake-up of a blocked process. -/
theorem reaches_lostWakeup (woken : ℕ) (reachable : ((system ι).startingAt start).Reachable s)
    (card : s.woken.card = woken) (someBlocked : s.blocked ≠ ∅) (above : woken < s.count.toNat) :
    ∃ lost, ((system ι).startingAt start).Reachable lost ∧ lost.LostWakeup := by
  have positive : s.count ≠ 0 := by
    intro zero
    simp [zero] at above
  induction woken generalizing s with
  | zero => exact ⟨s, reachable, positive, Finset.card_eq_zero.mp card, someBlocked⟩
  | succ woken ih =>
      have nonempty : s.woken.Nonempty := Finset.card_pos.mp (by omega)
      rcases nonempty with ⟨process, isWoken⟩
      have lower := toNat_pred positive
      have fewer := Finset.card_erase_add_one isWoken
      have resumed : ((system ι).startingAt start).Reachable
          { s with count := s.count - 1, woken := s.woken.erase process } := by
        apply System.Reachable.step (.resume process) reachable
        refine ⟨isWoken, ?_⟩
        simp [semaphoreWait, positive]
      have stillAbove : woken < (s.count - 1).toNat := by omega
      apply ih resumed (by dsimp only; omega) someBlocked stillAbove
      intro zero
      have : s.count - 1 = 0 := zero
      simp [this] at stillAbove

/-- A post that is not safe leads to a lost wake-up. -/
theorem unsafe_post_loses (isUnsafe : ¬s.PostSafe (.post process))
    (posted : s.step (.post process) after) :
    ∃ lost, ((system ι).startingAt after).Reachable lost ∧ lost.LostWakeup := by
  rcases posted with ⟨-, signalled, signals, rfl⟩
  simp only [PostSafe, not_or, not_le] at isUnsafe
  rcases isUnsafe with ⟨someBlocked, positive, above⟩
  rw [if_neg positive] at signals
  subst signals
  exact reaches_lostWakeup _ (.init rfl) rfl someBlocked above

end Lost

/-- Two processes wait, a third one posts twice before the signalled process runs, and the
other waiting process stays blocked with the counter at one. -/
theorem wakeup_lost : ∃ s, (system ℕ).Reachable s ∧ s.LostWakeup := by
  have oneWaits : (system ℕ).Reachable ⟨0, {0}, ∅⟩ :=
    .step (.wait 0) (.init rfl) ⟨⟨by decide, by decide⟩, by decide⟩
  have twoWait : (system ℕ).Reachable ⟨0, {1, 0}, ∅⟩ :=
    .step (.wait 1) oneWaits ⟨⟨by decide, by decide⟩, by decide⟩
  have onePost : (system ℕ).Reachable ⟨1, {1}, {0}⟩ :=
    .step (.post 2) twoWait ⟨⟨by decide, by decide⟩, ⟨0, {1}, {0}⟩,
      Signal.wakes (s := ⟨0, {1, 0}, ∅⟩) 0 (by decide), by decide⟩
  have twoPosts : (system ℕ).Reachable ⟨2, {1}, {0}⟩ :=
    .step (.post 2) onePost ⟨⟨by decide, by decide⟩, ⟨1, {1}, {0}⟩, by simp, by decide⟩
  have resumed : (system ℕ).Reachable ⟨1, {1}, ∅⟩ :=
    .step (.resume 0) twoPosts ⟨by decide, by decide⟩
  exact ⟨_, resumed, by decide, rfl, by decide⟩

end Semaphore

end Libhelp

import Libhelp.Semaphore.Wakeup
import Mathlib.Algebra.Group.Nat.Defs

/-!
# The account of a semaphore

A tally beside the semaphore counts the posts and the waits that have got past the
counter.  Every unit a wait takes has been put there by a post: the posts are the
waits, what is still in the counter, and as many times `2 ^ 32` as the counter has
wrapped around.
-/

namespace Libhelp

open Transition

/-- The posts so far and the waits that have been completed. -/
structure Tally where
  posts : ℕ
  waits : ℕ
  deriving DecidableEq

namespace Tally

def post (tally : Tally) : Tally :=
  { tally with posts := tally.posts + 1 }

def wait (tally : Tally) : Tally :=
  { tally with waits := tally.waits + 1 }

/-- The posts a counter and the waits account for, up to the units lost in wrapping around. -/
def Accounts (tally : Tally) (count : UInt32) : Prop :=
  ∃ wraps, tally.posts = tally.waits + count.toNat + 2 ^ 32 * wraps

variable {tally : Tally} {count : UInt32}

theorem Accounts.post (accounts : tally.Accounts count) : tally.post.Accounts (count + 1) := by
  rcases accounts with ⟨wraps, posts⟩
  have added : (count + 1).toNat = (count.toNat + 1) % 2 ^ 32 := UInt32.toNat_add count 1
  have bound := count.toNat_lt
  by_cases last : count.toNat + 1 = 2 ^ 32
  · refine ⟨wraps + 1, ?_⟩
    show tally.posts + 1 = tally.waits + (count + 1).toNat + 2 ^ 32 * (wraps + 1)
    rw [last, Nat.mod_self] at added
    omega
  · refine ⟨wraps, ?_⟩
    show tally.posts + 1 = tally.waits + (count + 1).toNat + 2 ^ 32 * wraps
    rw [Nat.mod_eq_of_lt (by omega)] at added
    omega

theorem Accounts.wait (accounts : tally.Accounts count) (positive : count ≠ 0) :
    tally.wait.Accounts (count - 1) := by
  rcases accounts with ⟨wraps, posts⟩
  refine ⟨wraps, ?_⟩
  have lower := Semaphore.toNat_pred positive
  show tally.posts = tally.waits + 1 + (count - 1).toNat + 2 ^ 32 * wraps
  omega

theorem Accounts.waits_le (accounts : tally.Accounts count) : tally.waits ≤ tally.posts := by
  rcases accounts with ⟨wraps, posts⟩
  omega

theorem Accounts.count_eq (accounts : tally.Accounts count) :
    count.toNat = (tally.posts - tally.waits) % 2 ^ 32 := by
  rcases accounts with ⟨wraps, posts⟩
  have bound := count.toNat_lt
  omega

end Tally

namespace Semaphore

variable {ι : Type*} [DecidableEq ι]

/-- A process tests the counter in `semaphore_wait`: above zero, its wait is completed. -/
def tallyWait (s : Semaphore ι) (tally : Tally) : Tally :=
  if s.count = 0 then tally else tally.wait

/-- What a step adds to the tally. -/
def tally (s : Semaphore ι) : SemaphoreEvent ι → Tally → Tally
  | .post _, tally => tally.post
  | .wait _, tally => s.tallyWait tally
  | .resume _, tally => s.tallyWait tally
  | .spurious _, tally => tally

/-- Any number of processes on a new semaphore, with the tally of what they have done. -/
def tallySystem (ι : Type*) [DecidableEq ι] : System (Semaphore ι × Tally) (SemaphoreEvent ι) :=
  (system ι).recording ⟨0, 0⟩ tally

section Steps

variable {s after : Semaphore ι} {tally : Tally} {process : ι}

theorem accounts_post (accounts : tally.Accounts s.count) (posted : s.semaphorePost after) :
    tally.post.Accounts after.count := by
  rcases posted with ⟨signalled, signals, rfl⟩
  have unchanged : signalled.count = s.count := by
    split at signals
    case isTrue =>
      cases signals with
      | wakes => rfl
      | nobody => rfl
    case isFalse => rw [signals]
  show tally.post.Accounts (signalled.count + 1)
  rw [unchanged]
  exact accounts.post

theorem accounts_wait (accounts : tally.Accounts s.count) :
    (s.tallyWait tally).Accounts (semaphoreWait process s).count := by
  unfold tallyWait semaphoreWait
  split
  case isTrue => exact accounts
  case isFalse positive => exact accounts.wait positive

theorem accounts_step {event : SemaphoreEvent ι} (accounts : tally.Accounts s.count)
    (stepped : s.step event after) : (s.tally event tally).Accounts after.count := by
  cases event with
  | post process => exact accounts_post accounts stepped.2
  | wait process =>
      rcases stepped with ⟨-, rfl⟩
      exact accounts_wait accounts
  | resume process =>
      rcases stepped with ⟨-, rfl⟩
      exact accounts_wait (s := { s with woken := s.woken.erase process }) accounts
  | spurious process =>
      rcases stepped with ⟨-, rfl⟩
      exact accounts

end Steps

theorem reachable_accounts {s : Semaphore ι × Tally} (reachable : (tallySystem ι).Reachable s) :
    s.2.Accounts s.1.count := by
  apply reachable.invariant
  · intro s starts
    rcases starts with ⟨created, zero⟩
    have : s.1 = create := created
    rw [this, zero]
    exact ⟨0, rfl⟩
  · intro s event after accounts stepped
    rw [stepped.2]
    exact accounts_step accounts stepped.1

/-- The tally restricts no run. -/
theorem reachable_iff_tally {s : Semaphore ι} :
    (system ι).Reachable s ↔ ∃ tally, (tallySystem ι).Reachable (s, tally) := by
  constructor
  · intro reachable
    exact reachable.recorded
  · intro tallied
    rcases tallied with ⟨tally, reachable⟩
    exact reachable.unrecorded

/-- Every completed wait has a post of its own, and the counter holds the posts that no wait
has used. -/
theorem waits_have_posts {s : Semaphore ι} {tally : Tally}
    (reachable : (tallySystem ι).Reachable (s, tally)) :
    tally.waits ≤ tally.posts ∧ s.count.toNat = (tally.posts - tally.waits) % 2 ^ 32 :=
  ⟨(reachable_accounts reachable).waits_le, (reachable_accounts reachable).count_eq⟩

/-- A process that has waited and been posted to has a post of its own. -/
theorem waits_have_posts_resumed : ∃ (s : Semaphore ℕ) (tally : Tally),
    (tallySystem ℕ).Reachable (s, tally) ∧ tally.waits = 1 ∧ tally.waits ≤ tally.posts ∧
      s.count.toNat = (tally.posts - tally.waits) % 2 ^ 32 := by
  have waits : (tallySystem ℕ).Reachable (⟨0, {0}, ∅⟩, ⟨0, 0⟩) :=
    .step (.wait 0) (.init (s := (create, ⟨0, 0⟩)) ⟨rfl, rfl⟩)
      ⟨⟨⟨by decide, by decide⟩, by decide⟩, by decide⟩
  have posted : (tallySystem ℕ).Reachable (⟨1, ∅, {0}⟩, ⟨1, 0⟩) :=
    .step (.post 1) waits ⟨⟨⟨by decide, by decide⟩, ⟨0, ∅, {0}⟩,
      Signal.wakes (s := ⟨0, {0}, ∅⟩) 0 (by decide), by decide⟩, by decide⟩
  have resumed : (tallySystem ℕ).Reachable (⟨0, ∅, ∅⟩, ⟨1, 1⟩) :=
    .step (.resume 0) posted ⟨⟨by decide, by decide⟩, by decide⟩
  exact ⟨_, _, resumed, rfl, waits_have_posts resumed⟩

end Semaphore

end Libhelp

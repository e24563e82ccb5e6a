import Libhelp.Semaphore.Wakeup

/-!
# The semaphore as a lock

A semaphore that has been posted a number of times holds as many tokens.  A process takes
a token with `semaphore_wait` and gives it back with `semaphore_post`; then never more
processes are inside than there are tokens, and the counter does not wrap around.

With one token a post always finds the counter at zero, so it signals: nobody is left
behind.  With more tokens somebody may be.
-/

namespace Libhelp

open Transition

namespace Semaphore

variable {ι : Type*} [DecidableEq ι]

/-- A process tests the counter in `semaphore_wait`: above zero, it gets inside. -/
def enter (s : Semaphore ι) (process : ι) (inside : Finset ι) : Finset ι :=
  if s.count = 0 then inside else insert process inside

/-- The processes that are inside after a step. -/
def inside (s : Semaphore ι) : SemaphoreEvent ι → Finset ι → Finset ι
  | .post process, inside => inside.erase process
  | .wait process, inside => s.enter process inside
  | .resume process, inside => s.enter process inside
  | .spurious _, inside => inside

/-- A process gives a token back only when it has one, and takes one only when it has none. -/
def Bracketed (s : Semaphore ι × Finset ι) : SemaphoreEvent ι → Prop
  | .post process => process ∈ s.2
  | .wait process => process ∉ s.2
  | _ => True

instance (s : Semaphore ι × Finset ι) : (event : SemaphoreEvent ι) → Decidable (Bracketed s event)
  | .post process => inferInstanceAs (Decidable (process ∈ s.2))
  | .wait process => inferInstanceAs (Decidable (process ∉ s.2))
  | .resume _ => inferInstanceAs (Decidable True)
  | .spurious _ => inferInstanceAs (Decidable True)

/-- Any number of processes on a semaphore with tokens, with those that are inside. -/
def tokenSystem (ι : Type*) [DecidableEq ι] (tokens : UInt32) :
    System (Semaphore ι × Finset ι) (SemaphoreEvent ι) :=
  (((system ι).startingAt ⟨tokens, ∅, ∅⟩).recording ∅ inside).restrict Bracketed

/-- Nobody is blocked and woken at once. -/
def Apart (s : Semaphore ι) : Prop :=
  ∀ process ∈ s.woken, process ∉ s.blocked

/-- Every token is inside or in the counter, and whoever is inside does not wait. -/
structure Balanced (tokens : UInt32) (s : Semaphore ι × Finset ι) : Prop where
  total : s.2.card + s.1.count.toNat = tokens.toNat
  outside : ∀ process ∈ s.2, s.1.Outside process
  apart : s.1.Apart

variable {s after : Semaphore ι} {tokens : UInt32} {inside' : Finset ι} {process : ι}

section Posted

theorem wake_outside {woken : ι} (isBlocked : woken ∈ s.blocked) (outside : s.Outside process) :
    (s.wake woken).Outside process := by
  refine ⟨fun stays => outside.1 (Finset.mem_of_mem_erase stays), fun isWoken => ?_⟩
  rcases Finset.mem_insert.mp isWoken with same | isOld
  · subst same
    exact outside.1 isBlocked
  · exact outside.2 isOld

theorem wake_apart (woken : ι) (apart : s.Apart) : (s.wake woken).Apart := by
  intro other isWoken stays
  rcases Finset.mem_insert.mp isWoken with same | isOld
  · exact (Finset.mem_erase.mp stays).1 same
  · exact apart other isOld (Finset.mem_of_mem_erase stays)

/-- A post adds one to the counter, and at most wakes somebody up. -/
theorem semaphorePost_cases (posted : s.semaphorePost after) : after.count = s.count + 1 ∧
    ((after.blocked = s.blocked ∧ after.woken = s.woken) ∨
      ∃ woken ∈ s.blocked, after.blocked = (s.wake woken).blocked ∧
        after.woken = (s.wake woken).woken) := by
  rcases posted with ⟨signalled, signals, rfl⟩
  split at signals
  case isTrue =>
    cases signals with
    | wakes woken isBlocked => exact ⟨rfl, .inr ⟨woken, isBlocked, rfl, rfl⟩⟩
    | nobody => exact ⟨rfl, .inl ⟨rfl, rfl⟩⟩
  case isFalse =>
    subst signals
    exact ⟨rfl, .inl ⟨rfl, rfl⟩⟩

/-- Posts put tokens into a new semaphore. -/
theorem reachable_tokens [Inhabited ι] (n : ℕ) :
    (system ι).Reachable ⟨UInt32.ofNat n, ∅, ∅⟩ := by
  induction n with
  | zero => exact .init rfl
  | succ n ih =>
      have posted : semaphorePost (ι := ι) ⟨UInt32.ofNat n, ∅, ∅⟩
          ⟨UInt32.ofNat n + 1, ∅, ∅⟩ := by
        refine ⟨⟨UInt32.ofNat n, ∅, ∅⟩, ?_, rfl⟩
        split
        · exact .nobody rfl
        · rfl
      have next : UInt32.ofNat (n + 1) = UInt32.ofNat n + 1 := UInt32.ofNat_add n 1
      rw [next]
      exact .step (.post default) ih ⟨⟨Finset.notMem_empty _, Finset.notMem_empty _⟩, posted⟩

end Posted

section Balance

theorem Balanced.post (balanced : Balanced tokens (s, inside')) (isInside : process ∈ inside')
    (posted : s.semaphorePost after) : Balanced tokens (after, inside'.erase process) := by
  rcases semaphorePost_cases posted with ⟨count, waiting⟩
  have total : inside'.card + s.count.toNat = tokens.toNat := balanced.total
  have fewer := Finset.card_erase_add_one isInside
  have bound := tokens.toNat_lt
  have added : (s.count + 1).toNat = (s.count.toNat + 1) % 2 ^ 32 := UInt32.toNat_add s.count 1
  rw [Nat.mod_eq_of_lt (by omega)] at added
  refine ⟨?_, fun other isOther => ?_, ?_⟩
  · show (inside'.erase process).card + after.count.toNat = tokens.toNat
    rw [count]
    omega
  · have outside := balanced.outside other (Finset.mem_of_mem_erase isOther)
    rw [Outside]
    rcases waiting with ⟨blocked, woken⟩ | ⟨other', isBlocked, blocked, woken⟩
    · rw [blocked, woken]
      exact outside
    · rw [blocked, woken]
      exact wake_outside isBlocked outside
  · show after.Apart
    rw [Apart]
    rcases waiting with ⟨blocked, woken⟩ | ⟨other, isBlocked, blocked, woken⟩
    · rw [blocked, woken]
      exact balanced.apart
    · rw [blocked, woken]
      exact wake_apart other balanced.apart

theorem Balanced.wait (balanced : Balanced tokens (s, inside')) (notInside : process ∉ inside')
    (outside : s.Outside process) :
    Balanced tokens (semaphoreWait process s, s.enter process inside') := by
  have total : inside'.card + s.count.toNat = tokens.toNat := balanced.total
  unfold semaphoreWait enter
  split
  case isTrue zero =>
    refine ⟨total, fun other isOther => ⟨fun isBlocked => ?_, (balanced.outside other isOther).2⟩,
      fun other isWoken isBlocked => ?_⟩
    · rcases Finset.mem_insert.mp isBlocked with same | isOld
      · subst same
        exact notInside isOther
      · exact (balanced.outside other isOther).1 isOld
    · rcases Finset.mem_insert.mp isBlocked with same | isOld
      · subst same
        exact outside.2 isWoken
      · exact balanced.apart other isWoken isOld
  case isFalse positive =>
    have lower := toNat_pred positive
    have more := Finset.card_insert_of_notMem notInside
    refine ⟨?_, fun other isOther => ?_, balanced.apart⟩
    · show (insert process inside').card + (s.count - 1).toNat = tokens.toNat
      omega
    · rcases Finset.mem_insert.mp isOther with same | isOld
      · subst same
        exact outside
      · exact balanced.outside other isOld

/-- A woken process gets the lock, and does not wait for it any more. -/
theorem Balanced.unlock (balanced : Balanced tokens (s, inside')) (isWoken : process ∈ s.woken) :
    Balanced tokens ({ s with woken := s.woken.erase process }, inside') ∧
      process ∉ inside' ∧ Outside { s with woken := s.woken.erase process } process := by
  refine ⟨⟨balanced.total, fun other isOther => ?_, fun other isOther => ?_⟩, ?_, ?_⟩
  · have outside := balanced.outside other isOther
    exact ⟨outside.1, fun stays => outside.2 (Finset.mem_of_mem_erase stays)⟩
  · exact balanced.apart other (Finset.mem_of_mem_erase isOther)
  · intro isInside
    exact (balanced.outside process isInside).2 isWoken
  · exact ⟨balanced.apart process isWoken, Finset.notMem_erase process s.woken⟩

theorem Balanced.step {event : SemaphoreEvent ι} (balanced : Balanced tokens (s, inside'))
    (bracketed : Bracketed (s, inside') event) (stepped : s.step event after) :
    Balanced tokens (after, s.inside event inside') := by
  cases event with
  | post process => exact balanced.post bracketed stepped.2
  | wait process =>
      rcases stepped with ⟨outside, rfl⟩
      exact balanced.wait bracketed outside
  | resume process =>
      rcases stepped with ⟨isWoken, rfl⟩
      rcases balanced.unlock isWoken with ⟨unlocked, notInside, outside⟩
      exact unlocked.wait notInside outside
  | spurious process =>
      rcases stepped with ⟨isBlocked, rfl⟩
      refine ⟨balanced.total, fun other isOther => ?_, wake_apart process balanced.apart⟩
      exact wake_outside isBlocked (balanced.outside other isOther)

end Balance

section Runs

variable {s : Semaphore ι × Finset ι}

theorem balanced_of_reachable (reachable : (tokenSystem ι tokens).Reachable s) :
    Balanced tokens s ∧ (tokens = 1 → s.1.Covered) := by
  apply reachable.invariant
  · rintro ⟨s, inside'⟩ ⟨starts, empty⟩
    cases starts
    cases empty
    refine ⟨⟨Nat.zero_add _, fun _ isInside => ?_, fun _ isWoken => ?_⟩, fun _ => .inl rfl⟩
    · exact absurd isInside (Finset.notMem_empty _)
    · exact absurd isWoken (Finset.notMem_empty _)
  · rintro ⟨s, inside'⟩ event ⟨after, inside''⟩ ⟨balanced, covered⟩ ⟨bracketed, stepped, recorded⟩
    cases recorded
    refine ⟨balanced.step bracketed stepped, fun single => (covered single).step ?_ stepped⟩
    -- with one token, a process that posts has it, and the counter is at zero
    cases event with
    | post process =>
        have total : inside'.card + s.count.toNat = tokens.toNat := balanced.total
        have isInside : 0 < inside'.card := Finset.card_pos.mpr ⟨process, bracketed⟩
        have one : tokens.toNat = 1 := by
          rw [single]
          rfl
        refine .inr (.inl ?_)
        rw [← UInt32.toNat_inj]
        show s.count.toNat = 0
        omega
    | _ => trivial

/-- As many processes are inside as tokens are missing from the counter, so never more than
there are tokens. -/
theorem inside_card (reachable : (tokenSystem ι tokens).Reachable s) :
    s.2.card + s.1.count.toNat = tokens.toNat ∧ ∀ process ∈ s.2, s.1.Outside process := by
  have balanced := (balanced_of_reachable reachable).1
  exact ⟨balanced.total, balanced.outside⟩

/-- A process is inside, and another one waits. -/
theorem reachable_waiting : (tokenSystem ℕ 1).Reachable (⟨0, {1}, ∅⟩, {0}) := by
  have starts : (tokenSystem ℕ 1).Reachable (⟨1, ∅, ∅⟩, ∅) := .init ⟨rfl, rfl⟩
  have entered : (tokenSystem ℕ 1).Reachable (⟨0, ∅, ∅⟩, {0}) :=
    .step (.wait 0) starts ⟨by decide, ⟨⟨by decide, by decide⟩, by decide⟩, by decide⟩
  exact .step (.wait 1) entered ⟨by decide, ⟨⟨by decide, by decide⟩, by decide⟩, by decide⟩

theorem inside_card_waiting : ∃ s : Semaphore ℕ × Finset ℕ, (tokenSystem ℕ 1).Reachable s ∧
    s.2 = {0} ∧ s.1.blocked = {1} ∧ s.2.card + s.1.count.toNat = 1 ∧
      ∀ process ∈ s.2, s.1.Outside process :=
  ⟨_, reachable_waiting, rfl, rfl, inside_card reachable_waiting⟩

/-- With one token at most one process is inside, and a process is blocked only while another
one is inside or on its way there. -/
theorem single_token (reachable : (tokenSystem ι 1).Reachable s) :
    s.2.card ≤ 1 ∧ (s.1.blocked ≠ ∅ → s.2 ≠ ∅ ∨ s.1.woken ≠ ∅) := by
  rcases balanced_of_reachable reachable with ⟨balanced, covered⟩
  have total : s.2.card + s.1.count.toNat = 1 := balanced.total
  refine ⟨by omega, fun someBlocked => ?_⟩
  by_contra stuck
  rw [not_or, not_not, not_not] at stuck
  rcases stuck with ⟨nobody, noneWoken⟩
  apply (covered rfl).not_lostWakeup
  refine ⟨?_, noneWoken, someBlocked⟩
  intro zero
  rw [nobody, zero] at total
  cases total

theorem single_token_waiting : ∃ s : Semaphore ℕ × Finset ℕ, (tokenSystem ℕ 1).Reachable s ∧
    s.1.blocked ≠ ∅ ∧ s.2.card ≤ 1 ∧ (s.2 ≠ ∅ ∨ s.1.woken ≠ ∅) := by
  rcases single_token reachable_waiting with ⟨card, waits⟩
  have someBlocked : ({1} : Finset ℕ) ≠ ∅ := by decide
  exact ⟨_, reachable_waiting, someBlocked, card, waits someBlocked⟩

/-- With two tokens, one given back right after the other, a process stays blocked although
both are in the counter. -/
theorem two_tokens_stuck : (tokenSystem ℕ 2).Reachable (⟨2, {3}, ∅⟩, ∅) := by
  have starts : (tokenSystem ℕ 2).Reachable (⟨2, ∅, ∅⟩, ∅) := .init ⟨rfl, rfl⟩
  have first : (tokenSystem ℕ 2).Reachable (⟨1, ∅, ∅⟩, {0}) :=
    .step (.wait 0) starts ⟨by decide, ⟨⟨by decide, by decide⟩, by decide⟩, by decide⟩
  have second : (tokenSystem ℕ 2).Reachable (⟨0, ∅, ∅⟩, {1, 0}) :=
    .step (.wait 1) first ⟨by decide, ⟨⟨by decide, by decide⟩, by decide⟩, by decide⟩
  have third : (tokenSystem ℕ 2).Reachable (⟨0, {2}, ∅⟩, {1, 0}) :=
    .step (.wait 2) second ⟨by decide, ⟨⟨by decide, by decide⟩, by decide⟩, by decide⟩
  have fourth : (tokenSystem ℕ 2).Reachable (⟨0, {3, 2}, ∅⟩, {1, 0}) :=
    .step (.wait 3) third ⟨by decide, ⟨⟨by decide, by decide⟩, by decide⟩, by decide⟩
  have posted : (tokenSystem ℕ 2).Reachable (⟨1, {3}, {2}⟩, {1}) :=
    .step (.post 0) fourth ⟨by decide, ⟨⟨by decide, by decide⟩, ⟨0, {3}, {2}⟩,
      Signal.wakes (s := ⟨0, {3, 2}, ∅⟩) 2 (by decide), by decide⟩, by decide⟩
  have again : (tokenSystem ℕ 2).Reachable (⟨2, {3}, {2}⟩, ∅) :=
    .step (.post 1) posted ⟨by decide, ⟨⟨by decide, by decide⟩, ⟨1, {3}, {2}⟩, by simp, by decide⟩,
      by decide⟩
  have resumed : (tokenSystem ℕ 2).Reachable (⟨1, {3}, ∅⟩, {2}) :=
    .step (.resume 2) again ⟨by decide, ⟨by decide, by decide⟩, by decide⟩
  exact .step (.post 2) resumed ⟨by decide, ⟨⟨by decide, by decide⟩, ⟨1, {3}, ∅⟩, by simp,
    by decide⟩, by decide⟩

end Runs

end Semaphore

end Libhelp

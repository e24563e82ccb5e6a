import Mathlib.Tactic.Common

/-!
# Deterministic programs given by a step function

A program is a function from states to outcomes: the next state, a returned
value, or `stuck` where the modelled language gives the program no meaning.
`run` executes a program for a bounded number of steps, so it can be evaluated,
and `Returns` forgets the bound; `Reaches` tells the states in which a run comes to
be.  A loop that walks a state of its own is a partial step function; `LoopExits` is
its terminating runs.  `within` is a program that keeps to a condition on its states.

The two results used most are the lockstep simulation of one program by another
and the rule that replaces an inner loop of a program by its terminating runs.
-/

namespace StepProgram

universe u v w

/-- What one step of a program leads to. -/
inductive Outcome (σ : Type u) (ρ : Type v) where
  | next (state : σ)
  | ret (value : ρ)
  | stuck
  deriving DecidableEq, Repr

section Run

variable {σ : Type u} {ρ : Type v} {step : σ → Outcome σ ρ}

/-- Execute at most `fuel` further steps after an outcome. -/
def run (step : σ → Outcome σ ρ) : ℕ → Outcome σ ρ → Option ρ
  | _, .ret value => some value
  | _, .stuck => none
  | 0, .next _ => none
  | fuel + 1, .next state => run step fuel (step state)

def Returns (step : σ → Outcome σ ρ) (outcome : Outcome σ ρ) (value : ρ) : Prop :=
  ∃ fuel, run step fuel outcome = some value

@[simp]
theorem run_ret (fuel : ℕ) (value : ρ) : run step fuel (.ret value) = some value := by
  cases fuel <;> rfl

@[simp]
theorem run_stuck (fuel : ℕ) : run step fuel .stuck = none := by
  cases fuel <;> rfl

@[simp]
theorem run_next_zero (state : σ) : run step 0 (.next state) = none :=
  rfl

@[simp]
theorem run_next_succ (fuel : ℕ) (state : σ) :
    run step (fuel + 1) (.next state) = run step fuel (step state) :=
  rfl

@[simp]
theorem returns_ret_iff {value result : ρ} :
    Returns step (.ret value) result ↔ value = result := by
  simp [Returns]

theorem returns_next_iff {s : σ} {result : ρ} :
    Returns step (.next s) result ↔ Returns step (step s) result := by
  constructor
  · rintro ⟨fuel, returned⟩
    cases fuel with
    | zero => simp at returned
    | succ fuel => exact ⟨fuel, by simpa using returned⟩
  · rintro ⟨fuel, returned⟩
    exact ⟨fuel + 1, by simpa using returned⟩

theorem run_succ {fuel : ℕ} {outcome : Outcome σ ρ} {value : ρ}
    (returned : run step fuel outcome = some value) :
    run step (fuel + 1) outcome = some value := by
  induction fuel generalizing outcome with
  | zero => cases outcome <;> simp_all
  | succ fuel ih =>
      cases outcome with
      | next state => simpa using ih (by simpa using returned)
      | ret _ => simpa using returned
      | stuck => simp at returned

theorem run_add {fuel : ℕ} {outcome : Outcome σ ρ} {value : ρ}
    (returned : run step fuel outcome = some value) (extra : ℕ) :
    run step (fuel + extra) outcome = some value := by
  induction extra with
  | zero => exact returned
  | succ extra ih => exact run_succ ih

theorem Returns.unique {outcome : Outcome σ ρ} {left right : ρ}
    (leftReturns : Returns step outcome left) (rightReturns : Returns step outcome right) :
    left = right := by
  rcases leftReturns with ⟨leftFuel, leftRun⟩
  rcases rightReturns with ⟨rightFuel, rightRun⟩
  have leftLong := run_add leftRun rightFuel
  have rightLong := run_add rightRun leftFuel
  rw [Nat.add_comm, rightLong] at leftLong
  exact (Option.some.inj leftLong).symm

/-- What every step preserves holds of the value that is returned. -/
theorem run_invariant {I : Outcome σ ρ → Prop} {fuel : ℕ} {outcome : Outcome σ ρ} {value : ρ}
    (preserved : ∀ s, I (.next s) → I (step s)) (holds : I outcome)
    (returned : run step fuel outcome = some value) : I (.ret value) := by
  induction fuel generalizing outcome with
  | zero =>
      cases outcome with
      | next _ => simp at returned
      | ret _ =>
          rcases Option.some.inj ((run_ret _ _).symm.trans returned) with rfl
          exact holds
      | stuck => simp at returned
  | succ fuel ih =>
      cases outcome with
      | next s => exact ih (preserved s holds) returned
      | ret _ =>
          rcases Option.some.inj ((run_ret _ _).symm.trans returned) with rfl
          exact holds
      | stuck => simp at returned

/-- The states in which a program comes to be after an outcome. -/
inductive Reaches (step : σ → Outcome σ ρ) : Outcome σ ρ → σ → Prop where
  | here {state : σ} : Reaches step (.next state) state
  | more {state last : σ} (rest : Reaches step (step state) last) :
      Reaches step (.next state) last

theorem Reaches.trans {outcome : Outcome σ ρ} {middle last : σ}
    (first : Reaches step outcome middle) (second : Reaches step (.next middle) last) :
    Reaches step outcome last := by
  induction first with
  | here => exact second
  | more _ ih => exact .more (ih second)

/-- A property kept by every step holds in every state of a run. -/
theorem Reaches.invariant {I : σ → Prop} {outcome : Outcome σ ρ} {last : σ}
    (reaches : Reaches step outcome last)
    (preserved : ∀ s s', I s → step s = .next s' → I s')
    (holds : ∀ s, outcome = .next s → I s) : I last := by
  induction reaches with
  | here => exact holds _ rfl
  | more _ ih => exact ih fun s stepped => preserved _ s (holds _ rfl) stepped

/-- A program that goes on wherever another does comes to be in the same states. -/
theorem Reaches.mono {step' : σ → Outcome σ ρ} {outcome : Outcome σ ρ} {last : σ}
    (reaches : Reaches step outcome last)
    (goesOn : ∀ s s', step s = .next s' → step' s = .next s') : Reaches step' outcome last := by
  induction reaches with
  | here => exact .here
  | more rest ih =>
      rename_i state _
      cases stepped : step state with
      | next middle =>
          refine .more ?_
          rw [goesOn state middle stepped]
          exact stepped ▸ ih
      | ret _ =>
          rw [stepped] at rest
          cases rest
      | stuck =>
          rw [stepped] at rest
          cases rest

end Run

section Lockstep

variable {σ : Type u} {τ : Type v} {ρ : Type w}

/-- Two outcomes agree when they return the same value or reach related states. -/
def Outcome.Agrees (R : σ → τ → Prop) : Outcome σ ρ → Outcome τ ρ → Prop
  | .next left, .next right => R left right
  | .ret left, .ret right => left = right
  | .stuck, .stuck => True
  | _, _ => False

/-- Programs whose steps preserve a relation return the same values in the same time. -/
theorem run_eq_of_lockstep {left : σ → Outcome σ ρ} {right : τ → Outcome τ ρ}
    {R : σ → τ → Prop} (preserved : ∀ s t, R s t → (left s).Agrees R (right t))
    (fuel : ℕ) {start : Outcome σ ρ} {start' : Outcome τ ρ} (related : start.Agrees R start') :
    run left fuel start = run right fuel start' := by
  induction fuel generalizing start start' with
  | zero => cases start <;> cases start' <;> simp_all [Outcome.Agrees]
  | succ fuel ih =>
      cases start <;> cases start' <;> simp only [Outcome.Agrees] at related
      · exact ih (preserved _ _ related)
      · simpa using related
      · simp

end Lockstep

section Within

variable {σ : Type u} {τ : Type v} {ρ : Type w} {step : σ → Outcome σ ρ} {Ok : σ → Prop}
  [DecidablePred Ok] {fuel : ℕ} {outcome : Outcome σ ρ} {value : ρ}

/-- A program that has no meaning in the states that a condition excludes. -/
def within (Ok : σ → Prop) [DecidablePred Ok] (step : σ → Outcome σ ρ) (s : σ) : Outcome σ ρ :=
  if Ok s then step s else .stuck

theorem run_of_within (returned : run (within Ok step) fuel outcome = some value) :
    run step fuel outcome = some value := by
  induction fuel generalizing outcome with
  | zero => cases outcome <;> simp_all
  | succ fuel ih =>
      cases outcome with
      | next s =>
          rw [run_next_succ] at returned ⊢
          by_cases ok : Ok s
          · rw [within, if_pos ok] at returned
            exact ih returned
          · rw [within, if_neg ok, run_stuck] at returned
            cases returned
      | ret _ => simpa using returned
      | stuck => simp at returned

/-- What the steps from the states of a condition preserve holds at the end of a run that has
kept to the condition. -/
theorem run_within_invariant {I : Outcome σ ρ → Prop}
    (preserved : ∀ s, Ok s → I (.next s) → I (step s)) (holds : I outcome)
    (returned : run (within Ok step) fuel outcome = some value) : I (.ret value) := by
  have kept : ∀ s, I (.next s) ∨ (.next s : Outcome σ ρ) = .stuck →
      I (within Ok step s) ∨ within Ok step s = .stuck := by
    rintro s (holds | isStuck)
    · by_cases ok : Ok s
      · rw [within, if_pos ok]
        exact .inl (preserved s ok holds)
      · exact .inr (if_neg ok)
    · cases isStuck
  rcases run_invariant (I := fun outcome => I outcome ∨ outcome = .stuck) kept (.inl holds) returned
    with holds | isStuck
  · exact holds
  · cases isStuck

/-- A run keeps to a condition that can be read off the value that is returned. -/
theorem run_within_of_returned {I : σ → Prop} (reached : ∀ s s', step s = .next s' → I s')
    (ok : ∀ s fuel, I s → run step fuel (.next s) = some value → Ok s)
    (holds : ∀ s, outcome = .next s → I s) (returned : run step fuel outcome = some value) :
    run (within Ok step) fuel outcome = some value := by
  induction fuel generalizing outcome with
  | zero => cases outcome <;> simp_all
  | succ fuel ih =>
      cases outcome with
      | next s =>
          rw [run_next_succ, within, if_pos (ok s (fuel + 1) (holds s rfl) returned)]
          exact ih (reached s) returned
      | ret _ => simpa using returned
      | stuck => simp at returned

theorem Outcome.Agrees.within {left : σ → Outcome σ ρ} {right : τ → Outcome τ ρ}
    {R : σ → τ → Prop} {Ok' : τ → Prop} [DecidablePred Ok'] {s : σ} {t : τ}
    (agrees : (left s).Agrees R (right t)) (same : Ok s ↔ Ok' t) :
    (within Ok left s).Agrees R (within Ok' right t) := by
  by_cases ok : Ok s
  · simpa only [StepProgram.within, if_pos ok, if_pos (same.mp ok)] using agrees
  · simp only [StepProgram.within, if_neg ok, if_neg (ok ∘ same.mpr)]
    trivial

end Within

section Loop

variable {τ : Type u} {loop : τ → Option τ}

/-- The terminating runs of a loop whose body is a partial step. -/
inductive LoopExits (loop : τ → Option τ) : τ → τ → Prop where
  | done {state : τ} (stop : loop state = none) : LoopExits loop state state
  | more {state middle last : τ} (body : loop state = some middle)
      (rest : LoopExits loop middle last) : LoopExits loop state last

/-- A loop never exits from a state whose invariant rules out its exit condition. -/
theorem not_loopExits_of_invariant {I : τ → Prop} (noStop : ∀ s, I s → loop s ≠ none)
    (preserved : ∀ s s', I s → loop s = some s' → I s') {state last : τ} (holds : I state) :
    ¬LoopExits loop state last := by
  intro exits
  induction exits with
  | done stop => exact noStop _ holds stop
  | more body _ ih => exact ih (preserved _ _ holds body)

/-- A loop whose invariant comes with a decreasing measure exits. -/
theorem loopExits_of_measure {I : τ → Prop} (measure : τ → ℕ)
    (decreases : ∀ s s', I s → loop s = some s' → I s' ∧ measure s' < measure s)
    {state : τ} (holds : I state) : ∃ last, LoopExits loop state last := by
  induction bound : measure state using Nat.strongRecOn generalizing state with
  | ind size ih =>
      cases body : loop state with
      | none => exact ⟨state, .done body⟩
      | some middle =>
          rcases decreases state middle holds body with ⟨holds', smaller⟩
          rcases ih (measure middle) (by omega) holds' rfl with ⟨last, rest⟩
          exact ⟨last, .more body rest⟩

theorem LoopExits.unique {state left right : τ} (leftExits : LoopExits loop state left)
    (rightExits : LoopExits loop state right) : left = right := by
  induction leftExits with
  | done stop =>
      cases rightExits with
      | done _ => rfl
      | more body _ => simp [stop] at body
  | more body _ ih =>
      cases rightExits with
      | done stop => simp [stop] at body
      | more body' rest =>
          rw [body] at body'
          rcases Option.some.inj body' with rfl
          exact ih rest

/-- An invariant of the body holds where the loop exits. -/
theorem LoopExits.invariant {I : τ → Prop} {state last : τ} (exits : LoopExits loop state last)
    (preserved : ∀ s s', I s → loop s = some s' → I s') (holds : I state) :
    I last ∧ loop last = none := by
  induction exits with
  | done stop => exact ⟨holds, stop⟩
  | more body _ ih => exact ih (preserved _ _ holds body)

/-- Loops that agree under an invariant of one of them have the same terminating runs. -/
theorem LoopExits.congr {loop' : τ → Option τ} {I : τ → Prop} {state last : τ}
    (exits : LoopExits loop state last) (agree : ∀ s, I s → loop s = loop' s)
    (preserved : ∀ s s', I s → loop s = some s' → I s') (holds : I state) :
    LoopExits loop' state last := by
  induction exits with
  | done stop => exact .done (agree _ holds ▸ stop)
  | more body _ ih => exact .more (agree _ holds ▸ body) (ih (preserved _ _ holds body))

end Loop

section InnerLoop

variable {σ : Type u} {τ : Type v} {ρ : Type w}
  {step : σ → Outcome σ ρ} {loop : τ → Option τ} {Blocked : τ → Prop}

/-- The states of a program that carry out a loop, the relation `E` telling which
loop state a program state is in, and the relation `L` which states leave the loop.
The program has no meaning where the loop stops in a blocked state. -/
structure InnerLoop (step : σ → Outcome σ ρ) (loop : τ → Option τ) (Blocked : τ → Prop)
    (E L : τ → σ → Prop) : Prop where
  /-- While the loop goes on, the program makes one step for each of its iterations. -/
  more : ∀ t t' s, E t s → loop t = some t' → ∃ s', step s = .next s' ∧ E t' s'
  /-- Where the loop stops, the program leaves it with one step. -/
  done : ∀ t s, E t s → loop t = none → ¬Blocked t → ∃ s', step s = .next s' ∧ L t s'
  /-- Where the loop is blocked, so is the program. -/
  blocked : ∀ t s, E t s → loop t = none → Blocked t → step s = .stuck

/-- A terminating run of the loop takes the program to where it leaves the loop. -/
theorem InnerLoop.leaves {E L : τ → σ → Prop} (inner : InnerLoop step loop Blocked E L)
    {t last : τ} (exits : LoopExits loop t last) (free : ¬Blocked last) {s : σ}
    (entered : E t s) :
    ∃ s', L last s' ∧
      ∀ result, Returns step (.next s') result ↔ Returns step (.next s) result := by
  induction exits generalizing s with
  | done stop =>
      rcases inner.done _ s entered stop free with ⟨s', stepped, left⟩
      refine ⟨s', left, ?_⟩
      intro result
      rw [returns_next_iff (s := s), stepped]
  | more body _ ih =>
      rcases inner.more _ _ s entered body with ⟨s', stepped, entered'⟩
      rcases ih free entered' with ⟨s'', left, same⟩
      refine ⟨s'', left, ?_⟩
      intro result
      rw [same result, returns_next_iff (s := s), stepped]

theorem InnerLoop.reaches {E L : τ → σ → Prop} (inner : InnerLoop step loop Blocked E L)
    {t last : τ} (exits : LoopExits loop t last) (free : ¬Blocked last) {s : σ}
    (entered : E t s) : ∃ s', L last s' ∧ Reaches step (.next s) s' := by
  induction exits generalizing s with
  | done stop =>
      rcases inner.done _ s entered stop free with ⟨s', stepped, left⟩
      exact ⟨s', left, .more (stepped ▸ .here)⟩
  | more body _ ih =>
      rcases inner.more _ _ s entered body with ⟨s', stepped, entered'⟩
      rcases ih free entered' with ⟨s'', left, reaches⟩
      exact ⟨s'', left, .more (stepped ▸ reaches)⟩

theorem InnerLoop.exits_of_returns {E L : τ → σ → Prop}
    (inner : InnerLoop step loop Blocked E L) {t : τ} {s : σ} (entered : E t s) {result : ρ}
    (returned : Returns step (.next s) result) : ∃ last, LoopExits loop t last ∧ ¬Blocked last := by
  rcases returned with ⟨fuel, returned⟩
  induction fuel generalizing t s with
  | zero => simp at returned
  | succ fuel ih =>
      cases body : loop t with
      | none =>
          refine ⟨t, .done body, ?_⟩
          intro isBlocked
          rw [run_next_succ, inner.blocked t s entered body isBlocked] at returned
          simp at returned
      | some t' =>
          rcases inner.more t t' s entered body with ⟨s', stepped, entered'⟩
          rw [run_next_succ, stepped] at returned
          rcases ih entered' returned with ⟨last, rest, free⟩
          exact ⟨last, .more body rest, free⟩

end InnerLoop

end StepProgram

import Mathlib.Tactic.Common

/-!
# Systems that take labelled steps

A system has initial states and a relation that says which labels lead from which
state to which.  An invariant holds initially and is preserved by every step, so
it holds in every reachable state.  A system is restricted to the steps that meet
a condition on the label and the state before the step.  A record kept beside the
state, of the steps that have been taken, restricts no run.
-/

namespace Transition

universe u v w

/-- Initial states and labelled steps. -/
structure System (σ : Type u) (ℓ : Type v) where
  init : σ → Prop
  step : σ → ℓ → σ → Prop

namespace System

variable {σ : Type u} {ℓ : Type v} {sys : System σ ℓ} {allowed : σ → ℓ → Prop}

/-- The states that runs of a system reach. -/
inductive Reachable (sys : System σ ℓ) : σ → Prop where
  | init {s : σ} (starts : sys.init s) : Reachable sys s
  | step {s s' : σ} (label : ℓ) (before : Reachable sys s) (stepped : sys.step s label s') :
      Reachable sys s'

/-- The system that only takes the steps a condition allows. -/
def restrict (sys : System σ ℓ) (allowed : σ → ℓ → Prop) : System σ ℓ where
  init := sys.init
  step s label s' := allowed s label ∧ sys.step s label s'

def startingAt (sys : System σ ℓ) (start : σ) : System σ ℓ where
  init s := s = start
  step := sys.step

/-- What holds initially and is preserved by every step holds in every reachable state. -/
theorem Reachable.invariant {I : σ → Prop} {s : σ} (reachable : sys.Reachable s)
    (initially : ∀ s, sys.init s → I s)
    (preserved : ∀ s label s', I s → sys.step s label s' → I s') : I s := by
  induction reachable with
  | init starts => exact initially _ starts
  | step label _ stepped ih => exact preserved _ label _ ih stepped

theorem Reachable.mono {allowed' : σ → ℓ → Prop} {s : σ}
    (reachable : (sys.restrict allowed).Reachable s)
    (weaker : ∀ s label, allowed s label → allowed' s label) :
    (sys.restrict allowed').Reachable s := by
  induction reachable with
  | init starts => exact .init starts
  | step label _ stepped ih => exact .step label ih ⟨weaker _ _ stepped.1, stepped.2⟩

theorem Reachable.of_restrict {s : σ} (reachable : (sys.restrict allowed).Reachable s) :
    sys.Reachable s := by
  induction reachable with
  | init starts => exact .init starts
  | step label _ stepped ih => exact .step label ih stepped.2

section Record

variable {γ : Type w} {start : γ} {record : σ → ℓ → γ → γ} {s : σ}

/-- The system with a value beside its state that each step brings up to date. -/
def recording (sys : System σ ℓ) (start : γ) (record : σ → ℓ → γ → γ) : System (σ × γ) ℓ where
  init s := sys.init s.1 ∧ s.2 = start
  step s label s' := sys.step s.1 label s'.1 ∧ s'.2 = record s.1 label s.2

theorem Reachable.recorded (reachable : sys.Reachable s) :
    ∃ kept, (sys.recording start record).Reachable (s, kept) := by
  induction reachable with
  | init starts => exact ⟨start, .init ⟨starts, rfl⟩⟩
  | step label _ stepped ih =>
      rcases ih with ⟨kept, before⟩
      exact ⟨_, .step label before ⟨stepped, rfl⟩⟩

theorem Reachable.unrecorded {s : σ × γ} (reachable : (sys.recording start record).Reachable s) :
    sys.Reachable s.1 := by
  induction reachable with
  | init starts => exact .init starts.1
  | step label _ stepped ih => exact .step label ih stepped.1

end Record

end System

end Transition

import Libhelp.Config.Meaning

/-!
# Loads that run out of memory

Memory decides in one way only what a load does: where a request is refused the
load is left with an error and without an error line.  Up to there it is the load
with enough memory.
-/

namespace Libhelp

open StepProgram CString

section Step

variable {alloc : ℕ → Bool} {m m' : Loader}

/-- The outcome of a step for which memory is refused. -/
def OutOfMemory (m : Loader) (outcome : Outcome Loader LoadResult) : Prop :=
  ∃ result, outcome = .ret result ∧ result.ret = ERROR ∧
    result.config.lineError = m.config.lineError

theorem insertWord_memory (alloc : ℕ → Bool) (m : Loader) (key : Bytes) (value : Word)
    (after : Loader → Loader) :
    m.insertWord alloc key value after = m.insertWord ample key value after ∨
      OutOfMemory m (m.insertWord alloc key value after) := by
  unfold Loader.insertWord
  by_cases found : alloc m.requests
  · cases value with
    | none => exact .inl (by simp [found, ample])
    | some bytes =>
        by_cases copied : alloc (m.requests + 1)
        · exact .inl (by simp [found, copied, ample])
        · exact .inr ⟨_, (if_pos found).trans (if_neg copied), rfl, rfl⟩
  · exact .inr ⟨_, if_neg found, rfl, rfl⟩

theorem scanStep_memory (alloc : ℕ → Bool) (m : Loader) :
    m.scanStep alloc = m.scanStep ample ∨ OutOfMemory m (m.scanStep alloc) := by
  unfold Loader.scanStep
  cases m.state with
  | paramValue =>
      dsimp only
      split_ifs
      · exact insertWord_memory alloc m.cut m.cut.key _ _
      all_goals exact .inl rfl
  | paramQtValue =>
      dsimp only
      split_ifs
      · exact .inl rfl
      · exact insertWord_memory alloc m.cut m.cut.key _ _
      all_goals exact .inl rfl
  | _ => exact .inl rfl

theorem step_memory (alloc : ℕ → Bool) (m : Loader) :
    Loader.step alloc m = Loader.step ample m ∨ OutOfMemory m (Loader.step alloc m) := by
  unfold Loader.step
  cases m.copying with
  | none =>
      dsimp only
      split_ifs
      · exact scanStep_memory alloc m
      · exact .inl rfl
  | some copying =>
      dsimp only
      unfold Loader.copyStep
      cases copying.pw with
      | none => exact .inl rfl
      | some word =>
          dsimp only
          split_ifs
          · exact insertWord_memory alloc m _ word _
          · exact .inl rfl

theorem step_ample_of_next (stepped : Loader.step alloc m = .next m') :
    Loader.step ample m = .next m' := by
  rcases step_memory alloc m with same | ⟨result, left, _⟩
  · rw [← same, stepped]
  · rw [stepped] at left
    cases left

/-- An iteration of the main loop goes on by one byte, by two behind a backslash in a quoted
value, or it enters the copy loop. -/
theorem scanStep_next (stepped : m.scanStep ample = .next m') :
    m'.config.lineError = m.config.lineError ∧ m'.stop = m.stop ∧
      (m'.p = m.p + 1 ∨ m'.copying ≠ none ∨
        m.state = .paramQtValue ∧ byteAt m.src m.p = Ascii.backslash ∧ m'.p = m.p + 2) := by
  unfold Loader.scanStep at stepped
  cases state : m.state with
  | paramQtValue =>
      simp only [state] at stepped
      split_ifs at stepped with escaped
      · cases stepped
        exact ⟨rfl, rfl, .inr (.inr ⟨rfl, escaped.1, rfl⟩)⟩
      all_goals cases stepped
      all_goals exact ⟨rfl, rfl, .inl rfl⟩
  | paramCopyValue =>
      simp only [state] at stepped
      split_ifs at stepped
      all_goals cases stepped
      · exact ⟨rfl, rfl, .inr (.inl (by simp))⟩
      · exact ⟨rfl, rfl, .inl rfl⟩
  | _ =>
      simp only [state] at stepped
      split_ifs at stepped
      all_goals cases stepped
      all_goals exact ⟨rfl, rfl, .inl rfl⟩

theorem copyStep_next {copying : Copying} (stepped : m.copyStep ample copying = .next m') :
    m'.config.lineError = m.config.lineError := by
  unfold Loader.copyStep at stepped
  rcases copying with ⟨index, _ | word⟩
  · cases stepped
    rfl
  · dsimp only at stepped
    split_ifs at stepped
    · cases word with
      | none => cases stepped
      | some bytes =>
          cases stepped
          rfl
    · cases stepped
      rfl

theorem step_next_lineError (stepped : Loader.step ample m = .next m') :
    m'.config.lineError = m.config.lineError := by
  unfold Loader.step at stepped
  cases loop : m.copying with
  | none =>
      simp only [loop] at stepped
      split_ifs at stepped
      · exact (scanStep_next stepped).1
  | some copying =>
      simp only [loop] at stepped
      exact copyStep_next stepped

end Step

theorem returns_ample_of_lineError {alloc : ℕ → Bool} {fuel : ℕ} {m : Loader}
    {result : LoadResult} (returned : run (Loader.step alloc) fuel (.next m) = some result)
    (reports : result.config.lineError ≠ m.config.lineError) :
    Returns (Loader.step ample) (.next m) result := by
  induction fuel generalizing m with
  | zero => simp at returned
  | succ fuel ih =>
      rw [run_next_succ] at returned
      rw [returns_next_iff]
      rcases step_memory alloc m with same | ⟨refused, left, _, line⟩
      · rw [same] at returned
        cases stepped : Loader.step ample m with
        | next m' =>
            rw [stepped] at returned
            rw [← step_next_lineError stepped] at reports
            exact ih returned reports
        | ret value =>
            rw [stepped, run_ret] at returned
            rw [returns_ret_iff]
            exact Option.some.inj returned
        | stuck =>
            rw [stepped] at returned
            simp at returned
      · rw [left, run_ret] at returned
        rcases Option.some.inj returned with rfl
        exact absurd line reports

/-- A load that reports a line would report it with enough memory. -/
theorem loads_ample_of_lineError {alloc : ℕ → Bool} {config : Config} {text : Bytes}
    {result : LoadResult} (loads : Loads alloc config text result)
    (reports : result.config.lineError ≠ 0) : Loads ample config text result := by
  rcases loads with ⟨fuel, returned⟩
  unfold configLoad2 configLoad2Start at returned
  dsimp only at returned
  split_ifs at returned
  · rw [run_ret] at returned
    rcases Option.some.inj returned with rfl
    exact absurd rfl reports
  · rw [run_ret] at returned
    rcases Option.some.inj returned with rfl
    exact absurd rfl reports
  · exact returns_ample_of_lineError returned reports

end Libhelp

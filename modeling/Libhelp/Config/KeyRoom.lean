import Libhelp.Config.FileLoad
import Libhelp.Config.KeyBound
import Libhelp.Config.Memory

/-!
# Loads within the buffers

The loaders put keys together in `key` and let Judy write keys to `index`.  Both hold
`CONFIG_KEY_MAX_SIZE` bytes and a NUL, and nothing checks what is written there.
`Loader.stepWithin` is the loader that has no meaning where it would run over one of them.

All that is written there is a key of the configuration sooner or later.  So a load with
enough memory stays within the buffers if the keys that it leaves fit them, and a load within
the buffers leaves keys that fit them.
-/

namespace Libhelp

open StepProgram CString

/-- The buffers `key` and `index` can hold a key. -/
def KeyFits (key : Bytes) : Prop :=
  key.length ≤ CONFIG_KEY_MAX_SIZE

instance (key : Bytes) : Decidable (KeyFits key) :=
  inferInstanceAs (Decidable (_ ≤ _))

def KeysFitIn (data : Store) : Prop :=
  ∀ key ∈ data, KeyFits key

namespace Loader

/-- Judy has not run over `index`, and the next iteration of the copy loop does not run over
`key`. -/
def Fits (m : Loader) : Prop :=
  ∀ copying ∈ m.copying, copying.pw.isSome → KeyFits copying.index ∧
    (strncmpEq copying.index (cstr (m.src.drop m.pvalue)) (m.p - m.pvalue) →
      KeyFits (m.key ++ copying.index.drop (m.p - m.pvalue)))

instance : DecidablePred Fits :=
  fun m => inferInstanceAs (Decidable (∀ copying ∈ m.copying, copying.pw.isSome → _))

/-- A step of a loader that stays within its buffers. -/
def stepWithin (alloc : ℕ → Bool) : Loader → Outcome Loader LoadResult :=
  within Fits (step alloc)

end Loader

variable {alloc : ℕ → Bool} {m m' : Loader} {result : LoadResult} {fuel : ℕ}

section Within

theorem stepWithin_of_done (done : ∀ copying ∈ m.copying, copying.pw = none) :
    m.stepWithin alloc = m.step alloc := by
  refine if_pos ?_
  intro copying loop isSome
  rw [done copying loop] at isSome
  cases isSome

/-- The copy loop with the sizes of its buffers. -/
theorem stepWithin_of_copying {index : Bytes} {word : Word}
    (loop : m.copying = some ⟨index, some word⟩) :
    m.stepWithin alloc =
      if index.length > CONFIG_KEY_MAX_SIZE then
        .stuck
      else if strncmpEq index (cstr (m.src.drop m.pvalue)) (m.p - m.pvalue) then
        if (m.key ++ index.drop (m.p - m.pvalue)).length > CONFIG_KEY_MAX_SIZE then
          .stuck
        else
          m.insertWord alloc (m.key ++ index.drop (m.p - m.pvalue)) word fun m =>
            { m with copying := some (Loader.found index (m.config.data.nextAfter index)) }
      else
        .next { m with copying := none, state := .space, p := m.p + 1 } := by
  have fits : m.Fits ↔ KeyFits index ∧
      (strncmpEq index (cstr (m.src.drop m.pvalue)) (m.p - m.pvalue) →
        KeyFits (m.key ++ index.drop (m.p - m.pvalue))) := by
    simp [Loader.Fits, loop]
  rw [Loader.stepWithin, within, Loader.step, loop]
  dsimp only [Loader.copyStep]
  by_cases short : KeyFits index
  · rw [if_neg (not_lt.mpr short)]
    by_cases equal : strncmpEq index (cstr (m.src.drop m.pvalue)) (m.p - m.pvalue)
    · rw [if_pos equal, if_pos equal]
      by_cases room : KeyFits (m.key ++ index.drop (m.p - m.pvalue))
      · rw [if_pos (fits.mpr ⟨short, fun _ => room⟩), if_neg (not_lt.mpr room)]
      · rw [if_neg fun isFit => room ((fits.mp isFit).2 equal), if_pos (not_le.mp room)]
    · rw [if_pos (fits.mpr ⟨short, fun isEqual => absurd isEqual equal⟩), if_neg equal,
        if_neg equal]
  · rw [if_neg fun isFit => short (fits.mp isFit).1, if_pos (not_le.mp short)]

end Within

section Step

/-- What Judy has written to `index` is a key. -/
def Indexed (data : Store) (copying : Option Copying) : Prop :=
  ∀ looping ∈ copying, looping.pw.isSome → looping.index ∈ data

/-- A step of a load adds a key at most, and what it finds in the copy loop is a key. -/
inductive Extends (data : Store) : Outcome Loader LoadResult → Prop where
  | next (m' : Loader) (kept : ∀ key ∈ data, key ∈ m'.config.data)
      (indexed : Indexed m'.config.data m'.copying) : Extends data (.next m')
  | ret (result : LoadResult) (kept : ∀ key ∈ data, key ∈ result.config.data) :
      Extends data (.ret result)
  | stuck : Extends data .stuck

theorem indexed_none {data : Store} {copying : Option Copying} (idle : copying = none) :
    Indexed data copying := by
  subst idle
  simp [Indexed]

theorem indexed_found {data : Store} {index : Bytes} {entry : Option (Bytes × Word)}
    (stored : ∀ current ∈ entry, current ∈ data.entries) :
    Indexed data (some (Loader.found index entry)) := by
  rintro looping ⟨⟩ isSome
  cases entry with
  | none => cases isSome
  | some current => exact ⟨current.2, stored current rfl⟩

theorem kept_insert {data : Store} (key : Bytes) (word : Word) :
    ∀ other ∈ data, other ∈ data.insert key word :=
  fun _ stored => OrdMap.mem_insert.mpr (.inr stored)

theorem insertWord_extends {key : Bytes} {word : Word} {after : Loader → Loader}
    (kept : ∀ m, (after m).config = m.config)
    (indexed : ∀ config requests,
      Indexed config.data (after { m with config := config, requests := requests }).copying) :
    Extends m.config.data (m.insertWord alloc key word after) := by
  rcases m.insertWord_cases alloc key word after with
    crash | ⟨result, left, -, same⟩ | ⟨bytes, -, next⟩
  · rw [crash]
    exact .stuck
  · rw [left]
    refine .ret result ?_
    rcases same with same | same
    · rw [same]
      exact fun _ stored => stored
    · rw [same]
      exact kept_insert key none
  · rw [next]
    refine .next _ ?_ ?_
    · rw [kept]
      exact kept_insert key (some bytes)
    · rw [kept]
      exact indexed _ _

theorem scanStep_extends (idle : m.copying = none) : Extends m.config.data (m.scanStep alloc) := by
  have goesOn : ∀ m' : Loader, m'.config = m.config → m'.copying = none →
      Extends m.config.data (.next m') := by
    intro m' config idle'
    refine .next m' ?_ (indexed_none idle')
    rw [config]
    exact fun _ stored => stored
  have fails : ∀ result : LoadResult, result.config.data = m.config.data →
      Extends m.config.data (.ret result) := by
    intro result same
    refine .ret result ?_
    rw [same]
    exact fun _ stored => stored
  have inserts : ∀ after : Loader → Loader, (∀ m, (after m).config = m.config) →
      (∀ m, (after m).copying = m.copying) →
      Extends m.config.data (m.cut.insertWord alloc m.cut.key (some m.cut.value) after) :=
    fun after config copying =>
      @insertWord_extends _ m.cut _ _ _ config fun _ _ => indexed_none ((copying _).trans idle)
  unfold Loader.scanStep
  cases state : m.state with
  | paramValue =>
      dsimp only
      split_ifs
      · exact inserts _ (fun _ => rfl) fun _ => rfl
      · exact fails _ rfl
      · exact goesOn _ rfl idle
  | paramQtValue =>
      dsimp only
      split_ifs
      · exact goesOn _ rfl idle
      · exact inserts _ (fun _ => rfl) fun _ => rfl
      · exact fails _ rfl
      · exact goesOn _ rfl idle
  | paramCopyValue =>
      dsimp only
      split_ifs
      · exact fails _ rfl
      · refine .next _ (fun _ stored => stored) (indexed_found ?_)
        exact fun current first => (OrdMap.firstFrom_eq_some_iff.mp first).1
      · exact fails _ rfl
      · exact goesOn _ rfl idle
  | _ =>
      dsimp only
      split_ifs
      all_goals first | exact goesOn _ rfl idle | exact fails _ rfl

theorem step_extends (alloc : ℕ → Bool) (m : Loader) : Extends m.config.data (m.step alloc) := by
  unfold Loader.step
  cases loop : m.copying with
  | some copying =>
      dsimp only
      unfold Loader.copyStep
      rcases copying with ⟨index, _ | word⟩
      · exact .next _ (fun _ stored => stored) (indexed_none rfl)
      · dsimp only
        split_ifs
        · refine insertWord_extends (fun _ => rfl) fun config requests => indexed_found ?_
          exact fun current next => (OrdMap.nextAfter_eq_some_iff.mp next).1
        · exact .next _ (fun _ stored => stored) (indexed_none rfl)
  | none =>
      dsimp only
      split_ifs
      · exact scanStep_extends loop
      · exact .ret _ fun _ stored => stored

end Step

section Run

theorem Extends.trans {data data' : Store} {outcome : Outcome Loader LoadResult}
    (kept : ∀ key ∈ data, key ∈ data') (extends' : Extends data' outcome) :
    Extends data outcome := by
  cases extends' with
  | next m kept' indexed => exact .next m (fun key stored => kept' key (kept key stored)) indexed
  | ret result kept' => exact .ret result fun key stored => kept' key (kept key stored)
  | stuck => exact .stuck

/-- The keys of a load are still there when it returns. -/
theorem keys_kept {outcome : Outcome Loader LoadResult} {data : Store}
    (extends' : Extends data outcome)
    (returned : run (Loader.step alloc) fuel outcome = some result) :
    ∀ key ∈ data, key ∈ result.config.data := by
  have stays : ∀ m, Extends data (.next m) → Extends data (Loader.step alloc m) := by
    intro m extends'
    cases extends' with
    | next _ kept _ => exact (step_extends alloc m).trans kept
  cases run_invariant stays extends' returned with
  | ret _ kept => exact kept

/-- With enough memory the copy loop stores each key that it puts together. -/
theorem fits_of_returned (indexed : Indexed m.config.data m.copying)
    (returned : run (Loader.step ample) fuel (.next m) = some result)
    (fit : KeysFitIn result.config.data) : m.Fits := by
  rintro ⟨index, word⟩ loop isSome
  rcases Option.isSome_iff_exists.mp isSome with ⟨value, rfl⟩
  have kept : ∀ key ∈ m.config.data, key ∈ result.config.data :=
    keys_kept (.next m (fun _ stored => stored) indexed) returned
  refine ⟨fit _ (kept _ (indexed _ loop isSome)), ?_⟩
  intro equal
  have stepped : m.step ample = m.insertWord ample (m.key ++ index.drop (m.p - m.pvalue)) value
      fun m => { m with
        copying := some (Loader.found index (m.config.data.nextAfter index)) } := by
    unfold Loader.step
    rw [show m.copying = _ from loop]
    exact if_pos equal
  cases fuel with
  | zero => simp at returned
  | succ fuel =>
      rw [run_next_succ, stepped] at returned
      cases value with
      | none => simp [Loader.insertWord, ample] at returned
      | some bytes =>
          refine fit _ (keys_kept (.next _ (fun _ stored => stored) (indexed_found ?_)) returned _ ?_)
          · exact fun current next => (OrdMap.nextAfter_eq_some_iff.mp next).1
          · exact OrdMap.mem_insert.mpr (.inl rfl)

theorem configLoad2Start_idle {config : Config} {text : Bytes}
    (started : configLoad2Start alloc config text = .next m) : m.copying = none := by
  unfold configLoad2Start at started
  dsimp only at started
  split_ifs at started
  cases started
  rfl

/-- A load with enough memory stays within its buffers if the keys that it leaves fit them. -/
theorem configLoad2_within {config : Config} {text : Bytes}
    (returned : configLoad2 ample config text fuel = some result)
    (fit : KeysFitIn result.config.data) :
    run (Loader.stepWithin ample) fuel (configLoad2Start ample config text) = some result := by
  apply run_within_of_returned (I := fun m => Indexed m.config.data m.copying) _ _ _ returned
  · intro m m' stepped
    cases stepped ▸ step_extends ample m with
    | next _ _ indexed => exact indexed
  · intro m fuel indexed returned
    exact fits_of_returned indexed returned fit
  · intro m started
    exact indexed_none (configLoad2Start_idle started)

theorem Loader.Fits.copyFits (fits : m.Fits) : CopyFits (.loading alloc m) .work := by
  intro copying loop isSome equal
  have short := (fits copying loop (Option.isSome_iff_ne_none.mpr isSome)).2 equal
  rw [KeyFits, List.length_append] at short
  exact short

/-- A load within its buffers leaves keys that fit them. -/
theorem storeOk_of_within {config : Config} {text : Bytes} (ok : StoreOk config.data)
    (free : NulFree text)
    (returned : run (Loader.stepWithin alloc) fuel (configLoad2Start alloc config text) =
      some result) : StoreOk result.config.data := by
  apply run_within_invariant
    (I := fun outcome => ∀ s, Session.after alloc outcome = some s → SessionOk s) _ _ returned
      _ rfl
  · intro m fits holds s stepped
    have copyFits : CopyFits (.loading alloc m) .work := fits.copyFits
    exact SessionOk.step (holds _ rfl) copyFits stepped
  · intro s started
    exact load_step ok free started

theorem StoreOk.keysFitIn {data : Store} (ok : StoreOk data) : KeysFitIn data := by
  rintro key ⟨word, stored⟩
  exact (ok _ stored).2.2

end Run

end Libhelp

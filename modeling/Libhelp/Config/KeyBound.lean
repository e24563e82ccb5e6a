import Libhelp.Config.CopyStatement
import Libhelp.Lib.Transition

/-!
# Keys over a session of loads

A session loads texts into one configuration, one after the other.  Every key a
statement writes out is checked, but the keys of a copy are put together from its
target and a suffix of a stored key, and nothing checks their length.  As long as
no copy step puts together a key that is too long, all stored keys are well formed
and fit the buffers of the loaders.
-/

namespace Libhelp

open StepProgram CString PrefixCopy Transition

/-- A configuration between two loads, or inside one. -/
inductive Session where
  | idle (config : Config)
  | loading (alloc : ℕ → Bool) (m : Loader)

/-- What happens in a session. -/
inductive SessionEvent where
  /-- `config_load2` is called on a text. -/
  | load (alloc : ℕ → Bool) (text : Bytes)
  /-- The running load makes a step. -/
  | work

namespace Session

def config : Session → Config
  | .idle config => config
  | .loading _ m => m.config

/-- The session after a step of a load. -/
def after (alloc : ℕ → Bool) : Outcome Loader LoadResult → Option Session
  | .next m => some (.loading alloc m)
  | .ret result => some (.idle result.config)
  | .stuck => none

def step : Session → SessionEvent → Session → Prop
  | .idle config, .load alloc text, s =>
      NulFree text ∧ after alloc (configLoad2Start alloc config text) = some s
  | .loading alloc m, .work, s => after alloc (m.step alloc) = some s
  | _, _, _ => False

/-- Any number of loads into a new configuration. -/
def system : System Session SessionEvent :=
  ⟨fun s => s = .idle Config.new, step⟩

end Session

def KeyOk (key : Bytes) : Prop :=
  key ≠ [] ∧ KeyBytes key ∧ key.length ≤ CONFIG_KEY_MAX_SIZE

/-- All stored keys are well formed, and the buffer `index` can hold what Judy wrote there. -/
structure KeysFit (s : Session) : Prop where
  stored : ∀ entry ∈ s.config.data.entries, KeyOk entry.1
  index : ∀ alloc m copying, s = .loading alloc m → m.copying = some copying →
    copying.index.length ≤ CONFIG_KEY_MAX_SIZE

/-- When a copy step is about to put together a key, the length of the target and of the
suffix of the key at the cursor add up to at most `CONFIG_KEY_MAX_SIZE`. -/
def CopyFits : Session → SessionEvent → Prop
  | .loading _ m, .work => ∀ copying, m.copying = some copying → copying.pw ≠ none →
      strncmpEq copying.index (cstr (m.src.drop m.pvalue)) (m.p - m.pvalue) →
      m.key.length + (copying.index.drop (m.p - m.pvalue)).length ≤ CONFIG_KEY_MAX_SIZE
  | _, _ => True

section Reader

/-- The key a reader remembers is well formed. -/
def Mode.KeyOk : Mode → Prop
  | .inKey acc => acc ≠ [] ∧ KeyBytes acc
  | .afterKey key | .inValue key _ | .inQuoted key _ | .inCopy key _ => Libhelp.KeyOk key
  | _ => True

/-- The keys a statement writes out are well formed, and its source fits `index`. -/
def Stmt.KeysOk : Stmt → Prop
  | .assign key _ => KeyOk key
  | .copy target source => KeyOk target ∧ source.length ≤ CONFIG_KEY_MAX_SIZE

theorem Mode.KeyOk.next {mode : Mode} (ok : mode.KeyOk) (c : UInt8) : (mode.next c).KeyOk := by
  cases mode with
  | space =>
      simp only [Mode.next]
      split_ifs with allowed
      · exact ⟨by simp, List.forall_mem_singleton.mpr allowed⟩
      all_goals trivial
  | inKey acc =>
      simp only [Mode.next]
      split_ifs with allowed blank long
      · exact ⟨by simp, KeyBytes.concat ok.2 allowed⟩
      · trivial
      · exact ⟨ok.1, ok.2, not_lt.mp long⟩
      · trivial
  | failed fault => trivial
  | _ =>
      simp only [Mode.next]
      split_ifs <;> first | exact ok | trivial

theorem Mode.KeyOk.emit {mode : Mode} (ok : mode.KeyOk) {c : UInt8} {stmt : Stmt}
    (emitted : mode.emit c = [stmt]) : stmt.KeysOk := by
  cases mode with
  | inValue key acc =>
      simp only [Mode.emit] at emitted
      split_ifs at emitted
      rcases List.singleton_inj.mp emitted with rfl
      exact ok
  | inQuoted key acc =>
      simp only [Mode.emit] at emitted
      split_ifs at emitted
      rcases List.singleton_inj.mp emitted with rfl
      exact ok
  | inCopy key acc =>
      simp only [Mode.emit] at emitted
      split_ifs at emitted with ends
      rcases List.singleton_inj.mp emitted with rfl
      exact ⟨ok, ends.2⟩
  | _ => simp [Mode.emit] at emitted

theorem Mode.KeyOk.feed {s : Scan} (ok : s.mode.KeyOk) (text : Bytes) :
    (s.feed text).mode.KeyOk := by
  induction text generalizing s with
  | nil => exact ok
  | cons c text ih => exact ih (ok.next c)

end Reader

section Invariant

def StoreOk (data : Store) : Prop :=
  ∀ entry ∈ data.entries, KeyOk entry.1

theorem StoreOk.insert {data : Store} (ok : StoreOk data) {key : Bytes} (keyOk : KeyOk key)
    (word : Word) : StoreOk (data.insert key word) := by
  intro entry mem
  rcases OrdMap.mem_entries_insert.mp mem with rfl | ⟨old, _⟩
  · exact keyOk
  · exact ok entry old

/-- A loader between two bytes, with a well-formed pending key. -/
def Reading (m : Loader) : Prop :=
  ∃ s front rest, Sim m s front rest ∧ s.mode.KeyOk

/-- A loader in the copy loop of a well-formed statement. -/
def CopyingKeys (m : Loader) : Prop :=
  ∃ target source s front rest index entry, InLoop m target source s front rest ∧ KeyOk target ∧
    m.copying = some (Loader.found index entry) ∧ index.length ≤ CONFIG_KEY_MAX_SIZE ∧
    ∀ current, entry = some current → current ∈ m.config.data.entries

def SessionOk : Session → Prop
  | .idle config => StoreOk config.data
  | .loading _ m => StoreOk m.config.data ∧ (Reading m ∨ CopyingKeys m)

theorem Sim.idle_of_loading {m : Loader} {s : Scan} {front rest : Bytes}
    (sim : Sim m s front rest) {copying : Copying} : m.copying ≠ some copying := by
  simp [sim.idle]

theorem SessionOk.keysFit {s : Session} (ok : SessionOk s) : KeysFit s := by
  cases s with
  | idle config => exact ⟨ok, by simp⟩
  | loading alloc m =>
      refine ⟨ok.1, ?_⟩
      rintro _ _ copying ⟨⟩ loop
      rcases ok.2 with ⟨_, _, _, sim, _⟩ | ⟨_, _, _, _, _, index, entry, _, _, started, short, mem⟩
      · exact absurd loop sim.idle_of_loading
      · rw [started] at loop
        rcases Option.some.inj loop with rfl
        cases entry with
        | none => exact short
        | some current => exact (ok.1 current (mem current rfl)).2.2

theorem insertWord_ok {alloc : ℕ → Bool} {m : Loader} {key : Bytes} {value : Word}
    {next : Loader → Loader} {s : Session} (ok : StoreOk m.config.data) (keyOk : KeyOk key)
    (kept : ∀ m', (next m').config = m'.config)
    (goesOn : ∀ config requests, config.data = m.config.data.insert key value →
      Reading (next { m with config := config, requests := requests }) ∨
        CopyingKeys (next { m with config := config, requests := requests }))
    (stepped : Session.after alloc (m.insertWord alloc key value next) = some s) :
    SessionOk s := by
  rcases m.insertWord_cases alloc key value next with
    crash | ⟨result, eq, _, data⟩ | ⟨bytes, same, eq⟩
  · simp [crash, Session.after] at stepped
  · rw [eq] at stepped
    rcases Option.some.inj stepped with rfl
    rcases data with same | same
    · simpa [SessionOk, same] using ok
    · simpa [SessionOk, same] using ok.insert keyOk none
  · rw [eq] at stepped
    rcases Option.some.inj stepped with rfl
    refine ⟨?_, goesOn _ _ (by rw [same])⟩
    rw [kept]
    exact ok.insert keyOk (some bytes)

theorem reading_step {alloc : ℕ → Bool} {m : Loader} {s : Session} (ok : StoreOk m.config.data)
    (reading : Reading m) (stepped : Session.after alloc (m.step alloc) = some s) :
    SessionOk s := by
  rcases reading with ⟨scan, front, rest, sim, keyOk⟩
  cases rest with
  | nil =>
      rw [sim.step_end] at stepped
      rcases Option.some.inj stepped with rfl
      exact ok
  | cons c rest =>
      cases step_cases alloc sim with
      | quiet m' eaten front' rest' split progress silent next config sim' =>
          rw [next] at stepped
          rcases Option.some.inj stepped with rfl
          exact ⟨by rwa [config], .inl ⟨_, _, _, sim', keyOk.feed eaten⟩⟩
      | fault c' rest' fault split silent failed next =>
          rw [next] at stepped
          rcases Option.some.inj stepped with rfl
          exact ok
      | assign c' front' rest' key value cut after split emitted next config kept sim' =>
          rw [next] at stepped
          refine insertWord_ok (by rwa [config]) (keyOk.emit emitted) kept ?_ stepped
          intro config' requests _
          exact .inl ⟨_, _, _, sim' config' requests, keyOk.next c'⟩
      | copy c' front' rest' target source m' split emitted next config started inside =>
          rw [next] at stepped
          rcases Option.some.inj stepped with rfl
          rcases keyOk.emit emitted with ⟨targetOk, short⟩
          refine ⟨by rwa [config], .inr ⟨target, source, _, _, _, source, _, inside, targetOk,
            started, short, ?_⟩⟩
          intro current found
          rw [config]
          exact (OrdMap.firstFrom_eq_some_iff.mp found).1

theorem KeyOk.append_suffix {target source suffix : Bytes} (targetOk : KeyOk target)
    (stored : KeyOk (source ++ suffix))
    (fits : target.length + suffix.length ≤ CONFIG_KEY_MAX_SIZE) : KeyOk (target ++ suffix) := by
  refine ⟨by simp [targetOk.1], ?_, by simpa using fits⟩
  intro c mem
  rcases List.mem_append.mp mem with inTarget | inSuffix
  · exact targetOk.2.1 c inTarget
  · exact stored.2.1 c (List.mem_append_right _ inSuffix)

/-- A step of the copy loop that puts together a short enough key keeps the keys well formed. -/
theorem copying_step {alloc : ℕ → Bool} {m : Loader} {s : Session} (ok : StoreOk m.config.data)
    (copying : CopyingKeys m) (fits : CopyFits (.loading alloc m) .work)
    (stepped : Session.after alloc (m.step alloc) = some s) : SessionOk s := by
  rcases copying with ⟨target, source, scan, front, rest, index, entry, inside, targetOk, started,
    short, mem⟩
  cases next : body source target ⟨m.config.data, entry⟩ with
  | none =>
      rcases inside.leaves alloc started ⟨index, rfl⟩ next with ⟨m', left, config, sim⟩
      rw [left] at stepped
      rcases Option.some.inj stepped with rfl
      exact ⟨by rwa [config], .inl ⟨_, _, _, sim, by simp [inside.mode, Mode.KeyOk]⟩⟩
  | some cursor =>
      rcases body_eq_some_iff.mp next with ⟨suffix, word, found, _⟩
      simp only at found
      subst found
      have storedOk : KeyOk (source ++ suffix) := ok _ (mem _ rfl)
      have bounded : target.length + suffix.length ≤ CONFIG_KEY_MAX_SIZE := by
        have := fits _ started (by simp [Loader.found])
        simp only [Loader.found, inside.value.length_eq inside.p, inside.value.cstr_eq inside.src,
          inside.value.key_eq inside.src, strncmpEq_iff, List.drop_left] at this
        exact this (List.prefix_append _ _)
      rcases inside.iterates alloc started ⟨index, rfl⟩ with ⟨after, iterated, kept, inLoop⟩
      rw [iterated] at stepped
      refine insertWord_ok ok (targetOk.append_suffix storedOk bounded) kept ?_ stepped
      intro config requests _
      rcases inLoop config requests with ⟨loop, inside'⟩
      refine .inr ⟨target, source, _, _, _, _, _, inside', targetOk, loop, storedOk.2.2, ?_⟩
      intro current found
      rw [kept]
      exact (OrdMap.nextAfter_eq_some_iff.mp found).1

theorem load_step {alloc : ℕ → Bool} {config : Config} {text : Bytes} {s : Session}
    (ok : StoreOk config.data) (free : NulFree text)
    (stepped : Session.after alloc (configLoad2Start alloc config text) = some s) :
    SessionOk s := by
  unfold configLoad2Start at stepped
  split_ifs at stepped
  · rcases Option.some.inj stepped with rfl
    exact ok
  · rcases Option.some.inj stepped with rfl
    exact ok
  · rcases Option.some.inj stepped with rfl
    refine ⟨ok, .inl ⟨Scan.initial, [], text, ?_, trivial⟩⟩
    rw [strlen, cstr_of_nulFree free]
    exact sim_start _ _ free

/-- Every step that puts together a short enough key preserves the invariant. -/
theorem SessionOk.step {s s' : Session} {event : SessionEvent} (ok : SessionOk s)
    (fits : CopyFits s event) (stepped : Session.step s event s') : SessionOk s' := by
  cases s with
  | idle config =>
      cases event with
      | load alloc text => exact load_step ok stepped.1 stepped.2
      | work => exact stepped.elim
  | loading alloc m =>
      cases event with
      | load _ _ => exact stepped.elim
      | work =>
          rcases ok with ⟨storeOk, reading | copying⟩
          · exact reading_step storeOk reading stepped
          · exact copying_step storeOk copying fits stepped

end Invariant

section Runs

variable {alloc : ℕ → Bool}

theorem reachable_of_run {outcome : Outcome Loader LoadResult} {fuel : ℕ} {result : LoadResult}
    (reached : ∀ s, Session.after alloc outcome = some s → Session.system.Reachable s)
    (returned : run (Loader.step alloc) fuel outcome = some result) :
    Session.system.Reachable (.idle result.config) := by
  induction fuel generalizing outcome with
  | zero =>
      cases outcome with
      | next m => simp at returned
      | ret value =>
          rcases Option.some.inj ((run_ret _ _).symm.trans returned) with rfl
          exact reached _ rfl
      | stuck => simp at returned
  | succ fuel ih =>
      cases outcome with
      | next m =>
          refine ih ?_ returned
          intro s stepped
          exact (reached _ rfl).step .work stepped
      | ret value =>
          rcases Option.some.inj ((run_ret _ _).symm.trans returned) with rfl
          exact reached _ rfl
      | stuck => simp at returned

theorem reachable_of_loads {config : Config} {text : Bytes} {result : LoadResult}
    (before : Session.system.Reachable (.idle config)) (free : NulFree text)
    (loads : Loads alloc config text result) : Session.system.Reachable (.idle result.config) := by
  rcases loads with ⟨fuel, returned⟩
  refine reachable_of_run ?_ returned
  intro s stepped
  exact before.step (.load alloc text) ⟨free, stepped⟩

theorem reachable_work {m : Loader} {s : Session}
    (before : (Session.system.restrict CopyFits).Reachable (.loading alloc m))
    (idle : m.copying = none) (stepped : Session.after alloc (m.step alloc) = some s) :
    (Session.system.restrict CopyFits).Reachable s := by
  refine before.step .work ⟨?_, stepped⟩
  intro copying loop
  simp [idle] at loop

end Runs

/-- In every session in which no copy step puts together a key that is too long, all stored
keys are well formed and short and what Judy writes back fits `index`. -/
theorem keys_fit {s : Session} (reachable : (Session.system.restrict CopyFits).Reachable s) :
    KeysFit s := by
  refine SessionOk.keysFit (reachable.invariant ?_ ?_)
  · rintro _ rfl
    simp [SessionOk, StoreOk, Config.new]
  · rintro s event s' ok ⟨fits, stepped⟩
    exact ok.step fits stepped

/-- The text `ab 2;c @a;`. -/
theorem keys_fit_copy :
    ∃ s : Session, s.config.data.entries = [([97, 98], some [50]), ([99, 98], some [50])] ∧
      KeysFit s := by
  let text : Bytes := [97, 98, 32, 50, 59, 99, 32, 64, 97, 59]
  let stored : Store := (∅ : Store).insert [97, 98] (some [50])
  let copied : Store := stored.insert [99, 98] (some [50])
  let cut : Bytes := [97, 98, 0, 50, 0, 99, 0, 64, 97, 0, 0]
  have loaded : (Session.system.restrict CopyFits).Reachable
      (.loading ample (Loader.start ⟨∅, 0, some text⟩ 2 (text ++ [0]) 10)) :=
    .step (.load ample text) (.init rfl) ⟨trivial, by decide, rfl⟩
  have between : (Session.system.restrict CopyFits).Reachable
      (.loading ample ⟨⟨stored, 0, some text⟩, 4, [97, 98, 0, 50, 0, 99, 32, 64, 97, 59, 0], 10,
        .space, 1, 5, 0, 3, none⟩) :=
    reachable_work (reachable_work (reachable_work (reachable_work (reachable_work
      loaded rfl rfl) rfl rfl) rfl rfl) rfl rfl) rfl rfl
  have copying : (Session.system.restrict CopyFits).Reachable
      (.loading ample ⟨⟨stored, 0, some text⟩, 4, cut, 10, .paramCopyValue, 1, 9, 5, 8,
        some ⟨[97, 98], some (some [50])⟩⟩) :=
    reachable_work (reachable_work (reachable_work (reachable_work (reachable_work
      between rfl rfl) rfl rfl) rfl rfl) rfl rfl) rfl rfl
  have copies : CopyFits (.loading ample ⟨⟨stored, 0, some text⟩, 4, cut, 10, .paramCopyValue, 1,
      9, 5, 8, some ⟨[97, 98], some (some [50])⟩⟩) .work := by
    rintro _ ⟨⟩ - -
    decide
  exact ⟨.loading ample ⟨⟨copied, 0, some text⟩, 6, cut, 10, .paramCopyValue, 1, 9, 5, 8,
    some ⟨[99, 98], some (some [50])⟩⟩, rfl, keys_fit (copying.step .work ⟨copies, rfl⟩)⟩

/-- A copy of `ab` from `a` to a key of 64 bytes stores a key of 65 bytes. -/
theorem copied_key_too_long :
    ∃ s, Session.system.Reachable s ∧ List.replicate 64 120 ++ [98] ∈ s.config.data ∧
      ¬KeysFit s := by
  have loads : Loads ample Config.new
      ([97, 98, 32, 50, 59] ++ List.replicate 64 120 ++ [32, 64, 97, 59])
      ⟨OK, ⟨((∅ : Store).insert [97, 98] (some [50])).insert (List.replicate 64 120 ++ [98])
        (some [50]), 0, some ([97, 98, 32, 50, 59] ++ List.replicate 64 120 ++ [32, 64, 97, 59])⟩,
        none⟩ := ⟨100, rfl⟩
  have stored : (List.replicate 64 120 ++ [98], some [50]) ∈
      (((∅ : Store).insert [97, 98] (some [50])).insert (List.replicate 64 120 ++ [98])
        (some [50])).entries := OrdMap.mem_entries_insert.mpr (.inl rfl)
  refine ⟨_, reachable_of_loads (.init rfl) (by decide) loads, ⟨_, stored⟩, ?_⟩
  intro fit
  exact absurd (fit.stored _ stored).2.2 (by decide)

end Libhelp

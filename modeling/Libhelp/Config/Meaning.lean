import Libhelp.Config.Simulation

/-!
# What a load does

The statements of a text act on the store one after the other: an assignment
binds a key, a copy overlays the store by a terminating run of the copy loop.
When memory does not run out, `config_load2` returns exactly what reading the
text and executing its statements gives, and it returns at all exactly when the
copy loops of the text end.
-/

namespace Libhelp

open StepProgram CString PrefixCopy

/-- Memory that does not run out. -/
def ample : ℕ → Bool :=
  fun _ => true

/-- An iteration of the copy loop on the store; it does not get past a `NULL` word. -/
def copyBody (source target : Bytes) (cursor : Cursor UInt8 Word) : Option (Cursor UInt8 Word) :=
  match cursor.entry with
  | some (_, none) => none
  | _ => body source target cursor

/-- The cursor is on a `NULL` word that the copy loop would pass to `strlen`. -/
def AtNull (source : Bytes) (cursor : Cursor UInt8 Word) : Prop :=
  ∃ key, cursor.entry = some (key, none) ∧ source <+: key

/-- The copy loop of a statement ends and turns one store into the other. -/
def Copied (source target : Bytes) (data middle : Store) : Prop :=
  ∃ entry, LoopExits (copyBody source target) (PrefixCopy.start data source) ⟨middle, entry⟩ ∧
    ¬AtNull source ⟨middle, entry⟩

/-- The effect of statements on a store, where all their copy loops end. -/
inductive Exec : Store → List Stmt → Store → Prop where
  | nil {data : Store} : Exec data [] data
  | assign {data last : Store} {key value : Bytes} {rest : List Stmt}
      (tail : Exec (data.insert key (some value)) rest last) :
      Exec data (.assign key value :: rest) last
  | copy {data middle last : Store} {target source : Bytes} {rest : List Stmt}
      (copied : Copied source target data middle) (tail : Exec middle rest last) :
      Exec data (.copy target source :: rest) last

/-- What a loader returns when a reader has read the whole text. -/
def Scan.result (s : Scan) (config : Config) (data : Store) : LoadResult :=
  match s.mode with
  | .failed fault =>
      ⟨ERROR, { config with data := data, lineError := s.line }, some (fault.message s.line)⟩
  | _ => ⟨OK, { config with data := data }, none⟩

theorem Scan.result_of_not_failed {s : Scan} (accepted : ∀ fault, s.mode ≠ .failed fault)
    (config : Config) (data : Store) :
    s.result config data = ⟨OK, { config with data := data }, none⟩ := by
  unfold Scan.result
  split
  · exact absurd ‹_› (accepted _)
  · rfl

@[simp]
theorem Scan.result_data {s : Scan} {config : Config} {data : Store} :
    (s.result config data).config.data = data := by
  unfold Scan.result
  split <;> rfl

theorem Scan.result_lineError {s : Scan} {config : Config} {data : Store} :
    (s.result config data).config.lineError =
      if s.mode.isFailed then s.line else config.lineError := by
  cases mode : s.mode <;> simp [Scan.result, mode, Mode.isFailed]

theorem Scan.result_ret_error_iff {s : Scan} {config : Config} {data : Store} :
    (s.result config data).ret = ERROR ↔ s.mode.isFailed := by
  cases mode : s.mode <;> simp [Scan.result, mode, Mode.isFailed, OK, ERROR]

theorem Scan.result_ret_ok_iff {s : Scan} {config : Config} {data : Store} :
    (s.result config data).ret = OK ↔ s.mode.isFailed = false := by
  cases mode : s.mode <;> simp [Scan.result, mode, Mode.isFailed, OK, ERROR]

theorem copyBody_eq_some_iff {source target : Bytes} {cursor after : Cursor UInt8 Word} :
    copyBody source target cursor = some after ↔
      ∃ suffix value, cursor.entry = some (source ++ suffix, some value) ∧
        after = ⟨cursor.map.insert (target ++ suffix) (some value),
          (cursor.map.insert (target ++ suffix) (some value)).nextAfter (source ++ suffix)⟩ := by
  unfold copyBody
  split
  · rename_i key found
    simp [found]
  · rename_i notNull
    rw [body_eq_some_iff]
    constructor
    · rintro ⟨suffix, _ | value, found, same⟩
      · exact absurd found (notNull _)
      · exact ⟨suffix, value, found, same⟩
    · rintro ⟨suffix, value, found, same⟩
      exact ⟨suffix, some value, found, same⟩

theorem Copied.unique {source target : Bytes} {data left right : Store}
    (leftCopied : Copied source target data left) (rightCopied : Copied source target data right) :
    left = right := by
  rcases leftCopied with ⟨_, leftExits, _⟩
  rcases rightCopied with ⟨_, rightExits, _⟩
  exact congrArg Cursor.map (leftExits.unique rightExits)

@[simp]
theorem exec_nil_iff {data last : Store} : Exec data [] last ↔ data = last := by
  constructor
  · intro exec
    cases exec
    rfl
  · rintro rfl
    exact .nil

@[simp]
theorem exec_assign_iff {data last : Store} {key value : Bytes} {rest : List Stmt} :
    Exec data (.assign key value :: rest) last ↔
      Exec (data.insert key (some value)) rest last := by
  constructor
  · intro exec
    cases exec with
    | assign tail => exact tail
  · exact .assign

theorem exec_copy_iff {data last : Store} {target source : Bytes} {rest : List Stmt} :
    Exec data (.copy target source :: rest) last ↔
      ∃ middle, Copied source target data middle ∧ Exec middle rest last := by
  constructor
  · intro exec
    cases exec with
    | copy copied tail => exact ⟨_, copied, tail⟩
  · rintro ⟨_, copied, tail⟩
    exact .copy copied tail

theorem exec_append_iff {data last : Store} {left right : List Stmt} :
    Exec data (left ++ right) last ↔ ∃ middle, Exec data left middle ∧ Exec middle right last := by
  induction left generalizing data with
  | nil => simp
  | cons stmt left ih =>
      cases stmt with
      | assign key value => simp [ih]
      | copy target source =>
          simp only [List.cons_append, exec_copy_iff, ih]
          constructor
          · rintro ⟨copied, copies, middle, first, second⟩
            exact ⟨middle, ⟨copied, copies, first⟩, second⟩
          · rintro ⟨middle, ⟨copied, copies, first⟩, second⟩
            exact ⟨copied, copies, middle, first, second⟩

theorem Exec.unique {data left right : Store} {stmts : List Stmt} (leftExec : Exec data stmts left)
    (rightExec : Exec data stmts right) : left = right := by
  induction leftExec with
  | nil => exact exec_nil_iff.mp rightExec
  | assign _ ih => exact ih (exec_assign_iff.mp rightExec)
  | copy copied _ ih =>
      rcases exec_copy_iff.mp rightExec with ⟨_, copied', tail⟩
      rcases copied.unique copied' with rfl
      exact ih tail

section NoNull

def NoNull (data : Store) : Prop :=
  ∀ entry ∈ data.entries, entry.2 ≠ none

instance (data : Store) : Decidable (NoNull data) :=
  inferInstanceAs (Decidable (∀ entry ∈ data.entries, entry.2 ≠ none))

theorem NoNull.insert {data : Store} (noNull : NoNull data) {word : Word} (stored : word ≠ none)
    (key : Bytes) : NoNull (data.insert key word) := by
  intro entry entry_mem
  rcases OrdMap.mem_entries_insert.mp entry_mem with rfl | ⟨old, _⟩
  · exact stored
  · exact noNull entry old

/-- A cursor that walks a store without `NULL` words. -/
def Clean (cursor : Cursor UInt8 Word) : Prop :=
  NoNull cursor.map ∧ ∀ entry, cursor.entry = some entry → entry.2 ≠ none

theorem clean_start {data : Store} (noNull : NoNull data) (source : Bytes) :
    Clean (PrefixCopy.start data source) :=
  ⟨noNull, fun entry found => noNull entry (OrdMap.firstFrom_eq_some_iff.mp found).1⟩

theorem clean_body {source target : Bytes} {cursor after : Cursor UInt8 Word}
    (clean : Clean cursor) (stepped : body source target cursor = some after) : Clean after := by
  rcases body_eq_some_iff.mp stepped with ⟨suffix, word, found, rfl⟩
  have noNull := clean.1.insert (clean.2 _ found) (target ++ suffix)
  exact ⟨noNull, fun entry next => noNull entry (OrdMap.nextAfter_eq_some_iff.mp next).1⟩

theorem Clean.copyBody_eq {source target : Bytes} {cursor : Cursor UInt8 Word}
    (clean : Clean cursor) : copyBody source target cursor = body source target cursor := by
  unfold copyBody
  split
  · rename_i key found
    simpa using clean.2 _ found
  · rfl

/-- Without `NULL` words the copy loop is the walk of `PrefixCopy`. -/
theorem NoNull.copied_iff {source target : Bytes} {data middle : Store} (noNull : NoNull data) :
    Copied source target data middle ↔ CopiesTo source target data middle := by
  have start := clean_start noNull source
  constructor
  · rintro ⟨entry, exits, _⟩
    refine ⟨entry, exits.congr (I := Clean) (fun _ clean => clean.copyBody_eq) ?_ start⟩
    intro cursor after clean stepped
    rw [clean.copyBody_eq] at stepped
    exact clean_body clean stepped
  · rintro ⟨entry, exits⟩
    have last := exits.invariant (I := Clean) (fun _ _ => clean_body) start
    refine ⟨entry, exits.congr (I := Clean) (fun _ clean => clean.copyBody_eq.symm)
      (fun _ _ => clean_body) start, ?_⟩
    rintro ⟨key, found, _⟩
    exact last.1.2 _ found rfl

end NoNull

section CopyLoop

variable {config : Config} {target source front rest : Bytes} {s : Scan}

theorem insertWord_ample (m : Loader) (key value : Bytes) (after : Loader → Loader) :
    m.insertWord ample key (some value) after = .next (after { m with
      config := { m.config with data := m.config.data.insert key (some value) }
      requests := m.requests + 2 }) :=
  rfl

/-- A loader that is in the copy loop at a cursor. -/
def LoopAt (config : Config) (target source : Bytes) (s : Scan) (front rest : Bytes)
    (cursor : Cursor UInt8 Word) (m : Loader) : Prop :=
  (∃ copying, m.copying = some copying ∧ Holds copying cursor.entry) ∧
    InLoop m target source s front rest ∧ m.config = { config with data := cursor.map }

/-- A loader that has left the copy loop at a cursor. -/
def LoopLeft (config : Config) (s : Scan) (front rest : Bytes)
    (cursor : Cursor UInt8 Word) (m : Loader) : Prop :=
  Sim m s (front ++ [nul]) rest ∧ m.config = { config with data := cursor.map }

/-- With enough memory the loader carries out the copy loop on its store. -/
theorem innerLoop :
    InnerLoop (Loader.step ample) (copyBody source target) (AtNull source)
      (LoopAt config target source s front rest) (LoopLeft config s front rest) where
  more := by
    rintro cursor after m ⟨⟨copying, loop, holds⟩, inside, same⟩ iterated
    rcases copyBody_eq_some_iff.mp iterated with ⟨suffix, value, found, rfl⟩
    rw [found] at holds
    rcases inside.iterates ample loop holds with ⟨next, stepped, kept, insideNext⟩
    rw [insertWord_ample] at stepped
    rcases insideNext { m.config with data := m.config.data.insert (target ++ suffix) (some value) }
      (m.requests + 2) with ⟨loop', inside'⟩
    have data : m.config.data = cursor.map := by rw [same]
    refine ⟨_, stepped, ⟨_, loop', source ++ suffix, ?_⟩, inside', ?_⟩
    · rw [data]
    · rw [kept, same]
  done := by
    rintro ⟨map, entry⟩ m ⟨⟨copying, loop, holds⟩, inside, same⟩ stopped free
    have data : m.config.data = map := by rw [same]
    have left : body source target ⟨m.config.data, entry⟩ = none := by
      rw [data, body_eq_none_iff]
      rintro ⟨key, _ | value⟩ found
      · exact fun starts => free ⟨key, found, starts⟩
      · rintro ⟨suffix, rfl⟩
        simp only at found
        subst found
        simp [copyBody, body] at stopped
    rcases inside.leaves ample loop holds left with ⟨m', stepped, config', sim⟩
    exact ⟨m', stepped, sim, by rw [config', same]⟩
  blocked := by
    rintro cursor m ⟨⟨copying, loop, holds⟩, inside, same⟩ _ ⟨_, found, suffix, rfl⟩
    rw [found] at holds
    rcases inside.iterates ample loop holds with ⟨next, stepped, _⟩
    exact stepped

end CopyLoop

/-- A loader returns what reading the rest of its text and executing its statements gives. -/
theorem returns_iff {m : Loader} {s : Scan} {front rest : Bytes} (sim : Sim m s front rest)
    {result : LoadResult} :
    Returns (Loader.step ample) (.next m) result ↔
      ∃ data, Exec m.config.data (s.emits rest) data ∧
        result = (s.feed rest).result m.config data := by
  induction size : rest.length using Nat.strongRecOn generalizing m s front rest with
  | ind bound ih =>
      rw [returns_next_iff]
      cases rest with
      | nil =>
          rw [sim.step_end, returns_ret_iff]
          have notFailed : ∀ fault, s.mode ≠ .failed fault := by
            intro fault mode
            simpa [Placed, mode] using sim.placed
          simp [Scan.result_of_not_failed notFailed, eq_comm]
      | cons c rest =>
          cases step_cases ample sim with
          | quiet m' eaten front' rest' split progress silent stepped config sim' =>
              have shorter : rest'.length < bound := by
                have := congrArg List.length split
                have := List.length_pos_iff.mpr progress
                simp only [List.length_append] at *
                omega
              rw [stepped, ih _ shorter sim' rfl, split, Scan.emits_append, Scan.feed_append,
                silent, config]
              rfl
          | fault c' rest' fault split silent failed stepped =>
              rcases List.cons.inj split with ⟨rfl, rfl⟩
              rw [stepped, returns_ret_iff, Scan.emits_cons, Scan.feed_cons, silent,
                Scan.next_of_failed failed]
              simp [Scan.result, eq_comm]
          | assign c' front' rest' key value cut after split emitted stepped config kept sim' =>
              rcases List.cons.inj split with ⟨rfl, rfl⟩
              have next := sim' { m.config with data := m.config.data.insert key (some value) }
                (cut.requests + 2)
              rw [stepped, insertWord_ample, config, ih _ (by simp [← size]) next rfl, kept,
                Scan.emits_cons, emitted]
              simp [Scan.result]
          | copy c' front' rest' target source m' split emitted stepped config started inside =>
              rcases List.cons.inj split with ⟨rfl, rfl⟩
              have entered : LoopAt m.config target source (s.next c) front' rest
                  (PrefixCopy.start m.config.data source) m' :=
                ⟨⟨_, started, source, rfl⟩, inside, config⟩
              rw [stepped, Scan.emits_cons, emitted, List.singleton_append]
              simp only [exec_copy_iff]
              -- Behind the loop the text that is left is read as before.
              have behind : ∀ middle entry, LoopExits (copyBody source target)
                  (PrefixCopy.start m.config.data source) ⟨middle, entry⟩ →
                  ¬AtNull source ⟨middle, entry⟩ →
                  (Returns (Loader.step ample) (.next m') result ↔
                    ∃ data, Exec middle ((s.next c).emits rest) data ∧
                      result = ((s.next c).feed rest).result m.config data) := by
                intro middle entry exits free
                rcases innerLoop.leaves exits free entered with ⟨m'', ⟨sim', config'⟩, same⟩
                have data : m''.config.data = middle := by rw [config']
                rw [← same, ih _ (by simp [← size]) sim' rfl, data, config']
                simp [Scan.result]
              constructor
              · intro returned
                rcases innerLoop.exits_of_returns entered returned with
                  ⟨⟨middle, entry⟩, exits, free⟩
                rcases (behind middle entry exits free).mp returned with ⟨data, exec, same⟩
                exact ⟨data, ⟨middle, ⟨entry, exits, free⟩, exec⟩, same⟩
              · rintro ⟨data, ⟨middle, ⟨entry, exits, free⟩, exec⟩, same⟩
                exact (behind middle entry exits free).mpr ⟨data, exec, same⟩

def Config.begin (config : Config) (text : Bytes) : Config :=
  { config with lineError := 0, conf := some text }

theorem sim_start (config : Config) (requests : ℕ) {text : Bytes} (free : NulFree text) :
    Sim (Loader.start config requests (text ++ [nul]) text.length) Scan.initial [] text where
  idle := rfl
  src := rfl
  p := rfl
  stop := by simp [Loader.start]
  line := rfl
  free := free
  placed := rfl

theorem configLoad2Start_ample (config : Config) {text : Bytes} (free : NulFree text) :
    configLoad2Start ample config text =
      .next (Loader.start (config.begin text) 2 (text ++ [nul]) text.length) := by
  simp [configLoad2Start, ample, strlen, cstr_of_nulFree free, Config.begin]

/-- `config_load2` returns with a result, after some number of steps. -/
def Loads (alloc : ℕ → Bool) (config : Config) (str : Bytes) (result : LoadResult) : Prop :=
  ∃ fuel, configLoad2 alloc config str fuel = some result

/-- `config_load2` returns what the statements of the text and its fault, if any, tell. -/
theorem loads_iff {config : Config} {text : Bytes} (free : NulFree text) {result : LoadResult} :
    Loads ample config text result ↔
      ∃ data, Exec config.data (stmts text) data ∧
        result = (scan text).result (config.begin text) data := by
  show Returns (Loader.step ample) (configLoad2Start ample config text) result ↔ _
  rw [configLoad2Start_ample config free]
  exact returns_iff (sim_start _ 2 free)

end Libhelp

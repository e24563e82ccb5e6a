import Libhelp.Config.Grammar
import Libhelp.Config.Memory

/-!
# Where plain statements end

A plain statement ends at the first `;` of its value, except where the value begins
with it: the blanks behind a key are skipped in a state that does not look for the
`;`, so a `;` that follows them is taken for the first byte of the value, and the
statement goes on to the next `;`.

The states of a run are those of the abstract reader on the part of the text that
has been read, and those of the copy loops of the statements in it.
-/

namespace Libhelp

open StepProgram CString

/-- The bytes of the pending value before the cursor. -/
def Loader.pending (m : Loader) : Bytes :=
  (m.src.drop m.pvalue).take (m.p - m.pvalue)

/-- In every run on a text, however memory is given, the main loop never goes on with a plain
value that has a `;` in it: each plain statement ends at the first `;` behind its blanks. -/
def EndsAtSemicolon (config : Config) (text : Bytes) : Prop :=
  ∀ alloc m, Reaches (Loader.step alloc) (configLoad2Start alloc config text) m →
    m.copying = none → m.state = .paramValue → Ascii.semicolon ∉ m.pending

/-- Behind complete items that can be loaded the text has a key, blanks and a `;`. -/
def EmptyPlainValue (data : Store) (text : Bytes) : Prop :=
  ∃ (items : List Item) (key : Key) (gap : Gap) (rest : Bytes) (middle : Store),
    text = render items ++ (key.bytes ++ gap.bytes ++ Ascii.semicolon :: rest) ∧
      Exec data (items.flatMap Item.stmts) middle

section Along

open PrefixCopy

variable {data : Store} {text : Bytes} {m m' : Loader}

/-- Where a load of a text from a store can be: at a byte of the text, the statements before
it executed, or in the copy loop of a statement. -/
inductive Along (data : Store) (text : Bytes) (m : Loader) : Prop where
  | reading (eaten front rest : Bytes) (split : text = eaten ++ rest)
      (exec : Exec data (stmts eaten) m.config.data) (sim : Sim m (scan eaten) front rest)
  | copying (eaten front rest target source : Bytes) (c : UInt8) (config : Config)
      (before : Store) (cursor : Cursor UInt8 Word) (split : text = eaten ++ c :: rest)
      (exec : Exec data (stmts eaten) before)
      (emitted : (scan eaten).mode.emit c = [.copy target source])
      (continues : ∀ last, LoopExits (copyBody source target) cursor last →
        LoopExits (copyBody source target) (PrefixCopy.start before source) last)
      (inLoop : LoopAt config target source ((scan eaten).next c) front rest cursor m)

theorem stmts_append (left right : Bytes) :
    stmts (left ++ right) = stmts left ++ (scan left).emits right :=
  Scan.emits_append _ _ _

theorem scan_append (left right : Bytes) : scan (left ++ right) = (scan left).feed right :=
  Scan.feed_append _ _ _

theorem Along.step (along : Along data text m) (stepped : Loader.step ample m = .next m') :
    Along data text m' := by
  cases along with
  | reading eaten front rest split exec sim =>
      cases rest with
      | nil =>
          rw [sim.step_end] at stepped
          cases stepped
      | cons c rest =>
          cases step_cases ample sim with
          | quiet next more front' rest' more_split progress silent moved config sim' =>
              rw [stepped] at moved
              cases moved
              refine .reading (eaten ++ more) front' rest' (by rw [split, more_split]; simp) ?_ ?_
              · rw [stmts_append, silent, List.append_nil, config]
                exact exec
              · rw [scan_append]
                exact sim'
          | fault d rest' fault d_split silent failed left =>
              rw [stepped] at left
              cases left
          | assign d front' rest' key value cut after d_split emitted moved config kept sim' =>
              rcases List.cons.inj d_split with ⟨rfl, rfl⟩
              rw [stepped, insertWord_ample] at moved
              cases moved
              refine .reading (eaten ++ [c]) front' rest (by rw [split]; simp) ?_ ?_
              · rw [stmts_append, Scan.emits_cons, emitted, kept, config, exec_append_iff]
                exact ⟨m.config.data, exec, .assign .nil⟩
              · rw [scan_append]
                exact sim' _ _
          | copy d front' rest' target source next d_split emitted moved config started inside =>
              rcases List.cons.inj d_split with ⟨rfl, rfl⟩
              rw [stepped] at moved
              cases moved
              exact .copying eaten front' rest target source c m.config m.config.data
                (PrefixCopy.start m.config.data source) split exec emitted (fun _ exits => exits)
                ⟨⟨_, started, source, rfl⟩, inside, config⟩
  | copying eaten front rest target source c config before cursor split exec emitted continues
      inLoop =>
      cases body : copyBody source target cursor with
      | some after =>
          rcases innerLoop.more cursor after m inLoop body with ⟨next, moved, inLoop'⟩
          rw [stepped] at moved
          cases moved
          exact .copying eaten front rest target source c config before after split exec emitted
            (fun last exits => continues last (.more body exits)) inLoop'
      | none =>
          by_cases blocked : AtNull source cursor
          · rw [innerLoop.blocked cursor m inLoop body blocked] at stepped
            cases stepped
          · rcases innerLoop.done cursor m inLoop body blocked with ⟨next, moved, sim, config'⟩
            rw [stepped] at moved
            cases moved
            have copied : Copied source target before cursor.map :=
              ⟨cursor.entry, continues cursor (.done body), blocked⟩
            refine .reading (eaten ++ [c]) (front ++ [nul]) rest (by rw [split]; simp) ?_ ?_
            · rw [stmts_append, Scan.emits_cons, emitted, config', exec_append_iff]
              exact ⟨before, exec, .copy copied .nil⟩
            · rw [scan_append]
              exact sim

theorem along_of_reaches {alloc : ℕ → Bool} {config : Config} (free : NulFree text)
    (reaches : Reaches (Loader.step alloc) (configLoad2Start alloc config text) m) :
    Along config.data text m := by
  have withMemory : Reaches (Loader.step ample) (configLoad2Start alloc config text) m :=
    reaches.mono fun _ _ => step_ample_of_next
  refine withMemory.invariant (I := Along config.data text) (fun _ _ along => along.step) ?_
  intro start started
  have sameStart : configLoad2Start ample config text = .next start := by
    unfold configLoad2Start at started ⊢
    dsimp only at started
    split_ifs at started
    exact started
  rw [configLoad2Start_ample config free] at sameStart
  cases sameStart
  exact .reading [] [] text rfl .nil (sim_start (config.begin text) 2 free)

end Along

section Plain

variable {m m' : Loader} {s : Scan} {front rest : Bytes}

theorem Sim.pending_eq (sim : Sim m s front rest) {key acc : Bytes}
    (valueAt : ValueAt m key acc front) : m.pending = acc := by
  have length := valueAt.length_eq sim.p
  rcases valueAt with ⟨_, pre, rfl, start, _⟩
  rw [Loader.pending, length, sim.src, start, List.append_assoc, List.drop_left,
    List.take_left']
  rfl

theorem Sim.inValue_of_state (sim : Sim m s front rest) (state : m.state = .paramValue) :
    ∃ key acc, s.mode = .inValue key acc ∧ ValueAt m key acc front := by
  have placed := sim.placed
  cases mode : s.mode with
  | inValue key acc =>
      rw [mode] at placed
      exact ⟨key, acc, rfl, placed.2⟩
  | failed fault => simp [Placed, mode] at placed
  | _ => simp [Placed, mode, state] at placed

/-- Only the first byte of a plain value may be a `;`. -/
theorem exists_empty_of_inValue {text key acc : Bytes} (mode : (scan text).mode = .inValue key acc)
    (mem : Ascii.semicolon ∈ acc) :
    ∃ (items : List Item) (key : Key) (gap : Gap) (rest : Bytes),
      text = render items ++ (key.bytes ++ gap.bytes ++ Ascii.semicolon :: rest) ∧
        stmts text = items.flatMap Item.stmts := by
  have explained := explains_scan text
  rw [mode] at explained
  rcases explained with ⟨items, fragment, split, same⟩
  cases fragment with
  | plain key gap value =>
      rcases Mode.inValue.inj same with ⟨_, rfl⟩
      have first : value.first = Ascii.semicolon := by
        rcases List.mem_cons.mp mem with first | later
        · exact first.symm
        · exact absurd rfl (value.inside _ later).1
      refine ⟨items, key, gap, value.rest, by rw [split, Fragment.bytes, first], ?_⟩
      have passes := (passes_render items).append
        ((passes_separator key gap).append (passes_plain key.bytes value))
      have emitted := (passes 1).2
      rw [List.append_nil, List.append_nil] at emitted
      rw [split]
      exact emitted
  | _ => cases same

theorem Sim.length_eaten {c : UInt8} (sim : Sim m s front (c :: rest))
    (stepped : Loader.step ample m = .next m') {eaten front' rest' : Bytes}
    (split : c :: rest = eaten ++ rest') (sim' : Sim m' (s.feed eaten) front' rest') :
    eaten.length = 1 ∨ eaten.length = 2 ∧ c = Ascii.backslash ∧
      ∃ key acc, s.mode = .inQuoted key acc := by
  rw [sim.step_eq] at stepped
  rcases scanStep_next stepped with ⟨_, stop, moved⟩
  have lengths := congrArg List.length split
  rw [List.length_append, List.length_cons] at lengths
  have before := sim.stop
  have after := sim'.stop
  rw [stop, before, List.length_cons] at after
  rw [sim.p, sim'.p, sim'.idle] at moved
  rcases moved with one | impossible | ⟨state, backslash, two⟩
  · left
    omega
  · exact absurd rfl impossible
  · right
    refine ⟨by omega, ?_, ?_⟩
    · rwa [← sim.p, sim.byteAt_eq] at backslash
    · have placed := sim.placed
      cases mode : s.mode with
      | inQuoted key acc => exact ⟨key, acc, rfl⟩
      | failed fault => simp [Placed, mode] at placed
      | _ => simp [Placed, mode, state] at placed

/-- A step that jumps over the end of a part goes from a backslash to the byte behind it. -/
theorem Sim.inQuoted_of_jump {c d : UInt8} {left excess rest' front' : Bytes}
    (sim : Sim m s front (c :: rest)) (stepped : Loader.step ample m = .next m')
    (split : c :: rest = c :: left ++ d :: excess ++ rest')
    (sim' : Sim m' (s.feed (c :: left ++ d :: excess)) front' rest') :
    ∃ key acc, (s.feed (c :: left)).mode = .inQuoted key acc := by
  have read := sim.length_eaten stepped split sim'
  simp only [List.length_append, List.length_cons] at read
  rcases read with one | ⟨two, rfl, key, acc, mode⟩
  · omega
  · have alone : left = [] := List.length_eq_zero_iff.mp (by omega)
    subst alone
    refine ⟨key, acc ++ [Ascii.backslash], ?_⟩
    rw [Scan.feed_cons, Scan.feed_nil, Scan.mode_next, mode]
    rfl

/-- A load comes to be behind a part of its text that it can execute and that does not end
inside a quoted value. -/
theorem Sim.reaches {left right : Bytes} (sim : Sim m s front (left ++ right))
    (outside : ∀ key acc, (s.feed left).mode ≠ .inQuoted key acc)
    (accepted : ∀ fault, (s.feed left).mode ≠ .failed fault) {data : Store}
    (exec : Exec m.config.data (s.emits left) data) :
    ∃ m' front', Reaches (Loader.step ample) (.next m) m' ∧ Sim m' (s.feed left) front' right := by
  induction size : left.length using Nat.strongRecOn generalizing m s front left data with
  | ind bound ih =>
      cases left with
      | nil => exact ⟨m, front, .here, sim⟩
      | cons c left =>
          cases step_cases ample sim with
          | quiet next eaten front' rest' split progress silent stepped config sim' =>
              have nonempty := List.length_pos_iff.mpr progress
              rcases List.append_eq_append_iff.mp
                (show c :: left ++ right = eaten ++ rest' from split) with
                ⟨excess, eaten_split, _⟩ | ⟨left', left_split, rest_split⟩
              · cases excess with
                | nil =>
                    rw [List.append_nil] at eaten_split
                    subst eaten_split
                    exact ⟨next, front', .more (stepped ▸ .here), by simp_all⟩
                | cons d excess =>
                    -- The load would jump over the end of the part, from a backslash to a quote.
                    subst eaten_split
                    rcases sim.inQuoted_of_jump stepped split sim' with ⟨key, acc, mode⟩
                    exact absurd mode (outside key acc)
              · rw [left_split, Scan.feed_append] at outside accepted
                rw [left_split, Scan.emits_append, silent, List.nil_append, ← config] at exec
                rw [rest_split] at sim'
                have shorter : left'.length < bound := by
                  rw [← size, left_split, List.length_append]
                  omega
                rcases ih left'.length shorter sim' outside accepted exec rfl with
                  ⟨last, front'', reaches, simLast⟩
                rw [left_split, Scan.feed_append]
                exact ⟨last, front'', .more (stepped ▸ reaches), simLast⟩
          | fault d rest' fault split silent failed stepped =>
              rcases List.cons.inj split with ⟨rfl, rfl⟩
              apply absurd _ (accepted fault)
              rw [Scan.feed_cons, Scan.next_of_failed failed, Scan.feed_failed]
          | assign d front' rest' key value cut after split emitted stepped config kept sim' =>
              rcases List.cons.inj split with ⟨rfl, rfl⟩
              have next := sim' { m.config with data := m.config.data.insert key (some value) }
                (cut.requests + 2)
              rw [insertWord_ample, config] at stepped
              rw [Scan.emits_cons, emitted, List.singleton_append, exec_assign_iff] at exec
              rcases ih left.length (by simp [← size]) next outside accepted
                (by rw [kept]; exact exec) rfl with ⟨last, front'', reaches, simLast⟩
              exact ⟨last, front'', .more (stepped ▸ reaches), simLast⟩
          | copy d front' rest' target source next split emitted stepped config started inside =>
              rcases List.cons.inj split with ⟨rfl, rfl⟩
              rw [Scan.emits_cons, emitted, List.singleton_append, exec_copy_iff] at exec
              rcases exec with ⟨middle, ⟨entry, exits, free⟩, exec⟩
              have entered : LoopAt m.config target source (s.next c) front' (left ++ right)
                  (PrefixCopy.start m.config.data source) next :=
                ⟨⟨_, started, source, rfl⟩, inside, config⟩
              rcases innerLoop.reaches exits free entered with
                ⟨behind, ⟨simBehind, config'⟩, reaches⟩
              rcases ih left.length (by simp [← size]) simBehind outside accepted
                (by rw [config']; exact exec) rfl with ⟨last, front'', reachesLast, simLast⟩
              exact ⟨last, front'', (Reaches.more (stepped ▸ reaches)).trans reachesLast, simLast⟩

end Plain

section Runs

variable {alloc : ℕ → Bool} {config : Config} {text : Bytes} {m : Loader}

theorem reading_of_reaches (free : NulFree text)
    (reaches : Reaches (Loader.step alloc) (configLoad2Start alloc config text) m)
    (idle : m.copying = none) :
    ∃ eaten front rest data, text = eaten ++ rest ∧ Exec config.data (stmts eaten) data ∧
      Sim m (scan eaten) front rest := by
  cases along_of_reaches free reaches with
  | reading eaten front rest split exec sim => exact ⟨eaten, front, rest, _, split, exec, sim⟩
  | copying _ _ _ _ _ _ _ _ _ _ _ _ _ inLoop =>
      rcases inLoop.1 with ⟨copying, loop, _⟩
      rw [idle] at loop
      cases loop

/-- What a plain statement would store at the cursor is its pending value. -/
theorem value_eq_pending (free : NulFree text)
    (reaches : Reaches (Loader.step alloc) (configLoad2Start alloc config text) m)
    (idle : m.copying = none) (state : m.state = .paramValue) (inText : m.p < m.stop) :
    m.cut.value = m.pending := by
  rcases reading_of_reaches free reaches idle with ⟨eaten, front, rest, _, _, _, sim⟩
  rcases sim.inValue_of_state state with ⟨key, acc, _, valueAt⟩
  cases rest with
  | nil =>
      rw [sim.p, sim.stop] at inText
      simp at inText
  | cons c rest => rw [sim.cut_value valueAt, sim.pending_eq valueAt]

theorem endsAtSemicolon_of_not_empty (free : NulFree text)
    (nonempty : ¬EmptyPlainValue config.data text) : EndsAtSemicolon config text := by
  intro alloc m reaches idle state mem
  rcases reading_of_reaches free reaches idle with ⟨eaten, front, rest, data, split, exec, sim⟩
  rcases sim.inValue_of_state state with ⟨key, acc, mode, valueAt⟩
  rw [sim.pending_eq valueAt] at mem
  rcases exists_empty_of_inValue mode mem with ⟨items, key', gap, more, eaten_split, emitted⟩
  rw [emitted] at exec
  exact nonempty ⟨items, key', gap, more ++ rest, data, by simp [split, eaten_split], exec⟩

theorem not_endsAtSemicolon_of_empty (free : NulFree text)
    (empty : EmptyPlainValue config.data text) : ¬EndsAtSemicolon config text := by
  intro ends
  rcases empty with ⟨items, key, gap, rest, data, split, exec⟩
  have begins : Passes (.afterKey key.bytes) [Ascii.semicolon]
      (.inValue key.bytes [Ascii.semicolon]) [] := .one rfl rfl
  have passes := (passes_render items).append ((passes_separator key gap).append begins)
  have mode : (Scan.initial.feed (render items ++
      (key.bytes ++ gap.bytes ++ [Ascii.semicolon]))).mode =
        .inValue key.bytes [Ascii.semicolon] := (passes 1).1
  have emitted : Scan.initial.emits (render items ++
      (key.bytes ++ gap.bytes ++ [Ascii.semicolon])) = items.flatMap Item.stmts := by
    simpa [Scan.initial] using (passes 1).2
  have start := sim_start (config.begin text) 2 free
  have whole : text =
      render items ++ (key.bytes ++ gap.bytes ++ [Ascii.semicolon]) ++ rest := by
    simp [split]
  rw [whole] at start
  rcases start.reaches (by rw [mode]; intro _ _ quoted; cases quoted)
    (by rw [mode]; intro _ failed; cases failed) (by rw [emitted]; exact exec)
    with ⟨m, front, reaches, sim⟩
  rw [← whole] at reaches
  have placed := sim.placed
  rw [mode] at placed
  rw [← configLoad2Start_ample config free] at reaches
  apply ends ample m reaches sim.idle placed.1
  rw [sim.pending_eq placed.2]
  exact List.mem_singleton_self _

end Runs

/-- Every plain statement of a text ends at the first `;` behind its blanks exactly when no
key that a load gets to is followed, behind its blanks, by a `;`. -/
theorem endsAtSemicolon_iff (config : Config) {text : Bytes} (free : NulFree text) :
    EndsAtSemicolon config text ↔ ¬EmptyPlainValue config.data text := by
  constructor
  · intro ends empty
    exact not_endsAtSemicolon_of_empty free empty ends
  · exact endsAtSemicolon_of_not_empty free

/-- The only `;` of `a b;` stands behind a byte that is not blank. -/
theorem endsAtSemicolon_iff_single : EndsAtSemicolon Config.new [97, 32, 98, 59] := by
  apply (endsAtSemicolon_iff Config.new (by decide)).mpr
  rintro ⟨items, key, gap, rest, _, split, _⟩
  rcases List.eq_nil_or_concat gap.bytes with none | ⟨blanks, last, some⟩
  · exact gap.nonempty none
  · rw [some] at split
    have isBlank := gap.blank last (by simp [some])
    have whole : ∃ front, ([97, 32, 98, 59] : Bytes) =
        front ++ last :: Ascii.semicolon :: rest :=
      ⟨render items ++ (key.bytes ++ blanks), by simp [split]⟩
    rcases whole with ⟨_ | ⟨a, _ | ⟨b, _ | ⟨c, front⟩⟩⟩, whole⟩
    · exact absurd (List.cons.inj (List.cons.inj whole).2).1 (by decide)
    · exact absurd (List.cons.inj (List.cons.inj (List.cons.inj whole).2).2).1 (by decide)
    · rcases List.cons.inj (List.cons.inj (List.cons.inj whole).2).2 with ⟨rfl, _⟩
      exact absurd isBlank (by decide)
    · have length := congrArg List.length whole
      simp only [List.length_cons, List.length_append, List.length_nil] at length
      omega

/-- In `a ;b 1;` the empty value of `a` swallows the statement for `b`. -/
theorem empty_value_swallows :
    ¬EndsAtSemicolon Config.new [97, 32, 59, 98, 32, 49, 59] ∧
      Loads ample Config.new [97, 32, 59, 98, 32, 49, 59]
        ⟨OK, ⟨(∅ : Store).insert [97] (some [59, 98, 32, 49]), 0,
          some [97, 32, 59, 98, 32, 49, 59]⟩, none⟩ := by
  refine ⟨not_endsAtSemicolon_of_empty (by decide) ?_, 20, rfl⟩
  exact ⟨[], ⟨[97], by decide, by decide, by decide⟩, ⟨[32], by decide, by decide⟩,
    [98, 32, 49, 59], ∅, rfl, .nil⟩

end Libhelp

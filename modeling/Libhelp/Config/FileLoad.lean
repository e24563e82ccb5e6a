import Libhelp.Config.Meaning

/-!
# Loading from a file and from a string

The buffer of `config_load` ends in a byte that nothing has written, the buffer
of `config_load2` in a NUL.  Neither byte matters: a loader runs in lockstep with
the same loader without a byte behind its text.  Only the lookahead for an escaped
quote sees the byte, and then both loaders have read their text to the end.
-/

namespace Libhelp

open StepProgram CString

/-- A loader with one more byte behind its text. -/
def Loader.withByte (m : Loader) (byte : UInt8) : Loader :=
  { m with src := m.src ++ [byte] }

section WithByte

variable (m : Loader) (byte : UInt8)

@[simp]
theorem Loader.withByte_p : (m.withByte byte).p = m.p :=
  rfl

@[simp]
theorem Loader.withByte_pkey : (m.withByte byte).pkey = m.pkey :=
  rfl

@[simp]
theorem Loader.withByte_pvalue : (m.withByte byte).pvalue = m.pvalue :=
  rfl

@[simp]
theorem Loader.withByte_state : (m.withByte byte).state = m.state :=
  rfl

end WithByte

/-- The strings that a loader still reads from its buffer end inside its text. -/
structure Pending (m : Loader) : Prop where
  fits : m.src.length = m.stop
  key : m.state ∈ [.paramKeySp, .paramValue, .paramQtValue, .paramCopyValue] →
    Terminated m.src m.pkey
  keyStart : m.state = .paramKey → m.pkey ≤ m.p
  valueStart : m.state ∈ [.paramValue, .paramQtValue, .paramCopyValue] → m.pvalue ≤ m.p
  copying : m.copying ≠ none → m.state = .paramCopyValue ∧ Terminated m.src m.pvalue

theorem Pending.outside {m : Loader} (fits : m.src.length = m.stop) (idle : m.copying = none)
    (quiet : m.state ∈ [.space, .comment, .paramValueSkip]) : Pending m := by
  simp only [List.mem_cons, List.not_mem_nil, or_false] at quiet
  rcases quiet with state | state | state <;>
    exact ⟨fits, by simp [state], by simp [state], by simp [state], by simp [idle]⟩

theorem Pending.inValue {m : Loader} (fits : m.src.length = m.stop) (idle : m.copying = none)
    (key : Terminated m.src m.pkey) (value : m.pvalue ≤ m.p) (state : m.state ≠ .paramKey) :
    Pending m :=
  ⟨fits, fun _ => key, fun inKey => absurd inKey state, fun _ => value, by simp [idle]⟩

/-- A loader with a byte behind its text and the loader without it: they are the same up
to that byte, or both have read their text to the end. -/
inductive Twin (byte : UInt8) (left right : Loader) : Prop where
  | same (eq : left = right.withByte byte) (pending : Pending right)
  | done (config : left.config = right.config) (idle : left.copying = none)
      (idle' : right.copying = none) (past : left.stop ≤ left.p) (past' : right.stop ≤ right.p)

section Lockstep

variable {alloc : ℕ → Bool} {m : Loader} {byte : UInt8}

theorem insertWord_agrees {left right : Loader} {key : Bytes} {value : Word}
    {after after' : Loader → Loader} (config : left.config = right.config)
    (requests : left.requests = right.requests)
    (twins : ∀ config requests, Twin byte
      (after { left with config := config, requests := requests })
      (after' { right with config := config, requests := requests })) :
    (left.insertWord alloc key value after).Agrees (Twin byte)
      (right.insertWord alloc key value after') := by
  unfold Loader.insertWord
  rw [config, requests]
  cases value with
  | none =>
      simp only
      split_ifs
      · trivial
      · rfl
  | some bytes =>
      simp only
      split_ifs
      · exact twins _ _
      · rfl
      · rfl

theorem copyStep_agrees (pending : Pending m) {copying : Copying}
    (loop : m.copying = some copying) :
    ((m.withByte byte).copyStep alloc copying).Agrees (Twin byte) (m.copyStep alloc copying) := by
  have inLoop := pending.copying (by simp [loop])
  have keyEnd := pending.key (by simp [inLoop.1])
  have source : cstr ((m.withByte byte).src.drop m.pvalue) = cstr (m.src.drop m.pvalue) :=
    inLoop.2.cstr_drop_append _
  have key : (m.withByte byte).key = m.key := keyEnd.cstr_drop_append _
  have left : Pending { m with copying := none, state := .space, p := m.p + 1 } :=
    ⟨pending.fits, by simp, by simp, by simp, by simp⟩
  unfold Loader.copyStep
  cases copying.pw with
  | none => exact .same rfl left
  | some word =>
      simp only [Loader.withByte_p, Loader.withByte_pvalue, source, key]
      split_ifs
      · refine insertWord_agrees rfl rfl fun config requests => .same rfl ?_
        exact ⟨pending.fits, pending.key, pending.keyStart, pending.valueStart, fun _ => inLoop⟩
      · exact .same rfl left

theorem Pending.byteAt_eq (pending : Pending m) (inText : m.p < m.stop) :
    byteAt (m.withByte byte).src m.p = byteAt m.src m.p :=
  byteAt_append_of_lt (pending.fits.symm ▸ inText)

theorem Pending.cut_withByte (pending : Pending m) (inText : m.p < m.stop) :
    (m.withByte byte).cut = m.cut.withByte byte := by
  have inside : m.p < m.src.length := pending.fits.symm ▸ inText
  simp [Loader.cut, Loader.withByte, List.set_append_left _ _ inside]

theorem Pending.value_withByte (pending : Pending m) (inText : m.p < m.stop)
    (start : m.pvalue ≤ m.p) : (m.withByte byte).value = m.value := by
  have inside : m.p < m.src.length := pending.fits.symm ▸ inText
  simp only [Loader.value, Loader.withByte]
  rw [List.drop_append_of_le_length (by omega), List.take_append_of_le_length]
  rw [List.length_drop]
  omega

theorem Pending.cut_fits (pending : Pending m) : m.cut.src.length = m.cut.stop := by
  simp [Loader.cut, pending.fits]

theorem Pending.insertWord_agrees (alloc : ℕ → Bool) (byte : UInt8) (pending : Pending m)
    (inText : m.p < m.stop) (idle : m.copying = none)
    (inValue : m.state ∈ [.paramValue, .paramQtValue])
    (after : ScanState) (quiet : after ∈ [.space, .comment, .paramValueSkip]) :
    ((m.cut.withByte byte).insertWord alloc (m.cut.withByte byte).key
        (some (m.cut.withByte byte).value) fun m' =>
          { m' with state := after, p := m.p + 1 }).Agrees
      (Twin byte) (m.cut.insertWord alloc m.cut.key (some m.cut.value)
        fun m' => { m' with state := after, p := m.p + 1 }) := by
  have keyEnd : Terminated m.cut.src m.pkey := by
    refine (pending.key ?_).set m.p
    simp only [List.mem_cons, List.not_mem_nil, or_false] at inValue ⊢
    tauto
  have start : m.pvalue ≤ m.p := by
    refine pending.valueStart ?_
    simp only [List.mem_cons, List.not_mem_nil, or_false] at inValue ⊢
    tauto
  have key : (m.cut.withByte byte).key = m.cut.key := keyEnd.cstr_drop_append _
  have cut : Pending { m.cut with state := .paramValue } :=
    .inValue pending.cut_fits idle keyEnd start (by simp)
  have value : (m.cut.withByte byte).value = m.cut.value := cut.value_withByte inText start
  rw [key, value]
  exact Libhelp.insertWord_agrees rfl rfl fun config requests =>
    .same rfl (.outside pending.cut_fits idle quiet)

/-- Inside quotes the loaders look ahead, on the last byte at different bytes. -/
theorem scanStep_agrees_quoted (pending : Pending m) (inText : m.p < m.stop)
    (idle : m.copying = none) (state : m.state = .paramQtValue) :
    ((m.withByte byte).scanStep alloc).Agrees (Twin byte) (m.scanStep alloc) := by
  unfold Loader.scanStep
  simp only [Loader.withByte_state, Loader.withByte_p, pending.byteAt_eq inText,
    Loader.withByte_pvalue, pending.cut_withByte inText, state]
  have keyEnd := pending.key (by simp [state])
  have start := pending.valueStart (by simp [state])
  have ends := pending.insertWord_agrees alloc byte inText idle
    (by simp [state]) .paramValueSkip (by simp)
  have advance : ∀ n, Pending { m with state := .paramQtValue, p := m.p + n } :=
    fun n => .inValue pending.fits idle keyEnd (start.trans (Nat.le_add_right _ _)) (by simp)
  by_cases more : m.p + 1 < m.stop
  · have ahead : byteAt (m.withByte byte).src (m.p + 1) = byteAt m.src (m.p + 1) :=
      byteAt_append_of_lt (pending.fits.symm ▸ more)
    rw [ahead]
    split_ifs
    · exact .same rfl (advance 2)
    · exact ends
    · rfl
    · exact .same rfl (advance 1)
  · -- On the last byte only the lookahead differs, and it only moves the cursor past the end.
    by_cases escape : byteAt m.src m.p = Ascii.backslash
    · have last : ∀ left right : Loader, left.config = right.config → left.copying = none →
          right.copying = none → left.stop = m.stop → right.stop = m.stop → m.p < left.p →
          m.p < right.p → Twin byte left right := by
        intro left right config idle idle' stop stop' past past'
        exact .done config idle idle' (by omega) (by omega)
      have other : byteAt m.src m.p ≠ Ascii.quote ∧ byteAt m.src m.p ≠ Ascii.newline := by
        rw [escape]
        decide
      simp only [if_neg other.1, if_neg other.2]
      split_ifs <;> exact last _ _ rfl idle idle rfl rfl (by simp) (by simp)
    · simp only [escape, false_and, if_false]
      split_ifs
      · exact ends
      · rfl
      · exact .same rfl (advance 1)

theorem scanStep_agrees (pending : Pending m) (inText : m.p < m.stop) (idle : m.copying = none) :
    ((m.withByte byte).scanStep alloc).Agrees (Twin byte) (m.scanStep alloc) := by
  by_cases quoted : m.state = .paramQtValue
  · exact scanStep_agrees_quoted pending inText idle quoted
  have inside : m.p < m.src.length := pending.fits.symm ▸ inText
  unfold Loader.scanStep
  simp only [Loader.withByte_state, Loader.withByte_p, pending.byteAt_eq inText,
    Loader.withByte_pkey, Loader.withByte_pvalue, pending.cut_withByte inText]
  cases state : m.state with
  | space =>
      simp only
      split_ifs
      · exact .same rfl ⟨pending.fits, by simp, by simp, by simp, by simp [idle]⟩
      · exact .same rfl (.outside pending.fits idle (by simp))
      · exact .same rfl (.outside pending.fits idle (by simp))
      · exact .same rfl (.outside pending.fits idle (by simp))
      · rfl
  | comment =>
      simp only
      split_ifs
      · exact .same rfl (.outside pending.fits idle (by simp))
      · exact .same rfl (.outside pending.fits idle (by simp))
  | paramKey =>
      have start := pending.keyStart state
      have keyEnd : Terminated m.cut.src m.pkey := terminated_set start inside
      simp only
      split_ifs
      · exact .same rfl ⟨pending.fits, by simp, fun _ => start.trans (Nat.le_succ _), by simp,
          by simp [idle]⟩
      · have key : (m.cut.withByte byte).key = m.cut.key := keyEnd.cstr_drop_append _
        rw [key]
        rfl
      · exact .same rfl
          ⟨pending.cut_fits, fun _ => keyEnd, by simp, by simp, by simp [Loader.cut, idle]⟩
      · rfl
  | paramKeySp =>
      have keyEnd := pending.key (by simp [state])
      simp only
      split_ifs
      · exact .same rfl ⟨pending.fits, fun _ => keyEnd, by simp, by simp, by simp [idle]⟩
      · exact .same rfl (.inValue pending.fits idle keyEnd le_rfl (by simp))
      · exact .same rfl (.inValue pending.fits idle keyEnd le_rfl (by simp))
      · rfl
      · exact .same rfl (.inValue pending.fits idle keyEnd (Nat.le_succ _) (by simp))
  | paramValue =>
      have keyEnd := pending.key (by simp [state])
      have start := pending.valueStart (by simp [state])
      simp only
      split_ifs
      · exact pending.insertWord_agrees _ _ inText idle (by simp [state]) .space (by simp)
      · rfl
      · exact .same rfl (.inValue pending.fits idle keyEnd (start.trans (Nat.le_succ _)) (by simp))
  | paramQtValue => exact absurd state quoted
  | paramValueSkip =>
      simp only
      split_ifs
      · exact .same rfl (.outside pending.fits idle (by simp))
      · rfl
      · exact .same rfl (.outside pending.fits idle (by simp))
  | paramCopyValue =>
      have keyEnd := pending.key (by simp [state])
      have start := pending.valueStart (by simp [state])
      have sourceEnd : Terminated m.cut.src m.pvalue := terminated_set start inside
      have cut : Pending { m.cut with state := .paramCopyValue } :=
        .inValue pending.cut_fits idle (keyEnd.set m.p) start (by simp)
      have value : (m.cut.withByte byte).value = m.cut.value := cut.value_withByte inText start
      have source : cstr ((m.cut.withByte byte).src.drop m.pvalue) =
          cstr (m.cut.src.drop m.pvalue) := sourceEnd.cstr_drop_append _
      simp only
      split_ifs
      · rw [source]
        rfl
      · rw [value]
        exact .same rfl ⟨pending.cut_fits, fun _ => keyEnd.set m.p, by simp [Loader.cut, state],
          fun _ => start, fun _ => ⟨state, sourceEnd⟩⟩
      · rfl
      · exact .same rfl (.inValue pending.fits idle keyEnd (start.trans (Nat.le_succ _)) (by simp))

theorem step_agrees {left right : Loader} (twin : Twin byte left right) :
    (Loader.step alloc left).Agrees (Twin byte) (Loader.step alloc right) := by
  cases twin with
  | same eq pending =>
      subst eq
      cases loop : right.copying with
      | none =>
          have loop' : (right.withByte byte).copying = none := loop
          simp only [Loader.step, loop, loop']
          by_cases inText : right.p < right.stop
          · rw [if_pos inText, if_pos (by exact inText)]
            exact scanStep_agrees pending inText loop
          · rw [if_neg inText, if_neg (by exact inText)]
            rfl
      | some copying =>
          have loop' : (right.withByte byte).copying = some copying := loop
          simp only [Loader.step, loop, loop']
          exact copyStep_agrees pending loop
  | done config idle idle' past past' =>
      simp [Loader.step, idle, idle', past.not_gt, past'.not_gt, config, Outcome.Agrees]

/-- A byte behind the text of a loader does not matter, for any number of steps. -/
theorem run_withByte {step : Loader → Outcome Loader LoadResult}
    (agrees : ∀ byte left right, Twin byte left right →
      (step left).Agrees (Twin byte) (step right)) (pending : Pending m) (byte : UInt8)
    (fuel : ℕ) : run step fuel (.next (m.withByte byte)) = run step fuel (.next m) :=
  run_eq_of_lockstep (agrees byte) fuel (.same rfl pending)

end Lockstep

/-- A file that is read completely. -/
def OpenedFile.ofContent (content : Bytes) : OpenedFile :=
  ⟨true, some content.length, some content⟩

theorem run_ofContent {step : Loader → Outcome Loader LoadResult}
    (agrees : ∀ byte left right, Twin byte left right →
      (step left).Agrees (Twin byte) (step right)) (alloc : ℕ → Bool) {config config' : Config}
    {content : Bytes} (free : NulFree content) (same : config.data = config'.data) (junk : UInt8)
    (fuel : ℕ) :
    run step fuel (configLoadStart alloc config (.ofContent content) junk) =
      run step fuel (configLoad2Start alloc config' content) := by
  simp only [configLoadStart, configLoad2Start, OpenedFile.ofContent, strlen,
    cstr_of_nulFree free, same]
  cases alloc 0 with
  | false => simp
  | true =>
      cases alloc 1 with
      | false => simp
      | true =>
          have pending : Pending
              (Loader.start ⟨config'.data, 0, some content⟩ 2 content content.length) :=
            .outside rfl rfl (by simp [Loader.start])
          have fromFile := run_withByte agrees pending junk fuel
          have fromString := run_withByte agrees pending nul fuel
          simpa [Loader.start, Loader.withByte] using fromFile.trans fromString.symm

theorem configLoad_ofContent (alloc : ℕ → Bool) {config config' : Config} {content : Bytes}
    (free : NulFree content) (same : config.data = config'.data) (junk : UInt8) (fuel : ℕ) :
    configLoad alloc config (.ofContent content) junk fuel =
      configLoad2 alloc config' content fuel :=
  run_ofContent (fun _ _ _ => step_agrees) alloc free same junk fuel

/-- `config_load` returns with a result, after some number of steps. -/
def FileLoads (alloc : ℕ → Bool) (config : Config) (file : OpenedFile) (junk : UInt8)
    (result : LoadResult) : Prop :=
  ∃ fuel, configLoad alloc config file junk fuel = some result

theorem fileLoads_iff_loads {alloc : ℕ → Bool} {config : Config} {content : Bytes}
    (free : NulFree content) {junk : UInt8} {result : LoadResult} :
    FileLoads alloc config (.ofContent content) junk result ↔
      Loads alloc config content result := by
  simp only [FileLoads, Loads, configLoad_ofContent alloc free rfl]

/-- `config_load` on a file that is read completely returns what `config_load2` returns on
its content as a string, whatever the byte behind the content is and however the requests
for memory are answered. -/
theorem configLoad_eq_configLoad2 (alloc : ℕ → Bool) {config config' : Config} {content : Bytes}
    (free : NulFree content) (same : config.data = config'.data) (fuel : ℕ) :
    ∀ junk, configLoad alloc config (.ofContent content) junk fuel =
      configLoad2 alloc config' content fuel :=
  fun junk => configLoad_ofContent alloc free same junk fuel

/-- The text `a "\` ends in an escape, and the byte behind it is a quote. -/
theorem configLoad_eq_configLoad2_escape :
    configLoad ample Config.new (.ofContent [97, 32, 34, 92]) Ascii.quote 9 =
      configLoad2 ample Config.new [97, 32, 34, 92] 9 :=
  configLoad_eq_configLoad2 ample (by decide) rfl 9 Ascii.quote

end Libhelp

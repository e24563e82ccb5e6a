import Libhelp.Config.CopyStatement

/-!
# Writing quoted values

A value can be written as a quoted statement if a backslash is put before each of
its quotes.  The loaders take such a backslash for the sign that the quote does not
end the value, and they store it with the value: nothing takes it out again.  A
backslash that already stands at the end of the value comes to stand before the
closing quote, which then does not close the value either.
-/

namespace Libhelp

open CString

/-- Put a backslash before each quote. -/
def escape (value : Bytes) : Bytes :=
  value.flatMap fun c => if c = Ascii.quote then [Ascii.backslash, c] else [c]

/-- The statement `key "value";` with the quotes of the value escaped. -/
def quotedStatement (key value : Bytes) : Bytes :=
  key ++ Ascii.space :: Ascii.quote :: (escape value ++ [Ascii.quote, Ascii.semicolon])

section Escape

variable {value : Bytes}

@[simp]
theorem escape_nil : escape [] = [] :=
  rfl

theorem escape_cons_quote : escape (Ascii.quote :: value) =
    Ascii.backslash :: Ascii.quote :: escape value :=
  rfl

theorem escape_cons_of_ne {c : UInt8} (other : c ≠ Ascii.quote) :
    escape (c :: value) = c :: escape value := by
  simp [escape, other]

theorem mem_escape_of_ne {c : UInt8} (backslash : c ≠ Ascii.backslash) :
    c ∈ escape value ↔ c ∈ value := by
  induction value with
  | nil => rfl
  | cons d value ih =>
      by_cases quote : d = Ascii.quote
      · subst quote
        simp [escape_cons_quote, ih, backslash]
      · simp [escape_cons_of_ne quote, ih]

theorem getLast?_escape : (escape value).getLast? = value.getLast? := by
  induction value using List.reverseRecOn with
  | nil => rfl
  | append_singleton value c _ =>
      have last : escape (value ++ [c]) =
          escape value ++ if c = Ascii.quote then [Ascii.backslash, c] else [c] := by
        simp [escape]
      rw [last, List.getLast?_concat]
      split <;> simp

theorem escape_eq_self_iff : escape value = value ↔ Ascii.quote ∉ value := by
  constructor
  · intro same mem
    have longer : ∀ rest : Bytes, rest.length ≤ (escape rest).length := by
      intro rest
      induction rest with
      | nil => exact le_rfl
      | cons c rest ih =>
          by_cases quote : c = Ascii.quote
          · subst quote
            simp [escape_cons_quote]
            omega
          · simpa [escape_cons_of_ne quote] using ih
    rcases List.append_of_mem mem with ⟨before, after, rfl⟩
    have length := congrArg List.length same
    have first := longer before
    have second := longer after
    rw [escape, List.flatMap_append, ← escape, ← escape, escape_cons_quote] at length
    simp only [List.length_append, List.length_cons] at length
    omega
  · intro free
    induction value with
    | nil => rfl
    | cons c value ih =>
        rw [List.mem_cons, not_or] at free
        rw [escape_cons_of_ne (Ne.symm free.1), ih free.2]

theorem escape_escaped {before after : Bytes}
    (split : escape value = before ++ Ascii.quote :: after) :
    before.getLast? = some Ascii.backslash := by
  induction value generalizing before with
  | nil => simp at split
  | cons c value ih =>
      by_cases quote : c = Ascii.quote
      · subst quote
        rw [escape_cons_quote] at split
        cases before with
        | nil => exact absurd (List.cons.inj split).1 (by decide)
        | cons first before =>
            rcases List.cons.inj split with ⟨backslash, split⟩
            cases before with
            | nil => simp [← backslash]
            | cons second before =>
                rcases List.cons.inj split with ⟨_, split⟩
                simp [List.getLast?_cons, ih split]
      · rw [escape_cons_of_ne quote] at split
        cases before with
        | nil => exact absurd (List.cons.inj split).1 quote
        | cons first before =>
            rcases List.cons.inj split with ⟨_, split⟩
            simp [List.getLast?_cons, ih split]

/-- An escaped value, as the loaders read it behind an opening quote. -/
def escapedBody (value : Bytes) (oneLine : Ascii.newline ∉ value) : QuotedBody where
  bytes := escape value
  oneLine := by rwa [mem_escape_of_ne (by decide)]
  escaped := fun _ _ => escape_escaped

end Escape

section Load

variable (key : Key) (value : Bytes)

theorem nulFree_quotedStatement (free : NulFree value) :
    NulFree (quotedStatement key.bytes value) := by
  have escaped : NulFree (escape value) := by
    rwa [NulFree, mem_escape_of_ne (by decide)]
  simp only [quotedStatement, nulFree_append, nulFree_cons, nulFree_nil, escaped,
    nulFree_of_achar key.allowed]
  decide

def oneSpace : Gap where
  bytes := [Ascii.space]
  nonempty := by simp
  blank := by decide

theorem passes_quotedStatement (oneLine : Ascii.newline ∉ value)
    (closed : value.getLast? ≠ some Ascii.backslash) :
    Passes .space (quotedStatement key.bytes value) .space [.assign key.bytes (escape value)] := by
  have closed' : (escape value).getLast? ≠ some Ascii.backslash := by rwa [getLast?_escape]
  have item := Item.passes (.quoted key oneSpace
    ⟨escapedBody value oneLine, closed', [], inside_nil⟩)
  simpa [Item.bytes, Item.stmts, Fragment.bytes, quotedStatement, oneSpace, escapedBody] using item

/-- A backslash at the end of the value keeps the closing quote from closing it. -/
theorem passes_quotedStatement_open (oneLine : Ascii.newline ∉ value)
    (ended : value.getLast? = some Ascii.backslash) :
    Passes .space (quotedStatement key.bytes value)
      (.inQuoted key.bytes (escape value ++ [Ascii.quote, Ascii.semicolon])) [] := by
  have ended' : (escape value).getLast? = some Ascii.backslash := by rwa [getLast?_escape]
  have body := (passes_separator key oneSpace).append
    (passes_quoted key.bytes (escapedBody value oneLine))
  have quote : Passes (.inQuoted key.bytes (escape value)) [Ascii.quote]
      (.inQuoted key.bytes (escape value ++ [Ascii.quote])) [] :=
    .one (Mode.next_escaped ended') (Mode.emit_escaped ended')
  have semicolon : Passes (.inQuoted key.bytes (escape value ++ [Ascii.quote])) [Ascii.semicolon]
      (.inQuoted key.bytes (escape value ++ [Ascii.quote] ++ [Ascii.semicolon])) [] :=
    .one rfl rfl
  have whole := body.append (quote.append semicolon)
  simpa [quotedStatement, oneSpace, escapedBody] using whole

theorem loads_of_passes {config : Config} {text : Bytes} (free : NulFree text) {mode : Mode}
    {out : List Stmt} (passes : Passes .space text mode out) (accepted : mode.isFailed = false)
    {result : LoadResult} :
    Loads ample config text result ↔
      ∃ data, Exec config.data out data ∧
        result = ⟨OK, { config.begin text with data := data }, none⟩ := by
  have ends : (scan text).mode = mode := (passes 1).1
  have notFailed : ∀ fault, (scan text).mode ≠ .failed fault := by
    intro fault failed
    rw [← ends, failed] at accepted
    simp [Mode.isFailed] at accepted
  have emitted : stmts text = out := (passes 1).2
  rw [loads_iff free, emitted]
  simp only [Scan.result_of_not_failed notFailed]

/-- Loading a written statement succeeds.  It binds the key to the value with its
backslashes, which is the value itself exactly when there is no quote in it; only a value
that ends in a backslash is not stored at all. -/
theorem loads_quotedStatement (config : Config) (key : Key) (value : Bytes)
    (free : NulFree value) (oneLine : Ascii.newline ∉ value) :
    ∃ loaded : Config,
      (∀ result, Loads ample config (quotedStatement key.bytes value) result ↔
        result = ⟨OK, loaded, none⟩) ∧
      (value.getLast? ≠ some Ascii.backslash → ∀ default : Word,
        configGetStr loaded key.bytes default = some (escape value) ∧
        (configGetStr loaded key.bytes default = some value ↔ Ascii.quote ∉ value)) ∧
      (value.getLast? = some Ascii.backslash → loaded.data = config.data) := by
  have textFree := nulFree_quotedStatement key value free
  by_cases ended : value.getLast? = some Ascii.backslash
  · refine ⟨{ config.begin (quotedStatement key.bytes value) with data := config.data }, ?_, ?_, ?_⟩
    · intro result
      rw [loads_of_passes textFree (passes_quotedStatement_open key value oneLine ended) rfl]
      simp
    · intro closed
      exact absurd ended closed
    · intro _
      rfl
  · refine ⟨{ config.begin (quotedStatement key.bytes value) with
      data := config.data.insert key.bytes (some (escape value)) }, ?_, ?_, ?_⟩
    · intro result
      rw [loads_of_passes textFree (passes_quotedStatement key value oneLine ended) rfl]
      simp
    · intro _ default
      have got : ∀ conf line, configGetStr
          ⟨config.data.insert key.bytes (some (escape value)), line, conf⟩ key.bytes default =
          some (escape value) := by
        intro conf line
        simp [configGetStr]
      refine ⟨got _ _, ?_⟩
      rw [got _ _, Option.some_inj, escape_eq_self_iff]
    · intro isEnded
      exact absurd isEnded ended

theorem loads_quotedStatement_inner :
    ∃ loaded : Config,
      (∀ result, Loads ample Config.new (quotedStatement [97] [120, 34, 121]) result ↔
        result = ⟨OK, loaded, none⟩) ∧
      configGetStr loaded [97] none = some [120, 92, 34, 121] := by
  rcases loads_quotedStatement Config.new ⟨[97], by decide, by decide, by decide⟩ [120, 34, 121]
    (by decide) (by decide) with ⟨loaded, loads, stored, _⟩
  exact ⟨loaded, loads, (stored (by decide) none).1⟩

/-- The value `"` comes back with its backslash. -/
theorem quote_not_restored :
    (∃ loaded, Loads ample Config.new (quotedStatement [97] [34]) loaded ∧ loaded.ret = OK) ∧
      ∀ loaded, Loads ample Config.new (quotedStatement [97] [34]) loaded →
        configGetStr loaded.config [97] none ≠ some [34] := by
  have loads : Loads ample Config.new (quotedStatement [97] [34])
      ⟨OK, ⟨(∅ : Store).insert [97] (some [92, 34]), 0, some (quotedStatement [97] [34])⟩, none⟩ :=
    ⟨20, rfl⟩
  refine ⟨⟨_, loads, rfl⟩, ?_⟩
  intro other otherLoads
  rcases StepProgram.Returns.unique loads otherLoads with rfl
  decide

end Load

end Libhelp

import Libhelp.Lib.CString
import Libhelp.Lib.OrdMap
import Libhelp.Lib.Program

/-!
# The configuration loaders

The model of `config_load` and `config_load2`: one byte machine over a private
copy of the text, into which it writes the NUL bytes that end keys and values.
The cursor and the start of the pending key and value are offsets into that
buffer.  The Judy array is an ordered map from byte strings to words, a word
being a string in the pool or `NULL`.

Every call that may run out of memory asks `alloc`, numbered from the start of
the load.  The local buffers `index` and `key` of the source hold
`CONFIG_KEY_MAX_SIZE` bytes and a NUL; here they are not bounded, and the runs
that stay within them are told apart where this matters.  The counters are
natural numbers: texts are taken to be shorter than `INT_MAX`.
-/

namespace Libhelp

open StepProgram CString

def OK : ℤ := 0

def ERROR : ℤ := -1

def CONFIG_KEY_MAX_SIZE : ℕ := 64

namespace Ascii

abbrev tab : UInt8 := 9
abbrev newline : UInt8 := 10
abbrev carriageReturn : UInt8 := 13
abbrev space : UInt8 := 32
abbrev quote : UInt8 := 34
abbrev hash : UInt8 := 35
abbrev semicolon : UInt8 := 59
abbrev atSign : UInt8 := 64
abbrev backslash : UInt8 := 92

end Ascii

/-- The table `achar`: the bytes that may occur in a key are `.`, the digits, the
letters and `_`. -/
def achar (c : UInt8) : Bool :=
  c = 46 || (48 ≤ c && c ≤ 57) || (65 ≤ c && c ≤ 90) || c = 95 || (97 ≤ c && c ≤ 122)

/-- A word of the Judy array: a string in the pool, or `NULL`. -/
abbrev Word := Option Bytes

/-- The Judy array of a configuration. -/
abbrev Store := OrdMap Bytes Word

/-- The fields of `config_t` that loading reads and writes. -/
structure Config where
  data : Store
  lineError : ℕ
  conf : Option Bytes
  deriving DecidableEq

/-- What a loader reports through `log_error`. -/
inductive LogMessage where
  /-- `can't malloc` -/
  | cantMalloc
  /-- `can't open` -/
  | cantOpen
  /-- `can't stat` -/
  | cantStat
  /-- `can't read file` -/
  | cantRead
  /-- `unexpected symbol` -/
  | unexpectedSymbol (c : UInt8) (line : ℕ)
  /-- `key … to long` -/
  | keyTooLong (key : Bytes) (size line : ℕ)
  /-- `unexpected end of line` -/
  | unexpectedEndOfLine (line : ℕ)
  /-- `copy key … to long` -/
  | copyKeyTooLong (key : Bytes) (size line : ℕ)
  /-- `Judy error` -/
  | judyError
  /-- `pool_cpy error` -/
  | poolCpyError
  deriving DecidableEq

structure LoadResult where
  ret : ℤ
  config : Config
  logged : Option LogMessage
  deriving DecidableEq

/-- The states of the byte machine. -/
inductive ScanState where
  | space
  | comment
  | paramKey
  | paramKeySp
  | paramValue
  | paramQtValue
  | paramValueSkip
  | paramCopyValue
  deriving DecidableEq

/-- The copy loop: the buffer `index` and the word the last Judy search returned. -/
structure Copying where
  index : Bytes
  pw : Option Word
  deriving DecidableEq

/-- The local state of a loader. -/
structure Loader where
  config : Config
  /-- The number of requests for memory so far. -/
  requests : ℕ
  /-- The buffer `config->src`. -/
  src : Bytes
  /-- The offset of `end`. -/
  stop : ℕ
  state : ScanState
  line : ℕ
  p : ℕ
  pkey : ℕ
  pvalue : ℕ
  /-- The copy loop, while it is running. -/
  copying : Option Copying
  deriving DecidableEq

namespace Loader

/-- Leave the loader with a syntax error on the current line. -/
def fail (m : Loader) (message : ℕ → LogMessage) : Outcome Loader LoadResult :=
  .ret ⟨ERROR, { m.config with lineError := m.line }, some (message m.line)⟩

/-- `JSLI` of a key and `pool_cpy` of a value into its word. -/
def insertWord (alloc : ℕ → Bool) (m : Loader) (key : Bytes) (value : Word)
    (continue' : Loader → Loader) : Outcome Loader LoadResult :=
  if alloc m.requests then
    match value with
    | none => .stuck
    | some bytes =>
        if alloc (m.requests + 1) then
          .next (continue' { m with
            config := { m.config with data := m.config.data.insert key (some bytes) }
            requests := m.requests + 2 })
        else
          .ret ⟨ERROR, { m.config with data := m.config.data.insert key none },
            some .poolCpyError⟩
  else
    .ret ⟨ERROR, m.config, some .judyError⟩

/-- Storing a value crashes on `NULL`, fails for lack of memory, or goes on. -/
theorem insertWord_cases (alloc : ℕ → Bool) (m : Loader) (key : Bytes) (value : Word)
    (continue' : Loader → Loader) :
    m.insertWord alloc key value continue' = .stuck ∨
      (∃ result, m.insertWord alloc key value continue' = .ret result ∧ result.ret = ERROR ∧
        (result.config.data = m.config.data ∨
          result.config.data = m.config.data.insert key none)) ∨
      ∃ bytes, value = some bytes ∧ m.insertWord alloc key value continue' =
        .next (continue' { m with
          config := { m.config with data := m.config.data.insert key (some bytes) }
          requests := m.requests + 2 }) := by
  cases value with
  | none =>
      by_cases found : alloc m.requests
      · exact .inl (if_pos found)
      · exact .inr (.inl ⟨_, if_neg found, rfl, .inl rfl⟩)
  | some bytes =>
      by_cases found : alloc m.requests
      · by_cases copied : alloc (m.requests + 1)
        · exact .inr (.inr ⟨bytes, rfl, (if_pos found).trans (if_pos copied)⟩)
        · exact .inr (.inl ⟨_, (if_pos found).trans (if_neg copied), rfl, .inr rfl⟩)
      · exact .inr (.inl ⟨_, if_neg found, rfl, .inl rfl⟩)

/-- Write a NUL at the cursor. -/
def cut (m : Loader) : Loader :=
  { m with src := m.src.set m.p nul }

@[simp]
theorem cut_line (m : Loader) : m.cut.line = m.line :=
  rfl

@[simp]
theorem cut_stop (m : Loader) : m.cut.stop = m.stop :=
  rfl

/-- The string that a NUL at the cursor makes of the pending value. -/
def value (m : Loader) : Bytes :=
  cstr ((m.src.drop m.pvalue).take (m.p - m.pvalue + 1))

def key (m : Loader) : Bytes :=
  cstr (m.src.drop m.pkey)

/-- What a Judy search leaves in `index` and returns. -/
def found (index : Bytes) : Option (Bytes × Word) → Copying
  | some (key, word) => ⟨key, some word⟩
  | none => ⟨index, none⟩

/-- The body of the main loop. -/
def scanStep (alloc : ℕ → Bool) (m : Loader) : Outcome Loader LoadResult :=
  let c := byteAt m.src m.p
  let next := { m with p := m.p + 1 }
  match m.state with
  | .space =>
      if achar c then
        .next { next with pkey := m.p, state := .paramKey }
      else if c = Ascii.space ∨ c = Ascii.tab ∨ c = Ascii.carriageReturn then
        .next next
      else if c = Ascii.newline then
        .next { next with line := m.line + 1 }
      else if c = Ascii.hash then
        .next { next with state := .comment }
      else
        m.fail (.unexpectedSymbol c)
  | .comment =>
      if c = Ascii.newline then
        .next { next with line := m.line + 1, state := .space }
      else
        .next next
  | .paramKey =>
      if achar c then
        .next next
      else if c = Ascii.space ∨ c = Ascii.tab then
        if m.p - m.pkey > CONFIG_KEY_MAX_SIZE then
          m.cut.fail (.keyTooLong m.cut.key (m.p - m.pkey))
        else
          .next { m.cut with state := .paramKeySp, p := m.p + 1 }
      else
        m.fail (.unexpectedSymbol c)
  | .paramKeySp =>
      if c = Ascii.space ∨ c = Ascii.tab then
        .next next
      else if c = Ascii.quote then
        .next { next with pvalue := m.p + 1, state := .paramQtValue }
      else if c = Ascii.atSign then
        .next { next with pvalue := m.p + 1, state := .paramCopyValue }
      else if c = Ascii.carriageReturn ∨ c = Ascii.newline then
        m.fail .unexpectedEndOfLine
      else
        .next { next with pvalue := m.p, state := .paramValue }
  | .paramValue =>
      if c = Ascii.semicolon then
        m.cut.insertWord alloc m.cut.key (some m.cut.value) fun m =>
          { m with state := .space, p := m.p + 1 }
      else if c = Ascii.newline then
        m.fail .unexpectedEndOfLine
      else
        .next next
  | .paramQtValue =>
      if c = Ascii.backslash ∧ byteAt m.src (m.p + 1) = Ascii.quote then
        .next { m with p := m.p + 2 }
      else if c = Ascii.quote then
        m.cut.insertWord alloc m.cut.key (some m.cut.value) fun m =>
          { m with state := .paramValueSkip, p := m.p + 1 }
      else if c = Ascii.newline then
        m.fail .unexpectedEndOfLine
      else
        .next next
  | .paramValueSkip =>
      if c = Ascii.semicolon then
        .next { next with state := .space }
      else if c = Ascii.newline then
        m.fail .unexpectedEndOfLine
      else
        .next next
  | .paramCopyValue =>
      if c = Ascii.semicolon then
        if m.p - m.pvalue > CONFIG_KEY_MAX_SIZE then
          m.cut.fail (.copyKeyTooLong (cstr (m.cut.src.drop m.pvalue)) (m.p - m.pvalue))
        else
          -- `JSLF` starts at the prefix and overwrites it with the key it finds.
          .next { m.cut with
            copying := some (found m.cut.value (m.config.data.firstFrom m.cut.value)) }
      else if c = Ascii.newline then
        m.fail .unexpectedEndOfLine
      else
        .next next

/-- One iteration of the copy loop, or its exit. -/
def copyStep (alloc : ℕ → Bool) (m : Loader) (copying : Copying) : Outcome Loader LoadResult :=
  let n := m.p - m.pvalue
  let leave := { m with copying := none, state := .space, p := m.p + 1 }
  match copying.pw with
  | none => .next leave
  | some k =>
      if strncmpEq copying.index (cstr (m.src.drop m.pvalue)) n then
        m.insertWord alloc (m.key ++ copying.index.drop n) k fun m =>
          { m with
            copying := some (found copying.index (m.config.data.nextAfter copying.index)) }
      else
        .next leave

def step (alloc : ℕ → Bool) (m : Loader) : Outcome Loader LoadResult :=
  match m.copying with
  | some copying => m.copyStep alloc copying
  | none => if m.p < m.stop then m.scanStep alloc else .ret ⟨OK, m.config, none⟩

/-- The machine at the start of a buffer of which `stop` bytes are text. -/
def start (config : Config) (requests : ℕ) (src : Bytes) (stop : ℕ) : Loader :=
  { config, requests, src, stop, state := .space, line := 1, p := 0, pkey := 0, pvalue := 0,
    copying := none }

end Loader

/-- What `open`, `fstat` and `read` do on the file of `config_load`. -/
structure OpenedFile where
  opens : Bool
  /-- The size `fstat` reports, or its failure. -/
  stSize : Option ℕ
  /-- The bytes `read` delivers, or its failure. -/
  content : Option Bytes

/-- The part of `config_load` before the main loop.  The buffer is one byte larger than
the file, and `junk` is what `malloc` left there. -/
def configLoadStart (alloc : ℕ → Bool) (config : Config) (file : OpenedFile) (junk : UInt8) :
    Outcome Loader LoadResult :=
  let config := { config with lineError := 0 }
  if file.opens = false then
    .ret ⟨ERROR, config, some .cantOpen⟩
  else
    match file.stSize with
    | none => .ret ⟨ERROR, config, some .cantStat⟩
    | some stSize =>
        let config := { config with conf := none }
        if alloc 0 = false then
          .ret ⟨ERROR, config, some .cantMalloc⟩
        else if alloc 1 = false then
          .ret ⟨ERROR, config, some .cantMalloc⟩
        else
          match file.content with
          | none => .ret ⟨ERROR, { config with conf := some [] }, some .cantRead⟩
          | some content =>
              if content.length ≠ stSize then
                .ret ⟨ERROR, { config with conf := some [] }, some .cantRead⟩
              else
                .next (Loader.start { config with conf := some (cstr content) } 2
                  (content ++ [junk]) stSize)

/-- `config_load`, with `fuel` steps of the byte machine. -/
def configLoad (alloc : ℕ → Bool) (config : Config) (file : OpenedFile) (junk : UInt8)
    (fuel : ℕ) : Option LoadResult :=
  run (Loader.step alloc) fuel (configLoadStart alloc config file junk)

/-- The part of `config_load2` before the main loop. -/
def configLoad2Start (alloc : ℕ → Bool) (config : Config) (str : Bytes) :
    Outcome Loader LoadResult :=
  let config := { config with lineError := 0, conf := none }
  if alloc 0 = false then
    .ret ⟨ERROR, config, some .cantMalloc⟩
  else if alloc 1 = false then
    .ret ⟨ERROR, config, some .cantMalloc⟩
  else
    .next (Loader.start { config with conf := some (cstr str) } 2 (cstr str ++ [nul]) (strlen str))

/-- `config_load2`, with `fuel` steps of the byte machine. -/
def configLoad2 (alloc : ℕ → Bool) (config : Config) (str : Bytes) (fuel : ℕ) :
    Option LoadResult :=
  run (Loader.step alloc) fuel (configLoad2Start alloc config str)

/-- A freshly allocated configuration, all zero. -/
def Config.new : Config :=
  ⟨∅, 0, none⟩

/-- `config_get_str`: the word of a key, or a default. -/
def configGetStr (config : Config) (key : Bytes) (default : Word) : Word :=
  (config.data.find? key).getD default

end Libhelp

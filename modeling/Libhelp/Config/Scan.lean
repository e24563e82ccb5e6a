import Libhelp.Config.Loader

/-!
# Scanning a configuration text

The abstract reading of a configuration text: an automaton that takes one byte at
a time, remembers the pending key and value themselves instead of where they lie,
and produces the statements of the text in order.  It has neither a store nor a
buffer, and an escaped quote is one whose pending value ends in a backslash.

A text is read by `scan`, which also counts lines, and its statements are `emits`.
Both distribute over concatenation of texts.
-/

namespace Libhelp

/-- What a completed statement asks of the store. -/
inductive Stmt where
  /-- Bind a key to a value. -/
  | assign (key value : Bytes)
  /-- Copy the entries under `source` to `target`. -/
  | copy (target source : Bytes)
  deriving DecidableEq

/-- Why a text is rejected. -/
inductive Fault where
  | unexpectedSymbol (c : UInt8)
  | keyTooLong (key : Bytes)
  | unexpectedEndOfLine
  | copyKeyTooLong (source : Bytes)
  deriving DecidableEq

/-- The message that reports a fault on a line. -/
def Fault.message : Fault → ℕ → LogMessage
  | .unexpectedSymbol c => .unexpectedSymbol c
  | .keyTooLong key => .keyTooLong key key.length
  | .unexpectedEndOfLine => .unexpectedEndOfLine
  | .copyKeyTooLong source => .copyKeyTooLong source source.length

/-- Where a reader of a text is. -/
inductive Mode where
  | space
  | comment
  | inKey (acc : Bytes)
  | afterKey (key : Bytes)
  | inValue (key acc : Bytes)
  | inQuoted (key acc : Bytes)
  | afterQuote
  | inCopy (key acc : Bytes)
  | failed (fault : Fault)
  deriving DecidableEq

namespace Mode

/-- Whether the text read so far is rejected. -/
def isFailed : Mode → Bool
  | .failed _ => true
  | _ => false

/-- Whether a statement has begun and is not yet complete. -/
def inStatement : Mode → Bool
  | .space | .comment | .failed _ => false
  | _ => true

def next : Mode → UInt8 → Mode
  | .space, c =>
      if achar c then .inKey [c]
      else if c = Ascii.space ∨ c = Ascii.tab ∨ c = Ascii.carriageReturn then .space
      else if c = Ascii.newline then .space
      else if c = Ascii.hash then .comment
      else .failed (.unexpectedSymbol c)
  | .comment, c => if c = Ascii.newline then .space else .comment
  | .inKey acc, c =>
      if achar c then .inKey (acc ++ [c])
      else if c = Ascii.space ∨ c = Ascii.tab then
        if acc.length > CONFIG_KEY_MAX_SIZE then .failed (.keyTooLong acc) else .afterKey acc
      else .failed (.unexpectedSymbol c)
  | .afterKey key, c =>
      if c = Ascii.space ∨ c = Ascii.tab then .afterKey key
      else if c = Ascii.quote then .inQuoted key []
      else if c = Ascii.atSign then .inCopy key []
      else if c = Ascii.carriageReturn ∨ c = Ascii.newline then .failed .unexpectedEndOfLine
      else .inValue key [c]
  | .inValue key acc, c =>
      if c = Ascii.semicolon then .space
      else if c = Ascii.newline then .failed .unexpectedEndOfLine
      else .inValue key (acc ++ [c])
  | .inQuoted key acc, c =>
      if c = Ascii.quote ∧ acc.getLast? ≠ some Ascii.backslash then .afterQuote
      else if c = Ascii.newline then .failed .unexpectedEndOfLine
      else .inQuoted key (acc ++ [c])
  | .afterQuote, c =>
      if c = Ascii.semicolon then .space
      else if c = Ascii.newline then .failed .unexpectedEndOfLine
      else .afterQuote
  | .inCopy key acc, c =>
      if c = Ascii.semicolon then
        if acc.length > CONFIG_KEY_MAX_SIZE then .failed (.copyKeyTooLong acc) else .space
      else if c = Ascii.newline then .failed .unexpectedEndOfLine
      else .inCopy key (acc ++ [c])
  | .failed fault, _ => .failed fault

/-- The statement a byte completes. -/
def emit : Mode → UInt8 → List Stmt
  | .inValue key acc, c => if c = Ascii.semicolon then [.assign key acc] else []
  | .inQuoted key acc, c =>
      if c = Ascii.quote ∧ acc.getLast? ≠ some Ascii.backslash then [.assign key acc] else []
  | .inCopy key acc, c =>
      if c = Ascii.semicolon ∧ acc.length ≤ CONFIG_KEY_MAX_SIZE then [.copy key acc] else []
  | _, _ => []

@[simp]
theorem next_failed (fault : Fault) (c : UInt8) : (failed fault).next c = .failed fault :=
  rfl

@[simp]
theorem emit_failed (fault : Fault) (c : UInt8) : (failed fault).emit c = [] :=
  rfl

theorem next_escaped {key acc : Bytes} (escaped : acc.getLast? = some Ascii.backslash) :
    (inQuoted key acc).next Ascii.quote = .inQuoted key (acc ++ [Ascii.quote]) := by
  rw [next, if_neg (fun closes => closes.2 escaped), if_neg (by decide)]

theorem emit_escaped {key acc : Bytes} (escaped : acc.getLast? = some Ascii.backslash) :
    (inQuoted key acc).emit Ascii.quote = [] := by
  rw [emit, if_neg fun closes => closes.2 escaped]

end Mode

/-- A reader: its mode and the line it is on. -/
structure Scan where
  mode : Mode
  line : ℕ
  deriving DecidableEq

namespace Scan

def initial : Scan :=
  ⟨.space, 1⟩

def next (s : Scan) (c : UInt8) : Scan :=
  ⟨s.mode.next c, if c = Ascii.newline ∧ (s.mode.next c).isFailed = false then s.line + 1
    else s.line⟩

def feed (s : Scan) (text : Bytes) : Scan :=
  text.foldl next s

def emits (s : Scan) : Bytes → List Stmt
  | [] => []
  | c :: rest => s.mode.emit c ++ (s.next c).emits rest

@[simp]
theorem feed_nil (s : Scan) : s.feed [] = s :=
  rfl

@[simp]
theorem feed_cons (s : Scan) (c : UInt8) (rest : Bytes) :
    s.feed (c :: rest) = (s.next c).feed rest :=
  rfl

theorem feed_append (s : Scan) (left right : Bytes) :
    s.feed (left ++ right) = (s.feed left).feed right :=
  List.foldl_append

@[simp]
theorem emits_nil (s : Scan) : s.emits [] = [] :=
  rfl

@[simp]
theorem emits_cons (s : Scan) (c : UInt8) (rest : Bytes) :
    s.emits (c :: rest) = s.mode.emit c ++ (s.next c).emits rest :=
  rfl

theorem emits_append (s : Scan) (left right : Bytes) :
    s.emits (left ++ right) = s.emits left ++ (s.feed left).emits right := by
  induction left generalizing s with
  | nil => rfl
  | cons c left ih => simp [ih]

@[simp]
theorem mode_next (s : Scan) (c : UInt8) : (s.next c).mode = s.mode.next c :=
  rfl

/-- The byte that a fault is found at is not counted as a newline. -/
theorem next_of_failed {s : Scan} {c : UInt8} {fault : Fault}
    (failed : s.mode.next c = .failed fault) : s.next c = ⟨.failed fault, s.line⟩ := by
  simp [Scan.next, failed, Mode.isFailed]

/-- The statements do not depend on the line counter. -/
theorem emits_line (mode : Mode) (line line' : ℕ) (text : Bytes) :
    (Scan.mk mode line).emits text = (Scan.mk mode line').emits text := by
  induction text generalizing mode line line' with
  | nil => rfl
  | cons c text ih =>
      rw [emits_cons, emits_cons]
      exact congrArg (mode.emit c ++ ·) (ih _ _ _)

theorem mode_feed_line (mode : Mode) (line line' : ℕ) (text : Bytes) :
    ((Scan.mk mode line).feed text).mode = ((Scan.mk mode line').feed text).mode := by
  induction text generalizing mode line line' with
  | nil => rfl
  | cons c text ih =>
      rw [feed_cons, feed_cons]
      exact ih _ _ _

@[simp]
theorem feed_failed (fault : Fault) (line : ℕ) (text : Bytes) :
    (Scan.mk (.failed fault) line).feed text = ⟨.failed fault, line⟩ := by
  induction text with
  | nil => rfl
  | cons c text ih => simpa [next, Mode.isFailed] using ih

@[simp]
theorem emits_failed (fault : Fault) (line : ℕ) (text : Bytes) :
    (Scan.mk (.failed fault) line).emits text = [] := by
  induction text with
  | nil => rfl
  | cons c text ih => simpa [next, Mode.isFailed] using ih

theorem le_feed_line (s : Scan) (text : Bytes) : s.line ≤ (s.feed text).line := by
  induction text generalizing s with
  | nil => exact le_rfl
  | cons c text ih =>
      have step : s.line ≤ (s.next c).line := by
        simp only [Scan.next]
        split
        · omega
        · exact le_rfl
      exact step.trans (ih _)

end Scan

theorem Mode.emit_newline (mode : Mode) : mode.emit Ascii.newline = [] := by
  cases mode <;> rfl

/-- A newline takes every reader back to the start, or to a fault. -/
theorem Scan.next_newline (s : Scan) :
    (s.mode.isFailed = false ∧ ∃ line, s.next Ascii.newline = ⟨.space, line⟩) ∨
      ∃ fault line, s.next Ascii.newline = ⟨.failed fault, line⟩ := by
  rcases s with ⟨mode, line⟩
  cases mode with
  | space => exact .inl ⟨rfl, _, rfl⟩
  | comment => exact .inl ⟨rfl, _, rfl⟩
  | _ => exact .inr ⟨_, _, rfl⟩

def scan (text : Bytes) : Scan :=
  Scan.initial.feed text

def stmts (text : Bytes) : List Stmt :=
  Scan.initial.emits text

end Libhelp

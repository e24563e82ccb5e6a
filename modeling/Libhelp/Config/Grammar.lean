import Libhelp.Config.Scan
import Mathlib.Data.List.Induction

/-!
# The grammar of configuration texts

A text is a sequence of complete items: blanks, newlines, comments, and plain,
quoted and copy statements.  A text may also stop inside a comment, which is
harmless, or inside a statement.  The parts of a statement carry the conditions
the loaders impose on them.

Every text is well formed, cut off in a statement, or rejected by the reader; the
three are told apart by the mode in which the reader ends.
-/

namespace Libhelp

/-- The bytes of a statement's value part never end the statement or the line. -/
def Inside (bytes : Bytes) : Prop :=
  ∀ c ∈ bytes, c ≠ Ascii.semicolon ∧ c ≠ Ascii.newline

def KeyBytes (bytes : Bytes) : Prop :=
  ∀ c ∈ bytes, achar c

def Blanks (bytes : Bytes) : Prop :=
  ∀ c ∈ bytes, c = Ascii.space ∨ c = Ascii.tab

instance (bytes : Bytes) : Decidable (Inside bytes) :=
  List.decidableBAll _ _

instance (bytes : Bytes) : Decidable (KeyBytes bytes) :=
  List.decidableBAll _ _

instance (bytes : Bytes) : Decidable (Blanks bytes) :=
  List.decidableBAll _ _

structure Key where
  bytes : Bytes
  nonempty : bytes ≠ []
  allowed : KeyBytes bytes
  short : bytes.length ≤ CONFIG_KEY_MAX_SIZE

/-- The spaces and tabs that separate a key from its value. -/
structure Gap where
  bytes : Bytes
  nonempty : bytes ≠ []
  blank : Blanks bytes

/-- A value without quotes.  Its first byte tells it apart from the blanks before it and
from the other kinds of values; it is the only byte of the value that may be a `;`. -/
structure RawValue where
  first : UInt8
  rest : Bytes
  opens : first ≠ Ascii.space ∧ first ≠ Ascii.tab ∧ first ≠ Ascii.quote ∧
    first ≠ Ascii.atSign ∧ first ≠ Ascii.carriageReturn ∧ first ≠ Ascii.newline
  inside : Inside rest

/-- What may follow an opening quote: one line in which quotes come after a backslash. -/
structure QuotedBody where
  bytes : Bytes
  oneLine : Ascii.newline ∉ bytes
  escaped : ∀ before after, bytes = before ++ Ascii.quote :: after →
    before.getLast? = some Ascii.backslash

/-- A quoted value and what stands between its closing quote and the `;`. -/
structure ClosedBody extends QuotedBody where
  closed : bytes.getLast? ≠ some Ascii.backslash
  tail : Bytes
  inside : Inside tail

/-- The prefix that a copy statement copies from. -/
structure CopySource where
  bytes : Bytes
  inside : Inside bytes
  short : bytes.length ≤ CONFIG_KEY_MAX_SIZE

/-- A complete part of a text. -/
inductive Item where
  | blank (c : UInt8) (isBlank : c = Ascii.space ∨ c = Ascii.tab ∨ c = Ascii.carriageReturn)
  | newline
  | comment (body : Bytes) (oneLine : Ascii.newline ∉ body)
  | plain (key : Key) (gap : Gap) (value : RawValue)
  | quoted (key : Key) (gap : Gap) (body : ClosedBody)
  | copy (target : Key) (gap : Gap) (source : CopySource)

/-- The beginning of a statement, without the `;` that would end it. -/
inductive Fragment where
  | keyPart (acc : Bytes) (nonempty : acc ≠ []) (allowed : KeyBytes acc)
  | separator (key : Key) (gap : Gap)
  | plain (key : Key) (gap : Gap) (value : RawValue)
  | quoted (key : Key) (gap : Gap) (body : QuotedBody)
  | closed (key : Key) (gap : Gap) (body : ClosedBody)
  | copy (target : Key) (gap : Gap) (source : Bytes) (inside : Inside source)

def Fragment.bytes : Fragment → Bytes
  | .keyPart acc _ _ => acc
  | .separator key gap => key.bytes ++ gap.bytes
  | .plain key gap value => key.bytes ++ gap.bytes ++ value.first :: value.rest
  | .quoted key gap body => key.bytes ++ gap.bytes ++ Ascii.quote :: body.bytes
  | .closed key gap body =>
      key.bytes ++ gap.bytes ++ Ascii.quote :: (body.bytes ++ Ascii.quote :: body.tail)
  | .copy target gap source _ => target.bytes ++ gap.bytes ++ Ascii.atSign :: source

/-- The mode in which the beginning of a statement leaves the reader. -/
def Fragment.mode : Fragment → Mode
  | .keyPart acc _ _ => .inKey acc
  | .separator key _ => .afterKey key.bytes
  | .plain key _ value => .inValue key.bytes (value.first :: value.rest)
  | .quoted key _ body => .inQuoted key.bytes body.bytes
  | .closed _ _ _ => .afterQuote
  | .copy target _ source _ => .inCopy target.bytes source

def Item.bytes : Item → Bytes
  | .blank c _ => [c]
  | .newline => [Ascii.newline]
  | .comment body _ => Ascii.hash :: (body ++ [Ascii.newline])
  | .plain key gap value => (Fragment.plain key gap value).bytes ++ [Ascii.semicolon]
  | .quoted key gap body => (Fragment.closed key gap body).bytes ++ [Ascii.semicolon]
  | .copy target gap source =>
      (Fragment.copy target gap source.bytes source.inside).bytes ++ [Ascii.semicolon]

/-- The statement an item stands for. -/
def Item.stmts : Item → List Stmt
  | .plain key _ value => [.assign key.bytes (value.first :: value.rest)]
  | .quoted key _ body => [.assign key.bytes body.bytes]
  | .copy target _ source => [.copy target.bytes source.bytes]
  | _ => []

def render (items : List Item) : Bytes :=
  items.flatMap Item.bytes

/-- The text consists of complete items, and perhaps a comment at the end. -/
def WellFormed (text : Bytes) : Prop :=
  ∃ items, text = render items ∨
    ∃ body, Ascii.newline ∉ body ∧ text = render items ++ Ascii.hash :: body

/-- The text ends in the middle of a statement. -/
def CutOff (text : Bytes) : Prop :=
  ∃ (items : List Item) (fragment : Fragment), text = render items ++ fragment.bytes

/-- The text is neither well formed nor the beginning of a well-formed text. -/
def SyntaxError (text : Bytes) : Prop :=
  ¬WellFormed text ∧ ¬CutOff text

/-- A text leads from one mode to another and completes some statements. -/
def Passes (before : Mode) (text : Bytes) (after : Mode) (out : List Stmt) : Prop :=
  ∀ line, ((Scan.mk before line).feed text).mode = after ∧ (Scan.mk before line).emits text = out

namespace Passes

variable {before middle after : Mode} {text left right : Bytes} {out out' : List Stmt} {c : UInt8}

theorem nil : Passes before [] before [] :=
  fun _ => ⟨rfl, rfl⟩

theorem append (first : Passes before left middle out) (second : Passes middle right after out') :
    Passes before (left ++ right) after (out ++ out') := by
  intro line
  rw [Scan.feed_append, Scan.emits_append, (first line).2]
  have there : (Scan.mk before line).feed left =
      Scan.mk middle ((Scan.mk before line).feed left).line := by
    rw [← (first line).1]
  rw [there]
  exact ⟨(second _).1, congrArg _ (second _).2⟩

theorem one (next : before.next c = after) (emit : before.emit c = out) :
    Passes before [c] after out := by
  intro line
  simp [next, emit]

theorem cons (middle : Mode) (next : before.next c = middle) (silent : before.emit c = [])
    (rest : Passes middle text after out) : Passes before (c :: text) after out := by
  simpa using (one next silent).append rest

theorem collect (mode : Bytes → Mode) (acc : Bytes)
    (next : ∀ front c back, text = front ++ c :: back →
      (mode (acc ++ front)).next c = mode (acc ++ front ++ [c]) ∧
      (mode (acc ++ front)).emit c = []) :
    Passes (mode acc) text (mode (acc ++ text)) [] := by
  induction text using List.reverseRecOn with
  | nil => simpa using nil
  | append_singleton text c ih =>
      have collected := ih fun front d back split => next front d (back ++ [c]) (by simp [split])
      have last := next text c [] rfl
      simpa using collected.append (one last.1 last.2)

theorem stay (next : ∀ c ∈ text, before.next c = before ∧ before.emit c = []) :
    Passes before text before [] :=
  collect (fun _ => before) [] fun front c back split =>
    next c (by simp [split])

end Passes

section Forward

theorem passes_key {acc bytes : Bytes} (allowed : KeyBytes bytes) :
    Passes (.inKey acc) bytes (.inKey (acc ++ bytes)) [] := by
  refine .collect .inKey acc fun front c back split => ⟨?_, rfl⟩
  simp [Mode.next, allowed c (by simp [split])]

theorem passes_keyStart {bytes : Bytes} (nonempty : bytes ≠ []) (allowed : KeyBytes bytes) :
    Passes .space bytes (.inKey bytes) [] := by
  rcases List.exists_cons_of_ne_nil nonempty with ⟨c, rest, rfl⟩
  refine .cons (.inKey [c]) ?_ rfl (passes_key fun d mem => allowed d ?_)
  · simp [Mode.next, allowed c]
  · exact List.mem_cons_of_mem _ mem

theorem achar_blank {c : UInt8} (blank : c = Ascii.space ∨ c = Ascii.tab) : achar c = false := by
  rcases blank with rfl | rfl <;> rfl

theorem passes_separator (key : Key) (gap : Gap) :
    Passes .space (key.bytes ++ gap.bytes) (.afterKey key.bytes) [] := by
  rcases List.exists_cons_of_ne_nil gap.nonempty with ⟨c, rest, split⟩
  have blank : Blanks (c :: rest) := split ▸ gap.blank
  have first := blank c List.mem_cons_self
  have gapPasses : Passes (.inKey key.bytes) (c :: rest) (.afterKey key.bytes) [] := by
    refine .cons (.afterKey key.bytes) ?_ rfl (.stay fun d mem => ⟨?_, rfl⟩)
    · simp [Mode.next, achar_blank first, first, not_lt.mpr key.short]
    · simp [Mode.next, blank d (List.mem_cons_of_mem _ mem)]
  rw [split]
  exact (passes_keyStart key.nonempty key.allowed).append gapPasses

theorem passes_inside {mode : Bytes → Mode} {acc bytes : Bytes} (inside : Inside bytes)
    (next : ∀ acc c, c ≠ Ascii.semicolon → c ≠ Ascii.newline →
      (mode acc).next c = mode (acc ++ [c]) ∧ (mode acc).emit c = []) :
    Passes (mode acc) bytes (mode (acc ++ bytes)) [] := by
  refine .collect mode acc fun front c back split => ?_
  have := inside c (by simp [split])
  exact next _ c this.1 this.2

theorem passes_quoted (key : Bytes) (body : QuotedBody) :
    Passes (.afterKey key) (Ascii.quote :: body.bytes) (.inQuoted key body.bytes) [] := by
  refine .cons (.inQuoted key []) rfl rfl ?_
  refine .collect (.inQuoted key) [] fun front c back split => ?_
  have stays : ¬(c = Ascii.quote ∧ (([] : Bytes) ++ front).getLast? ≠ some Ascii.backslash) := by
    rintro ⟨rfl, closes⟩
    exact closes (body.escaped front back split)
  have newline : c ≠ Ascii.newline := by
    rintro rfl
    exact body.oneLine (by simp [split])
  exact ⟨by rw [Mode.next, if_neg stays, if_neg newline], by rw [Mode.emit, if_neg stays]⟩

theorem passes_closed (key : Bytes) (body : ClosedBody) :
    Passes (.afterKey key) (Ascii.quote :: (body.bytes ++ Ascii.quote :: body.tail)) .afterQuote
      [.assign key body.bytes] := by
  have closing : Passes (.inQuoted key body.bytes) [Ascii.quote] .afterQuote
      [.assign key body.bytes] :=
    .one (by simp [Mode.next, body.closed]) (by simp [Mode.emit, body.closed])
  have skipped : Passes .afterQuote body.tail .afterQuote [] :=
    .stay fun c mem => ⟨by simp [Mode.next, body.inside c mem], rfl⟩
  simpa using (passes_quoted key body.toQuotedBody).append (closing.append skipped)

theorem passes_plain (key : Bytes) (value : RawValue) :
    Passes (.afterKey key) (value.first :: value.rest) (.inValue key (value.first :: value.rest))
      [] := by
  refine .cons (.inValue key [value.first]) ?_ rfl ?_
  · simp [Mode.next, value.opens]
  · exact passes_inside value.inside fun acc c semicolon newline =>
      ⟨by simp [Mode.next, semicolon, newline], by simp [Mode.emit, semicolon]⟩

theorem passes_copy (key : Bytes) {source : Bytes} (inside : Inside source) :
    Passes (.afterKey key) (Ascii.atSign :: source) (.inCopy key source) [] := by
  refine .cons (.inCopy key []) rfl rfl ?_
  exact passes_inside inside fun acc c semicolon newline =>
    ⟨by simp [Mode.next, semicolon, newline], by simp [Mode.emit, semicolon]⟩

theorem Fragment.passes (fragment : Fragment) :
    ∃ out, Passes .space fragment.bytes fragment.mode out := by
  cases fragment with
  | keyPart acc nonempty allowed => exact ⟨_, passes_keyStart nonempty allowed⟩
  | separator key gap => exact ⟨_, passes_separator key gap⟩
  | plain key gap value => exact ⟨_, (passes_separator key gap).append (passes_plain _ value)⟩
  | quoted key gap body => exact ⟨_, (passes_separator key gap).append (passes_quoted _ body)⟩
  | closed key gap body => exact ⟨_, (passes_separator key gap).append (passes_closed _ body)⟩
  | copy target gap source inside =>
      exact ⟨_, (passes_separator target gap).append (passes_copy _ inside)⟩

theorem passes_comment {body : Bytes} (oneLine : Ascii.newline ∉ body) :
    Passes .space (Ascii.hash :: body) .comment [] := by
  refine .cons .comment rfl rfl (.stay fun c mem => ⟨?_, rfl⟩)
  have newline : c ≠ Ascii.newline := by
    rintro rfl
    exact oneLine mem
  simp [Mode.next, newline]

theorem Item.passes (item : Item) : Passes .space item.bytes .space item.stmts := by
  cases item with
  | blank c isBlank =>
      have notKey : achar c = false := by
        rcases isBlank with rfl | rfl | rfl <;> rfl
      exact .one (by simp [Mode.next, notKey, isBlank]) rfl
  | newline => exact .one rfl rfl
  | comment body oneLine =>
      have ended : Passes .comment [Ascii.newline] .space [] := .one rfl rfl
      exact (passes_comment oneLine).append ended
  | plain key gap value =>
      have ended : Passes (.inValue key.bytes (value.first :: value.rest)) [Ascii.semicolon] .space
          [.assign key.bytes (value.first :: value.rest)] := .one rfl rfl
      exact ((passes_separator key gap).append (passes_plain _ value)).append ended
  | quoted key gap body =>
      have ended : Passes .afterQuote [Ascii.semicolon] .space [] := .one rfl rfl
      exact ((passes_separator key gap).append (passes_closed _ body)).append ended
  | copy target gap source =>
      have ended : Passes (.inCopy target.bytes source.bytes) [Ascii.semicolon] .space
          [.copy target.bytes source.bytes] :=
        .one (by simp [Mode.next, not_lt.mpr source.short]) (by simp [Mode.emit, source.short])
      exact ((passes_separator target gap).append (passes_copy _ source.inside)).append ended

/-- A sequence of items completes its statements in order. -/
theorem passes_render (items : List Item) :
    Passes .space (render items) .space (items.flatMap Item.stmts) := by
  induction items with
  | nil => exact .nil
  | cons item items ih =>
      rw [render, List.flatMap_cons, List.flatMap_cons]
      exact item.passes.append ih

end Forward

section Backward

/-- What a mode tells about the text that led to it. -/
def Explains (text : Bytes) : Mode → Prop
  | .space => ∃ items, text = render items
  | .comment => ∃ items body, Ascii.newline ∉ body ∧ text = render items ++ Ascii.hash :: body
  | .failed _ => True
  | mode => ∃ (items : List Item) (fragment : Fragment), text = render items ++ fragment.bytes ∧
      fragment.mode = mode

theorem explains_item {text : Bytes} (items : List Item) (item : Item)
    (split : text = render items ++ item.bytes) : Explains text .space :=
  ⟨items ++ [item], by simp [split, render]⟩

theorem explains_fragment {text : Bytes} (items : List Item) (fragment : Fragment)
    (split : text = render items ++ fragment.bytes) : Explains text fragment.mode := by
  cases fragment <;> exact ⟨items, _, split, rfl⟩

theorem explains_next_space {text : Bytes} (c : UInt8) (explained : Explains text .space) :
    Explains (text ++ [c]) (Mode.space.next c) := by
  rcases explained with ⟨items, rfl⟩
  simp only [Mode.next]
  split_ifs with allowed blank newline hash
  · exact explains_fragment items (.keyPart [c] (by simp) (List.forall_mem_singleton.mpr allowed))
      rfl
  · exact explains_item items (.blank c blank) rfl
  · subst newline
    exact explains_item items .newline rfl
  · subst hash
    exact ⟨items, [], by simp, rfl⟩
  · trivial

theorem explains_next_comment {text : Bytes} (c : UInt8) (explained : Explains text .comment) :
    Explains (text ++ [c]) (Mode.comment.next c) := by
  rcases explained with ⟨items, body, oneLine, rfl⟩
  simp only [Mode.next]
  split_ifs with newline
  · subst newline
    exact explains_item items (.comment body oneLine) (by simp [Item.bytes])
  · refine ⟨items, body ++ [c], ?_, by simp⟩
    simpa [eq_comm] using ⟨oneLine, newline⟩

theorem inside_nil : Inside [] :=
  fun _ mem => absurd mem List.not_mem_nil

theorem Inside.concat {bytes : Bytes} {c : UInt8} (inside : Inside bytes)
    (semicolon : c ≠ Ascii.semicolon) (newline : c ≠ Ascii.newline) : Inside (bytes ++ [c]) :=
  List.forall_mem_append.mpr ⟨inside, List.forall_mem_singleton.mpr ⟨semicolon, newline⟩⟩

theorem KeyBytes.concat {bytes : Bytes} {c : UInt8} (allowed : KeyBytes bytes)
    (more : achar c) : KeyBytes (bytes ++ [c]) :=
  List.forall_mem_append.mpr ⟨allowed, List.forall_mem_singleton.mpr more⟩

theorem Blanks.concat {bytes : Bytes} {c : UInt8} (blanks : Blanks bytes)
    (more : c = Ascii.space ∨ c = Ascii.tab) : Blanks (bytes ++ [c]) :=
  List.forall_mem_append.mpr ⟨blanks, List.forall_mem_singleton.mpr more⟩

def QuotedBody.concat (body : QuotedBody) (c : UInt8) (newline : c ≠ Ascii.newline)
    (stays : ¬(c = Ascii.quote ∧ body.bytes.getLast? ≠ some Ascii.backslash)) : QuotedBody where
  bytes := body.bytes ++ [c]
  oneLine := by
    simpa [eq_comm] using ⟨body.oneLine, newline⟩
  escaped := by
    intro before after split
    rcases List.eq_nil_or_concat after with rfl | ⟨after, last, rfl⟩
    · rcases List.append_inj' split rfl with ⟨rfl, same⟩
      rcases List.singleton_inj.mp same with rfl
      by_contra closes
      exact stays ⟨rfl, closes⟩
    · have same : body.bytes ++ [c] = (before ++ Ascii.quote :: after) ++ [last] := by
        simp [split]
      exact body.escaped before after (List.append_inj' same rfl).1

def QuotedBody.empty : QuotedBody where
  bytes := []
  oneLine := by simp
  escaped := by simp

theorem explains_next_statement {text : Bytes} (c : UInt8) {items : List Item}
    (fragment : Fragment) (split : text = render items ++ fragment.bytes) :
    Explains (text ++ [c]) (fragment.mode.next c) := by
  subst split
  cases fragment with
  | keyPart acc nonempty allowed =>
      simp only [Fragment.mode, Mode.next]
      split_ifs with allowedToo blank long
      · exact explains_fragment items (.keyPart (acc ++ [c]) (by simp) (allowed.concat allowedToo))
          (by simp [Fragment.bytes])
      · trivial
      · exact explains_fragment items (.separator ⟨acc, nonempty, allowed, not_lt.mp long⟩
          ⟨[c], by simp, List.forall_mem_singleton.mpr blank⟩) (by simp [Fragment.bytes])
      · trivial
  | separator key gap =>
      simp only [Fragment.mode, Mode.next]
      split_ifs with blank quote atSign ended
      · exact explains_fragment items
          (.separator key ⟨gap.bytes ++ [c], by simp, gap.blank.concat blank⟩)
          (by simp [Fragment.bytes])
      · subst quote
        exact explains_fragment items (.quoted key gap .empty)
          (by simp [Fragment.bytes, QuotedBody.empty])
      · subst atSign
        exact explains_fragment items (.copy key gap [] inside_nil) (by simp [Fragment.bytes])
      · trivial
      · have opens := And.intro blank (And.intro quote (And.intro atSign ended))
        simp only [not_or] at opens
        exact explains_fragment items (.plain key gap ⟨c, [], by tauto, inside_nil⟩)
          (by simp [Fragment.bytes])
  | plain key gap value =>
      simp only [Fragment.mode, Mode.next]
      split_ifs with semicolon newline
      · subst semicolon
        exact explains_item items (.plain key gap value) (by simp [Item.bytes])
      · trivial
      · exact explains_fragment items (.plain key gap ⟨value.first, value.rest ++ [c], value.opens,
          value.inside.concat semicolon newline⟩) (by simp [Fragment.bytes])
  | quoted key gap body =>
      simp only [Fragment.mode, Mode.next]
      split_ifs with closes newline
      · rcases closes with ⟨rfl, closes⟩
        exact explains_fragment items (.closed key gap ⟨body, closes, [], inside_nil⟩)
          (by simp [Fragment.bytes])
      · trivial
      · exact explains_fragment items (.quoted key gap (body.concat c newline closes))
          (by simp [Fragment.bytes, QuotedBody.concat])
  | closed key gap body =>
      simp only [Fragment.mode, Mode.next]
      split_ifs with semicolon newline
      · subst semicolon
        exact explains_item items (.quoted key gap body) (by simp [Item.bytes])
      · trivial
      · exact explains_fragment items (.closed key gap
          ⟨body.toQuotedBody, body.closed, body.tail ++ [c],
            body.inside.concat semicolon newline⟩) (by simp [Fragment.bytes])
  | copy target gap source inside =>
      simp only [Fragment.mode, Mode.next]
      split_ifs with semicolon long newline
      · trivial
      · subst semicolon
        exact explains_item items (.copy target gap ⟨source, inside, not_lt.mp long⟩)
          (by simp [Item.bytes])
      · trivial
      · exact explains_fragment items
          (.copy target gap (source ++ [c]) (inside.concat semicolon newline))
          (by simp [Fragment.bytes])

theorem explains_next {text : Bytes} {mode : Mode} (c : UInt8) (explained : Explains text mode) :
    Explains (text ++ [c]) (mode.next c) := by
  cases mode with
  | space => exact explains_next_space c explained
  | comment => exact explains_next_comment c explained
  | failed fault => trivial
  | _ =>
      rcases explained with ⟨items, fragment, split, same⟩
      exact same ▸ explains_next_statement c fragment split

/-- The mode of the reader explains every text. -/
theorem explains_scan (text : Bytes) : Explains text (scan text).mode := by
  induction text using List.reverseRecOn with
  | nil => exact ⟨[], rfl⟩
  | append_singleton text c ih =>
      have read : scan (text ++ [c]) = (scan text).next c := Scan.feed_append _ _ _
      rw [read]
      exact explains_next c ih

end Backward

theorem wellFormed_iff {text : Bytes} :
    WellFormed text ↔ (scan text).mode = .space ∨ (scan text).mode = .comment := by
  constructor
  · rintro ⟨items, rfl | ⟨body, oneLine, rfl⟩⟩
    · exact .inl (passes_render items 1).1
    · exact .inr ((passes_render items).append (passes_comment oneLine) 1).1
  · intro ends
    have explained := explains_scan text
    rcases ends with mode | mode
    · rw [mode] at explained
      rcases explained with ⟨items, same⟩
      exact ⟨items, .inl same⟩
    · rw [mode] at explained
      rcases explained with ⟨items, body, oneLine, same⟩
      exact ⟨items, .inr ⟨body, oneLine, same⟩⟩

theorem Fragment.mode_inStatement (fragment : Fragment) : fragment.mode.inStatement := by
  cases fragment <;> rfl

theorem cutOff_iff {text : Bytes} : CutOff text ↔ (scan text).mode.inStatement := by
  constructor
  · rintro ⟨items, fragment, rfl⟩
    rcases fragment.passes with ⟨out, passes⟩
    have mode : (scan (render items ++ fragment.bytes)).mode = fragment.mode :=
      ((passes_render items).append passes 1).1
    rw [mode]
    exact fragment.mode_inStatement
  · intro inside
    have explained := explains_scan text
    cases mode : (scan text).mode with
    | space => simp [mode, Mode.inStatement] at inside
    | comment => simp [mode, Mode.inStatement] at inside
    | failed fault => simp [mode, Mode.inStatement] at inside
    | _ =>
        rw [mode] at explained
        rcases explained with ⟨items, fragment, split, _⟩
        exact ⟨items, fragment, split⟩

/-- The reader rejects a text exactly when it is neither well formed nor cut off. -/
theorem syntaxError_iff {text : Bytes} : SyntaxError text ↔ (scan text).mode.isFailed := by
  rw [SyntaxError, wellFormed_iff, cutOff_iff]
  cases (scan text).mode <;> simp [Mode.inStatement, Mode.isFailed]

end Libhelp

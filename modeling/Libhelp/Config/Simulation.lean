import Libhelp.Config.Scan
import Libhelp.Lib.PrefixCopy

/-!
# The byte machine follows the reader

The offsets of a loader into its buffer are tied to the pending key and value of
the abstract reader.  `Sim` is that tie between two bytes of the text and `InLoop`
the tie inside the copy loop.  `step_cases` says once what a step of a loader can
do: it follows the reader silently, fails as the reader does, stores the value of
a completed statement, or enters the copy loop.
-/

namespace Libhelp

open StepProgram CString

/-- A key stands in a part of the buffer, ended by a NUL. -/
def KeyAt (pkey : ℕ) (key front : Bytes) : Prop :=
  NulFree key ∧ ∃ pre mid, front = pre ++ (key ++ nul :: mid) ∧ pkey = pre.length

/-- A pending value stands at the end of a part of the buffer, after its key. -/
def ValueAt (m : Loader) (key acc front : Bytes) : Prop :=
  NulFree acc ∧ ∃ pre, front = pre ++ acc ∧ m.pvalue = pre.length ∧ KeyAt m.pkey key pre

/-- What the reader remembers is where the loader points. -/
def Placed (m : Loader) (front rest : Bytes) : Mode → Prop
  | .space => m.state = .space
  | .comment => m.state = .comment
  | .inKey acc => m.state = .paramKey ∧ NulFree acc ∧ acc ≠ [] ∧
      ∃ pre, front = pre ++ acc ∧ m.pkey = pre.length
  | .afterKey key => m.state = .paramKeySp ∧ KeyAt m.pkey key front
  | .inValue key acc => m.state = .paramValue ∧ ValueAt m key acc front
  | .inQuoted key acc => m.state = .paramQtValue ∧ ValueAt m key acc front ∧
      (acc.getLast? = some Ascii.backslash → rest.head? ≠ some Ascii.quote)
  | .afterQuote => m.state = .paramValueSkip
  | .inCopy key acc => m.state = .paramCopyValue ∧ ValueAt m key acc front
  | .failed _ => False

/-- A loader that has read `front` and has `rest` before it is where a reader is. -/
structure Sim (m : Loader) (s : Scan) (front rest : Bytes) : Prop where
  idle : m.copying = none
  src : m.src = front ++ (rest ++ [nul])
  p : m.p = front.length
  stop : m.stop = front.length + rest.length
  line : m.line = s.line
  free : NulFree rest
  placed : Placed m front rest s.mode

/-- A loader is inside the copy loop of a statement, on its `;`. -/
structure InLoop (m : Loader) (target source : Bytes) (s : Scan) (front rest : Bytes) : Prop where
  src : m.src = front ++ nul :: (rest ++ [nul])
  p : m.p = front.length
  stop : m.stop = front.length + 1 + rest.length
  line : m.line = s.line
  free : NulFree rest
  value : ValueAt m target source front
  mode : s.mode = .space

theorem KeyAt.append {pkey : ℕ} {key front : Bytes} (at' : KeyAt pkey key front)
    (more : Bytes) : KeyAt pkey key (front ++ more) := by
  rcases at' with ⟨free, pre, mid, rfl, start⟩
  exact ⟨free, pre, mid ++ more, by simp, start⟩

theorem KeyAt.cstr_eq {pkey : ℕ} {key front : Bytes} (at' : KeyAt pkey key front)
    (more : Bytes) : cstr ((front ++ more).drop pkey) = key := by
  rcases at' with ⟨free, pre, mid, rfl, start⟩
  rw [List.append_assoc, List.append_assoc, List.cons_append]
  exact cstr_drop_append start free

theorem ValueAt.key_eq {m : Loader} {key acc front more : Bytes} (at' : ValueAt m key acc front)
    (src : m.src = front ++ more) : m.key = key := by
  rcases at' with ⟨_, pre, rfl, _, keyAt⟩
  rw [Loader.key, src, List.append_assoc]
  exact keyAt.cstr_eq _

theorem ValueAt.length_eq {m : Loader} {key acc front : Bytes} (at' : ValueAt m key acc front)
    (p : m.p = front.length) : m.p - m.pvalue = acc.length := by
  rcases at' with ⟨_, pre, rfl, start, _⟩
  rw [p, start, List.length_append]
  omega

/-- With a NUL at the cursor the pending value is the string from its start. -/
theorem ValueAt.value_eq {m : Loader} {key acc front more : Bytes}
    (at' : ValueAt m key acc front) (src : m.src = front ++ nul :: more)
    (p : m.p = front.length) : m.value = acc := by
  have length := at'.length_eq p
  rcases at' with ⟨free, pre, rfl, start, _⟩
  rw [Loader.value, length, src, start, List.append_assoc, List.drop_left, List.take_append,
    List.take_of_length_le (by omega)]
  have ended : cstr (acc ++ [nul]) = acc := cstr_append_nul free
  simpa using ended

theorem ValueAt.cstr_eq {m : Loader} {key acc front more : Bytes}
    (at' : ValueAt m key acc front) (src : m.src = front ++ nul :: more) :
    cstr (m.src.drop m.pvalue) = acc := by
  rcases at' with ⟨free, pre, rfl, start, _⟩
  rw [src, List.append_assoc]
  exact cstr_drop_append start free

theorem ValueAt.snoc {m m' : Loader} {key acc front : Bytes} {c : UInt8}
    (at' : ValueAt m key acc front) (c_ne : c ≠ nul) (pkey : m'.pkey = m.pkey)
    (pvalue : m'.pvalue = m.pvalue) : ValueAt m' key (acc ++ [c]) (front ++ [c]) := by
  rcases at' with ⟨free, pre, rfl, start, keyAt⟩
  refine ⟨by simp [free, c_ne], pre, by simp, by rw [pvalue, start], by rw [pkey]; exact keyAt⟩

/-- What one step of a loader that follows a reader can do. -/
inductive StepCases (alloc : ℕ → Bool) (m : Loader) (s : Scan) (text : Bytes) : Prop where
  /-- The loader follows the reader over a part of the text that completes no statement. -/
  | quiet (m' : Loader) (eaten front' rest' : Bytes) (split : text = eaten ++ rest')
      (progress : eaten ≠ []) (silent : s.emits eaten = [])
      (stepped : Loader.step alloc m = .next m') (config : m'.config = m.config)
      (sim : Sim m' (s.feed eaten) front' rest')
  /-- The loader leaves with the fault that the reader finds. -/
  | fault (c : UInt8) (rest : Bytes) (fault : Fault) (split : text = c :: rest)
      (silent : s.mode.emit c = []) (failed : s.mode.next c = .failed fault)
      (stepped : Loader.step alloc m =
        .ret ⟨ERROR, { m.config with lineError := s.line }, some (fault.message s.line)⟩)
  /-- The loader stores the value of a statement that the reader completes. -/
  | assign (c : UInt8) (front' rest key value : Bytes) (cut : Loader) (after : Loader → Loader)
      (split : text = c :: rest) (emitted : s.mode.emit c = [.assign key value])
      (stepped : Loader.step alloc m = cut.insertWord alloc key (some value) after)
      (config : cut.config = m.config) (kept : ∀ m', (after m').config = m'.config)
      (sim : ∀ config requests,
        Sim (after { cut with config := config, requests := requests }) (s.next c) front' rest)
  /-- The loader enters the copy loop of a statement that the reader completes. -/
  | copy (c : UInt8) (front' rest target source : Bytes) (m' : Loader)
      (split : text = c :: rest) (emitted : s.mode.emit c = [.copy target source])
      (stepped : Loader.step alloc m = .next m') (config : m'.config = m.config)
      (started : m'.copying = some (Loader.found source (m.config.data.firstFrom source)))
      (inside : InLoop m' target source (s.next c) front' rest)

section Step

variable {alloc : ℕ → Bool} {m : Loader} {s : Scan} {front rest : Bytes} {c : UInt8}

theorem Scan.line_next_of_ne (other : c ≠ Ascii.newline) : (s.next c).line = s.line := by
  simp [Scan.next, other]

theorem Scan.line_next_newline (accepted : (s.mode.next Ascii.newline).isFailed = false) :
    (s.next Ascii.newline).line = s.line + 1 := by
  simp [Scan.next, accepted]

theorem Sim.byteAt_eq (sim : Sim m s front (c :: rest)) : byteAt m.src m.p = c := by
  rw [sim.src, sim.p]
  exact byteAt_append

theorem Sim.step_eq (sim : Sim m s front (c :: rest)) :
    Loader.step alloc m = m.scanStep alloc := by
  have inText : m.p < m.stop := by
    rw [sim.p, sim.stop, List.length_cons]
    omega
  simp [Loader.step, sim.idle, inText]

theorem Sim.step_end (sim : Sim m s front []) :
    Loader.step alloc m = .ret ⟨OK, m.config, none⟩ := by
  have atEnd : ¬m.p < m.stop := by
    rw [sim.p, sim.stop]
    simp
  simp [Loader.step, sim.idle, atEnd]

/-- The tie after one more byte, which may have been overwritten. -/
theorem Sim.advance (sim : Sim m s front (c :: rest)) {m' : Loader} {b : UInt8}
    (idle : m'.copying = none) (src : m'.src = front ++ b :: (rest ++ [nul]))
    (p : m'.p = m.p + 1) (stop : m'.stop = m.stop) (line : m'.line = (s.next c).line)
    (placed : Placed m' (front ++ [b]) rest (s.mode.next c)) :
    Sim m' (s.next c) (front ++ [b]) rest where
  idle := idle
  src := by simpa using src
  p := by simp [p, sim.p]
  stop := by
    rw [stop, sim.stop]
    simp only [List.length_cons, List.length_append, List.length_nil]
    omega
  line := line
  free := (nulFree_cons.mp sim.free).2
  placed := placed

theorem Sim.src_cut (sim : Sim m s front (c :: rest)) :
    m.cut.src = front ++ nul :: (rest ++ [nul]) := by
  rw [Loader.cut, sim.src, sim.p]
  exact set_append

theorem StepCases.one (sim : Sim m s front (c :: rest)) {m' : Loader} {b : UInt8}
    (stepped : Loader.step alloc m = .next m') (silent : s.mode.emit c = [])
    (src : m'.src = front ++ b :: (rest ++ [nul])) (p : m'.p = m.p + 1)
    (line : m'.line = (s.next c).line)
    (same : m'.config = m.config ∧ m'.copying = m.copying ∧ m'.stop = m.stop)
    (placed : Placed m' (front ++ [b]) rest (s.mode.next c)) :
    StepCases alloc m s (c :: rest) :=
  .quiet m' [c] (front ++ [b]) rest rfl (by simp) (by simpa using silent) stepped same.1
    (sim.advance (same.2.1.trans sim.idle) src p same.2.2 line placed)

theorem StepCases.one_of_ne (sim : Sim m s front (c :: rest)) {m' : Loader}
    (stepped : Loader.step alloc m = .next m') (silent : s.mode.emit c = [])
    (other : c ≠ Ascii.newline) (p : m'.p = m.p + 1)
    (same : m'.config = m.config ∧ m'.copying = m.copying ∧ m'.stop = m.stop ∧
      m'.src = m.src ∧ m'.line = m.line)
    (placed : Placed m' (front ++ [c]) rest (s.mode.next c)) :
    StepCases alloc m s (c :: rest) := by
  refine .one sim stepped silent (by rw [same.2.2.2.1, sim.src]; rfl) p ?_
    ⟨same.1, same.2.1, same.2.2.1⟩ placed
  rw [same.2.2.2.2, Scan.line_next_of_ne other, sim.line]

theorem StepCases.faulted (sim : Sim m s front (c :: rest)) (fault : Fault)
    (silent : s.mode.emit c = []) (failed : s.mode.next c = .failed fault)
    (stepped : Loader.step alloc m = m.fail fault.message) :
    StepCases alloc m s (c :: rest) := by
  rw [Loader.fail, sim.line] at stepped
  exact .fault c rest fault rfl silent failed stepped

theorem Sim.cut_key (sim : Sim m s front (c :: rest)) {key acc : Bytes}
    (valueAt : ValueAt m key acc front) : m.cut.key = key :=
  (show ValueAt m.cut key acc front from valueAt).key_eq sim.src_cut

theorem Sim.cut_value (sim : Sim m s front (c :: rest)) {key acc : Bytes}
    (valueAt : ValueAt m key acc front) : m.cut.value = acc :=
  (show ValueAt m.cut key acc front from valueAt).value_eq sim.src_cut sim.p

theorem Sim.cut_source (sim : Sim m s front (c :: rest)) {key acc : Bytes}
    (valueAt : ValueAt m key acc front) : cstr (m.cut.src.drop m.pvalue) = acc :=
  (show ValueAt m.cut key acc front from valueAt).cstr_eq sim.src_cut

theorem achar_ne {d : UInt8} (allowed : achar c) (special : achar d = false) : c ≠ d := by
  rintro rfl
  simp [special] at allowed

theorem step_space (sim : Sim m s front (c :: rest)) (mode : s.mode = .space) :
    StepCases alloc m s (c :: rest) := by
  have state : m.state = .space := by simpa [Placed, mode] using sim.placed
  have stepped : Loader.step alloc m = _ := sim.step_eq
  simp only [Loader.scanStep, state, sim.byteAt_eq] at stepped
  have silent : s.mode.emit c = [] := by rw [mode]; rfl
  by_cases allowed : achar c
  · rw [if_pos allowed] at stepped
    have nextMode : s.mode.next c = .inKey [c] := by simp [mode, Mode.next, allowed]
    refine .one_of_ne sim stepped silent (achar_ne allowed (by decide)) rfl
      ⟨rfl, rfl, rfl, rfl, rfl⟩ ?_
    simp [nextMode, Placed, (nulFree_cons.mp sim.free).1, sim.p]
  · rw [if_neg allowed] at stepped
    by_cases blank : c = Ascii.space ∨ c = Ascii.tab ∨ c = Ascii.carriageReturn
    · rw [if_pos blank] at stepped
      have nextMode : s.mode.next c = .space := by simp [mode, Mode.next, allowed, blank]
      have other : c ≠ Ascii.newline := by
        rcases blank with rfl | rfl | rfl <;> decide
      refine .one_of_ne sim stepped silent other rfl ⟨rfl, rfl, rfl, rfl, rfl⟩ ?_
      simp [nextMode, Placed]
    · rw [if_neg blank] at stepped
      by_cases newline : c = Ascii.newline
      · subst newline
        rw [if_pos rfl] at stepped
        have nextMode : s.mode.next Ascii.newline = .space := by rw [mode]; rfl
        refine .one sim stepped silent sim.src rfl ?_ ⟨rfl, rfl, rfl⟩ ?_
        · rw [Scan.line_next_newline (by rw [nextMode]; rfl), sim.line]
        · simp [nextMode, Placed]
      · rw [if_neg newline] at stepped
        by_cases hash : c = Ascii.hash
        · subst hash
          rw [if_pos rfl] at stepped
          have nextMode : s.mode.next Ascii.hash = .comment := by rw [mode]; rfl
          refine .one_of_ne sim stepped silent newline rfl ⟨rfl, rfl, rfl, rfl, rfl⟩ ?_
          simp [nextMode, Placed]
        · rw [if_neg hash] at stepped
          refine .faulted sim (.unexpectedSymbol c) silent ?_ stepped
          simp [mode, Mode.next, allowed, blank, newline, hash]

theorem step_comment (sim : Sim m s front (c :: rest)) (mode : s.mode = .comment) :
    StepCases alloc m s (c :: rest) := by
  have state : m.state = .comment := by simpa [Placed, mode] using sim.placed
  have stepped : Loader.step alloc m = _ := sim.step_eq
  simp only [Loader.scanStep, state, sim.byteAt_eq] at stepped
  have silent : s.mode.emit c = [] := by rw [mode]; rfl
  by_cases newline : c = Ascii.newline
  · subst newline
    rw [if_pos rfl] at stepped
    have nextMode : s.mode.next Ascii.newline = .space := by rw [mode]; rfl
    refine .one sim stepped silent sim.src rfl ?_ ⟨rfl, rfl, rfl⟩ ?_
    · rw [Scan.line_next_newline (by rw [nextMode]; rfl), sim.line]
    · simp [nextMode, Placed]
  · rw [if_neg newline] at stepped
    have nextMode : s.mode.next c = .comment := by simp [mode, Mode.next, newline]
    refine .one_of_ne sim stepped silent newline rfl ⟨rfl, rfl, rfl, rfl, rfl⟩ ?_
    simp [nextMode, Placed]

theorem step_inKey {acc : Bytes} (sim : Sim m s front (c :: rest)) (mode : s.mode = .inKey acc) :
    StepCases alloc m s (c :: rest) := by
  have placed := sim.placed
  rw [mode] at placed
  rcases placed with ⟨state, accFree, nonempty, pre, rfl, pkey⟩
  have stepped : Loader.step alloc m = _ := sim.step_eq
  simp only [Loader.scanStep, state, sim.byteAt_eq] at stepped
  have silent : s.mode.emit c = [] := by rw [mode]; rfl
  have size : m.p - m.pkey = acc.length := by
    rw [sim.p, pkey, List.length_append]
    omega
  by_cases allowed : achar c
  · rw [if_pos allowed] at stepped
    have nextMode : s.mode.next c = .inKey (acc ++ [c]) := by simp [mode, Mode.next, allowed]
    refine .one_of_ne sim stepped silent (achar_ne allowed (by decide)) rfl
      ⟨rfl, rfl, rfl, rfl, rfl⟩ ?_
    simp [nextMode, Placed, (nulFree_cons.mp sim.free).1, accFree, pkey]
  · rw [if_neg allowed] at stepped
    by_cases blank : c = Ascii.space ∨ c = Ascii.tab
    · have keyAt : KeyAt m.pkey acc (pre ++ acc ++ [nul]) :=
        ⟨accFree, pre, [], by simp, pkey⟩
      have keyEq : m.cut.key = acc := by
        have src : m.cut.src = pre ++ acc ++ [nul] ++ (rest ++ [nul]) := by
          simpa using sim.src_cut
        rw [Loader.key, src]
        exact keyAt.cstr_eq _
      rw [if_pos blank, size, keyEq] at stepped
      by_cases long : acc.length > CONFIG_KEY_MAX_SIZE
      · rw [if_pos long, Loader.fail, Loader.cut_line, sim.line] at stepped
        refine .fault c rest (.keyTooLong acc) rfl silent ?_ stepped
        simp [mode, Mode.next, allowed, blank, long]
      · rw [if_neg long] at stepped
        have nextMode : s.mode.next c = .afterKey acc := by
          simp [mode, Mode.next, allowed, blank, long]
        have other : c ≠ Ascii.newline := by
          rcases blank with rfl | rfl <;> decide
        refine .one sim stepped silent sim.src_cut rfl ?_ ⟨rfl, rfl, rfl⟩ ?_
        · exact sim.line.trans (Scan.line_next_of_ne other).symm
        · rw [nextMode]
          exact ⟨rfl, keyAt⟩
    · rw [if_neg blank] at stepped
      refine .faulted sim (.unexpectedSymbol c) silent ?_ stepped
      simp [mode, Mode.next, allowed, blank]

theorem step_afterKey {key : Bytes} (sim : Sim m s front (c :: rest))
    (mode : s.mode = .afterKey key) : StepCases alloc m s (c :: rest) := by
  have placed := sim.placed
  rw [mode] at placed
  rcases placed with ⟨state, keyAt⟩
  have stepped : Loader.step alloc m = _ := sim.step_eq
  simp only [Loader.scanStep, state, sim.byteAt_eq] at stepped
  have silent : s.mode.emit c = [] := by rw [mode]; rfl
  by_cases blank : c = Ascii.space ∨ c = Ascii.tab
  · rw [if_pos blank] at stepped
    have nextMode : s.mode.next c = .afterKey key := by simp [mode, Mode.next, blank]
    have other : c ≠ Ascii.newline := by
      rcases blank with rfl | rfl <;> decide
    refine .one_of_ne sim stepped silent other rfl ⟨rfl, rfl, rfl, rfl, rfl⟩ ?_
    simpa [nextMode, Placed, state] using keyAt.append [c]
  · rw [if_neg blank] at stepped
    by_cases quote : c = Ascii.quote
    · subst quote
      rw [if_pos rfl] at stepped
      have nextMode : s.mode.next Ascii.quote = .inQuoted key [] := by rw [mode]; rfl
      refine .one_of_ne sim stepped silent (by decide) rfl ⟨rfl, rfl, rfl, rfl, rfl⟩ ?_
      rw [nextMode]
      exact ⟨rfl, ⟨nulFree_nil, front ++ [Ascii.quote], by simp, by simp [sim.p],
        keyAt.append _⟩, by simp⟩
    · rw [if_neg quote] at stepped
      by_cases atSign : c = Ascii.atSign
      · subst atSign
        rw [if_pos rfl] at stepped
        have nextMode : s.mode.next Ascii.atSign = .inCopy key [] := by rw [mode]; rfl
        refine .one_of_ne sim stepped silent (by decide) rfl ⟨rfl, rfl, rfl, rfl, rfl⟩ ?_
        rw [nextMode]
        exact ⟨rfl, nulFree_nil, front ++ [Ascii.atSign], by simp, by simp [sim.p],
          keyAt.append _⟩
      · rw [if_neg atSign] at stepped
        by_cases ending : c = Ascii.carriageReturn ∨ c = Ascii.newline
        · rw [if_pos ending] at stepped
          refine .faulted sim .unexpectedEndOfLine silent ?_ stepped
          simp [mode, Mode.next, blank, quote, atSign, ending]
        · rw [if_neg ending] at stepped
          have nextMode : s.mode.next c = .inValue key [c] := by
            simp [mode, Mode.next, blank, quote, atSign, ending]
          refine .one_of_ne sim stepped silent (fun same => ending (.inr same)) rfl
            ⟨rfl, rfl, rfl, rfl, rfl⟩ ?_
          rw [nextMode]
          exact ⟨rfl, by simp [(nulFree_cons.mp sim.free).1], front, rfl, sim.p, keyAt⟩

theorem step_inValue {key acc : Bytes} (sim : Sim m s front (c :: rest))
    (mode : s.mode = .inValue key acc) : StepCases alloc m s (c :: rest) := by
  have placed := sim.placed
  rw [mode] at placed
  rcases placed with ⟨state, valueAt⟩
  have stepped : Loader.step alloc m = _ := sim.step_eq
  simp only [Loader.scanStep, state, sim.byteAt_eq] at stepped
  by_cases semicolon : c = Ascii.semicolon
  · subst semicolon
    rw [if_pos rfl, sim.cut_key valueAt, sim.cut_value valueAt] at stepped
    have nextMode : s.mode.next Ascii.semicolon = .space := by rw [mode]; rfl
    refine .assign Ascii.semicolon (front ++ [nul]) rest key acc _ _ rfl (by rw [mode]; rfl)
      stepped rfl (fun _ => rfl) ?_
    intro config requests
    refine sim.advance sim.idle sim.src_cut rfl rfl ?_ (by simp [nextMode, Placed])
    exact sim.line.trans (Scan.line_next_of_ne (by decide)).symm
  · rw [if_neg semicolon] at stepped
    have silent : s.mode.emit c = [] := by simp [mode, Mode.emit, semicolon]
    by_cases newline : c = Ascii.newline
    · rw [if_pos newline] at stepped
      exact .faulted sim .unexpectedEndOfLine silent (by rw [mode, newline]; rfl) stepped
    · rw [if_neg newline] at stepped
      have nextMode : s.mode.next c = .inValue key (acc ++ [c]) := by
        simp [mode, Mode.next, semicolon, newline]
      refine .one_of_ne sim stepped silent newline rfl ⟨rfl, rfl, rfl, rfl, rfl⟩ ?_
      rw [nextMode]
      exact ⟨rfl, valueAt.snoc (nulFree_cons.mp sim.free).1 rfl rfl⟩

/-- The byte after the cursor is the next byte of the text, or the NUL after it. -/
theorem Sim.lookahead_eq_quote_iff (sim : Sim m s front (c :: rest)) :
    byteAt m.src (m.p + 1) = Ascii.quote ↔ rest.head? = some Ascii.quote := by
  have src : m.src = (front ++ [c]) ++ (rest ++ [nul]) := by simpa using sim.src
  have offset : m.p + 1 = (front ++ [c]).length := by simp [sim.p]
  cases rest with
  | nil =>
      rw [src, offset, List.nil_append, byteAt_append]
      exact ⟨fun same => absurd same (by decide), fun head => by simp at head⟩
  | cons d rest =>
      rw [src, offset, List.cons_append, byteAt_append]
      simp

/-- One step of the loader skips both bytes of an escaped quote. -/
theorem step_escaped {key acc : Bytes}
    (sim : Sim m s front (Ascii.backslash :: Ascii.quote :: rest))
    (mode : s.mode = .inQuoted key acc) (state : m.state = .paramQtValue)
    (valueAt : ValueAt m key acc front)
    (stepped : Loader.step alloc m = .next { m with p := m.p + 2 }) :
    StepCases alloc m s (Ascii.backslash :: Ascii.quote :: rest) := by
  have first : s.mode.next Ascii.backslash = .inQuoted key (acc ++ [Ascii.backslash]) := by
    rw [mode]
    rfl
  have second : (s.mode.next Ascii.backslash).next Ascii.quote =
      .inQuoted key (acc ++ [Ascii.backslash] ++ [Ascii.quote]) := by
    rw [first]
    exact Mode.next_escaped List.getLast?_concat
  have silent : (s.mode.next Ascii.backslash).emit Ascii.quote = [] := by
    rw [first]
    exact Mode.emit_escaped List.getLast?_concat
  refine .quiet _ [Ascii.backslash, Ascii.quote] (front ++ [Ascii.backslash, Ascii.quote]) rest
    rfl (by simp) ?_ stepped rfl ?_
  · rw [Scan.emits_cons, Scan.emits_cons, Scan.emits_nil, Scan.mode_next, silent, mode]
    rfl
  · refine
      { idle := sim.idle
        src := by simpa using sim.src
        p := by simp [sim.p]
        stop := ?_
        line := ?_
        free := (nulFree_cons.mp (nulFree_cons.mp sim.free).2).2
        placed := ?_ }
    · have := sim.stop
      simp only [List.length_append, List.length_cons, List.length_nil] at this ⊢
      omega
    · rw [Scan.feed_cons, Scan.feed_cons, Scan.feed_nil, Scan.line_next_of_ne (by decide),
        Scan.line_next_of_ne (by decide)]
      exact sim.line
    · rw [Scan.feed_cons, Scan.feed_cons, Scan.feed_nil, Scan.mode_next, Scan.mode_next, second]
      refine ⟨state, ?_, fun last => ?_⟩
      · have once : ValueAt m key (acc ++ [Ascii.backslash]) (front ++ [Ascii.backslash]) :=
          valueAt.snoc (by decide) rfl rfl
        have front' : front ++ [Ascii.backslash, Ascii.quote] =
            front ++ [Ascii.backslash] ++ [Ascii.quote] := by simp
        rw [front']
        exact once.snoc (by decide) rfl rfl
      · rw [List.getLast?_concat] at last
        exact absurd last (by decide)

theorem step_inQuoted {key acc : Bytes} (sim : Sim m s front (c :: rest))
    (mode : s.mode = .inQuoted key acc) : StepCases alloc m s (c :: rest) := by
  have placed := sim.placed
  rw [mode] at placed
  rcases placed with ⟨state, valueAt, unescaped⟩
  have stepped : Loader.step alloc m = _ := sim.step_eq
  simp only [Loader.scanStep, state, sim.byteAt_eq, sim.lookahead_eq_quote_iff] at stepped
  by_cases escape : c = Ascii.backslash ∧ rest.head? = some Ascii.quote
  · rw [if_pos escape] at stepped
    rcases escape with ⟨rfl, head⟩
    rcases List.head?_eq_some_iff.mp head with ⟨rest', rfl⟩
    refine step_escaped sim mode state valueAt (stepped.trans ?_)
    simp [state]
  · rw [if_neg escape] at stepped
    by_cases quote : c = Ascii.quote
    · subst quote
      rw [if_pos rfl, sim.cut_key valueAt, sim.cut_value valueAt] at stepped
      have closes : acc.getLast? ≠ some Ascii.backslash :=
        fun escaped => unescaped escaped rfl
      have nextMode : s.mode.next Ascii.quote = .afterQuote := by simp [mode, Mode.next, closes]
      refine .assign Ascii.quote (front ++ [nul]) rest key acc _ _ rfl
        (by simp [mode, Mode.emit, closes]) stepped rfl (fun _ => rfl) ?_
      intro config requests
      refine sim.advance sim.idle sim.src_cut rfl rfl ?_ (by simp [nextMode, Placed])
      exact sim.line.trans (Scan.line_next_of_ne (by decide)).symm
    · rw [if_neg quote] at stepped
      have silent : s.mode.emit c = [] := by simp [mode, Mode.emit, quote]
      by_cases newline : c = Ascii.newline
      · rw [if_pos newline] at stepped
        exact .faulted sim .unexpectedEndOfLine silent (by rw [mode, newline]; rfl) stepped
      · rw [if_neg newline] at stepped
        have nextMode : s.mode.next c = .inQuoted key (acc ++ [c]) := by
          simp [mode, Mode.next, quote, newline]
        refine .one_of_ne sim stepped silent newline rfl ⟨rfl, rfl, rfl, rfl, rfl⟩ ?_
        rw [nextMode]
        refine ⟨rfl, valueAt.snoc (nulFree_cons.mp sim.free).1 rfl rfl, ?_⟩
        intro last head
        exact escape ⟨by simpa using last, head⟩

theorem step_afterQuote (sim : Sim m s front (c :: rest)) (mode : s.mode = .afterQuote) :
    StepCases alloc m s (c :: rest) := by
  have state : m.state = .paramValueSkip := by simpa [Placed, mode] using sim.placed
  have stepped : Loader.step alloc m = _ := sim.step_eq
  simp only [Loader.scanStep, state, sim.byteAt_eq] at stepped
  have silent : s.mode.emit c = [] := by rw [mode]; rfl
  by_cases semicolon : c = Ascii.semicolon
  · subst semicolon
    rw [if_pos rfl] at stepped
    have nextMode : s.mode.next Ascii.semicolon = .space := by rw [mode]; rfl
    refine .one_of_ne sim stepped silent (by decide) rfl ⟨rfl, rfl, rfl, rfl, rfl⟩ ?_
    simp [nextMode, Placed]
  · rw [if_neg semicolon] at stepped
    by_cases newline : c = Ascii.newline
    · rw [if_pos newline] at stepped
      exact .faulted sim .unexpectedEndOfLine silent (by rw [mode, newline]; rfl) stepped
    · rw [if_neg newline] at stepped
      have nextMode : s.mode.next c = .afterQuote := by
        simp [mode, Mode.next, semicolon, newline]
      refine .one_of_ne sim stepped silent newline rfl ⟨rfl, rfl, rfl, rfl, rfl⟩ ?_
      simp [nextMode, Placed]

theorem step_inCopy {key acc : Bytes} (sim : Sim m s front (c :: rest))
    (mode : s.mode = .inCopy key acc) : StepCases alloc m s (c :: rest) := by
  have placed := sim.placed
  rw [mode] at placed
  rcases placed with ⟨state, valueAt⟩
  have stepped : Loader.step alloc m = _ := sim.step_eq
  simp only [Loader.scanStep, state, sim.byteAt_eq] at stepped
  by_cases semicolon : c = Ascii.semicolon
  · subst semicolon
    rw [if_pos rfl, valueAt.length_eq sim.p, sim.cut_value valueAt,
      sim.cut_source valueAt] at stepped
    by_cases long : acc.length > CONFIG_KEY_MAX_SIZE
    · rw [if_pos long, Loader.fail, Loader.cut_line, sim.line] at stepped
      refine .fault Ascii.semicolon rest (.copyKeyTooLong acc) rfl ?_ ?_ stepped
      · simp [mode, Mode.emit, long]
      · simp [mode, Mode.next, long]
    · rw [if_neg long] at stepped
      have nextMode : s.mode.next Ascii.semicolon = .space := by
        simp [mode, Mode.next, not_lt.mp long]
      refine .copy Ascii.semicolon front rest key acc _ rfl ?_ stepped rfl rfl ?_
      · simp [mode, Mode.emit, not_lt.mp long]
      · exact
          { src := sim.src_cut
            p := sim.p
            stop := by
              have := sim.stop
              simp only [Loader.cut_stop, List.length_cons] at this ⊢
              omega
            line := sim.line.trans (Scan.line_next_of_ne (by decide)).symm
            free := (nulFree_cons.mp sim.free).2
            value := valueAt
            mode := nextMode }
  · rw [if_neg semicolon] at stepped
    have silent : s.mode.emit c = [] := by simp [mode, Mode.emit, semicolon]
    by_cases newline : c = Ascii.newline
    · rw [if_pos newline] at stepped
      exact .faulted sim .unexpectedEndOfLine silent (by rw [mode, newline]; rfl) stepped
    · rw [if_neg newline] at stepped
      have nextMode : s.mode.next c = .inCopy key (acc ++ [c]) := by
        simp [mode, Mode.next, semicolon, newline]
      refine .one_of_ne sim stepped silent newline rfl ⟨rfl, rfl, rfl, rfl, rfl⟩ ?_
      rw [nextMode]
      exact ⟨rfl, valueAt.snoc (nulFree_cons.mp sim.free).1 rfl rfl⟩

/-- What one step of a loader can do before the end of its text. -/
theorem step_cases (alloc : ℕ → Bool) (sim : Sim m s front (c :: rest)) :
    StepCases alloc m s (c :: rest) := by
  cases mode : s.mode with
  | space => exact step_space sim mode
  | comment => exact step_comment sim mode
  | inKey acc => exact step_inKey sim mode
  | afterKey key => exact step_afterKey sim mode
  | inValue key acc => exact step_inValue sim mode
  | inQuoted key acc => exact step_inQuoted sim mode
  | afterQuote => exact step_afterQuote sim mode
  | inCopy key acc => exact step_inCopy sim mode
  | failed fault => simpa [Placed, mode] using sim.placed

end Step

section CopyLoop

open PrefixCopy

variable {m : Loader} {s : Scan} {target source front rest : Bytes}

/-- The copy loop holds what a Judy search returned. -/
def Holds (copying : Copying) (entry : Option (Bytes × Word)) : Prop :=
  ∃ index, copying = Loader.found index entry

/-- Where the copy loop stops, the loader goes on behind the `;`. -/
theorem InLoop.leaves (alloc : ℕ → Bool) (inside : InLoop m target source s front rest)
    {copying : Copying} {entry : Option (Bytes × Word)} (loop : m.copying = some copying)
    (holds : Holds copying entry)
    (stop : body source target ⟨m.config.data, entry⟩ = none) :
    ∃ m', Loader.step alloc m = .next m' ∧ m'.config = m.config ∧
      Sim m' s (front ++ [nul]) rest := by
  have left : Loader.step alloc m =
      .next { m with copying := none, state := .space, p := m.p + 1 } := by
    rcases holds with ⟨index, rfl⟩
    rcases entry with _ | ⟨key, word⟩
    · simp [Loader.step, loop, Loader.copyStep, Loader.found]
    · have outside : strncmpEq key source source.length = false := by
        rw [← Bool.not_eq_true, strncmpEq_iff]
        exact body_eq_none_iff.mp stop (key, word) rfl
      simp [Loader.step, loop, Loader.copyStep, Loader.found, inside.value.length_eq inside.p,
        inside.value.cstr_eq inside.src, outside]
  refine ⟨_, left, rfl, ?_⟩
  exact
    { idle := rfl
      src := by simpa using inside.src
      p := by simp [inside.p]
      stop := by
        rw [List.length_append]
        exact inside.stop
      line := inside.line
      free := inside.free
      placed := by simp [inside.mode, Placed] }

/-- An iteration stores the copy of the current entry and stays in the loop. -/
theorem InLoop.iterates (alloc : ℕ → Bool) (inside : InLoop m target source s front rest)
    {copying : Copying} {suffix : Bytes} {word : Word} (loop : m.copying = some copying)
    (holds : Holds copying (some (source ++ suffix, word))) :
    ∃ after : Loader → Loader,
      Loader.step alloc m = m.insertWord alloc (target ++ suffix) word after ∧
      (∀ m', (after m').config = m'.config) ∧
      ∀ config requests,
        (after { m with config := config, requests := requests }).copying =
          some (Loader.found (source ++ suffix) (config.data.nextAfter (source ++ suffix))) ∧
        InLoop (after { m with config := config, requests := requests }) target source s
          front rest := by
  rcases holds with ⟨index, rfl⟩
  have starts : strncmpEq (source ++ suffix) source source.length = true := by
    rw [strncmpEq_iff]
    exact List.prefix_append _ _
  refine ⟨fun m => { m with copying := some (Loader.found (source ++ suffix)
    (m.config.data.nextAfter (source ++ suffix))) }, ?_, fun _ => rfl, ?_⟩
  · simp only [Loader.step, loop, Loader.copyStep, Loader.found, inside.value.length_eq inside.p,
      inside.value.cstr_eq inside.src, inside.value.key_eq inside.src, starts, if_true,
      List.drop_left]
  · intro config requests
    exact ⟨rfl,
      { src := inside.src
        p := inside.p
        stop := inside.stop
        line := inside.line
        free := inside.free
        value := inside.value
        mode := inside.mode }⟩

end CopyLoop

end Libhelp

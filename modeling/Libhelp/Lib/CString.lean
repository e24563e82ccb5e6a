import Mathlib.Data.List.Lex
import Mathlib.Data.List.TakeWhile
import Mathlib.Order.Lattice
import Mathlib.Tactic.Common

/-!
# NUL-terminated strings in byte buffers

A buffer is a list of bytes.  The C string at the start of a buffer is what
comes before its first NUL byte; reading past the end of a buffer gives NUL, so
that a buffer without a terminator reads as a whole.
-/

instance linearOrderByte : LinearOrder UInt8 where
  le_refl := UInt8.le_refl
  le_trans _ _ _ := UInt8.le_trans
  le_antisymm _ _ := UInt8.le_antisymm
  le_total := UInt8.le_total
  lt_iff_le_not_ge left right := by
    simp only [UInt8.lt_iff_toNat_lt, UInt8.le_iff_toNat_le]
    omega
  toDecidableLE := inferInstance

abbrev Bytes := List UInt8

namespace CString

/-- The byte that ends a C string. -/
abbrev nul : UInt8 := 0

/-- A byte string without NUL, the content of a C string. -/
def NulFree (bytes : Bytes) : Prop :=
  nul ∉ bytes

instance (bytes : Bytes) : Decidable (NulFree bytes) :=
  inferInstanceAs (Decidable (nul ∉ bytes))

/-- The bytes of a string of ASCII characters. -/
def ascii (text : String) : Bytes :=
  text.toList.map fun c => c.toNat.toUInt8

/-- The C string at the start of a buffer. -/
def cstr (buffer : Bytes) : Bytes :=
  buffer.takeWhile (· ≠ nul)

def strlen (buffer : Bytes) : ℕ :=
  (cstr buffer).length

/-- Whether `strncmp` finds no difference in the first `n` bytes of two C strings. -/
def strncmpEq (left right : Bytes) (n : ℕ) : Bool :=
  left.take n = right.take n

def byteAt (buffer : Bytes) (offset : ℕ) : UInt8 :=
  buffer.getD offset nul

@[simp]
theorem nulFree_nil : NulFree [] := by
  simp [NulFree]

@[simp]
theorem nulFree_cons {byte : UInt8} {bytes : Bytes} :
    NulFree (byte :: bytes) ↔ byte ≠ nul ∧ NulFree bytes := by
  simp [NulFree, eq_comm]

@[simp]
theorem nulFree_append {left right : Bytes} :
    NulFree (left ++ right) ↔ NulFree left ∧ NulFree right := by
  simp [NulFree]

theorem strncmpEq_iff {word pre : Bytes} :
    strncmpEq word pre pre.length = true ↔ pre <+: word := by
  rw [List.prefix_iff_eq_take]
  simp [strncmpEq, eq_comm]

theorem cstr_of_nulFree {bytes : Bytes} (free : NulFree bytes) : cstr bytes = bytes := by
  apply List.takeWhile_eq_self_iff.mpr
  intro byte byte_mem
  simp only [ne_eq, decide_eq_true_eq]
  rintro rfl
  exact free byte_mem

@[simp]
theorem cstr_append_nul {bytes rest : Bytes} (free : NulFree bytes) :
    cstr (bytes ++ nul :: rest) = bytes := by
  rw [cstr, List.takeWhile_append_of_pos]
  · simp
  · intro byte byte_mem
    simp only [ne_eq, decide_eq_true_eq]
    rintro rfl
    exact free byte_mem

theorem nulFree_cstr (buffer : Bytes) : NulFree (cstr buffer) := by
  intro isByte
  simpa using List.mem_takeWhile_imp isByte

theorem exists_cstr_append {buffer : Bytes} (isByte : nul ∈ buffer) :
    ∃ rest, buffer = cstr buffer ++ nul :: rest := by
  induction buffer with
  | nil => cases isByte
  | cons byte buffer ih =>
      rcases eq_or_ne byte nul with isNul | other
      · refine ⟨buffer, ?_⟩
        simp [cstr, isNul]
      · have later : nul ∈ buffer := by simpa [other.symm] using isByte
        rcases ih later with ⟨rest, split⟩
        refine ⟨rest, ?_⟩
        rw [cstr, List.takeWhile_cons_of_pos (by simpa using other)]
        exact congrArg _ split

/-- The string in a part of a buffer is the string of the buffer as far as that part goes. -/
theorem take_cstr_append (bytes rest : Bytes) :
    (cstr (bytes ++ rest)).take bytes.length = cstr bytes := by
  rw [cstr, List.takeWhile_append]
  split
  case isTrue whole =>
    have same : cstr bytes = bytes := (List.takeWhile_prefix _).eq_of_length whole
    rw [List.take_left, same]
  case isFalse => exact List.take_of_length_le (List.takeWhile_prefix _).length_le

theorem cstr_append_drop (bytes : Bytes) : cstr bytes ++ bytes.drop (strlen bytes) = bytes := by
  have isPrefix : cstr bytes <+: bytes := List.takeWhile_prefix _
  have start : cstr bytes = bytes.take (strlen bytes) := List.prefix_iff_eq_take.mp isPrefix
  nth_rewrite 1 [start]
  exact List.take_append_drop _ _

theorem cstr_drop_append {front bytes rest : Bytes} {offset : ℕ} (start : offset = front.length)
    (free : NulFree bytes) : cstr ((front ++ (bytes ++ nul :: rest)).drop offset) = bytes := by
  rw [start, List.drop_left]
  exact cstr_append_nul free

@[simp]
theorem byteAt_append {front rest : Bytes} {byte : UInt8} :
    byteAt (front ++ byte :: rest) front.length = byte := by
  simp [byteAt]

theorem set_append {front rest : Bytes} {byte new : UInt8} :
    (front ++ byte :: rest).set front.length new = front ++ new :: rest := by
  simp

/-- A NUL stands in the buffer at or after an offset. -/
def Terminated (buffer : Bytes) (offset : ℕ) : Prop :=
  ∃ i, offset ≤ i ∧ buffer[i]? = some nul

theorem Terminated.set {buffer : Bytes} {offset : ℕ} (ended : Terminated buffer offset)
    (position : ℕ) : Terminated (buffer.set position nul) offset := by
  rcases ended with ⟨i, reached, found⟩
  have inside : i < buffer.length := (List.getElem?_eq_some_iff.mp found).1
  refine ⟨i, reached, ?_⟩
  rcases eq_or_ne position i with rfl | other
  · simp [inside]
  · rw [List.getElem?_set_ne other, found]

theorem terminated_set {buffer : Bytes} {offset position : ℕ} (reached : offset ≤ position)
    (inside : position < buffer.length) : Terminated (buffer.set position nul) offset :=
  ⟨position, reached, by simp [inside]⟩

theorem Terminated.mem_drop {buffer : Bytes} {offset : ℕ} (ended : Terminated buffer offset) :
    nul ∈ buffer.drop offset := by
  rcases ended with ⟨i, reached, found⟩
  refine List.mem_iff_getElem?.mpr ⟨i - offset, ?_⟩
  rw [List.getElem?_drop, Nat.add_sub_cancel' reached, found]

/-- A string that ends inside a buffer does not see what follows the buffer. -/
theorem Terminated.cstr_drop_append {buffer : Bytes} {offset : ℕ}
    (ended : Terminated buffer offset) (rest : Bytes) :
    cstr ((buffer ++ rest).drop offset) = cstr (buffer.drop offset) := by
  rcases List.append_of_mem ended.mem_drop with ⟨front, back, split⟩
  rcases ended with ⟨i, reached, found⟩
  have inside : i < buffer.length := (List.getElem?_eq_some_iff.mp found).1
  rw [List.drop_append_of_le_length (by omega), split]
  simp [cstr, List.takeWhile_append]

theorem byteAt_append_of_lt {buffer rest : Bytes} {offset : ℕ} (inside : offset < buffer.length) :
    byteAt (buffer ++ rest) offset = byteAt buffer offset := by
  simp [byteAt, List.getElem?_append_left inside]

end CString

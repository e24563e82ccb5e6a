import Libhelp.Lib.CString
import Mathlib.Tactic.Ring

/-!
# Records in memory

A record is a buffer of a fixed length.  Its numbers are stored with the lowest
byte first.  What arrives from elsewhere overwrites the start of a record and
leaves the rest of it as it is.
-/

namespace Record

/-- A number in a field of a width, the lowest byte first. -/
def encode : ℕ → ℕ → Bytes
  | 0, _ => []
  | width + 1, n => (n % 256).toUInt8 :: encode width (n / 256)

def decode : Bytes → ℕ
  | [] => 0
  | byte :: bytes => byte.toNat + 256 * decode bytes

/-- The buffer with new bytes at its start, as far as it goes. -/
def overwrite (buffer new : Bytes) : Bytes :=
  (new ++ buffer.drop new.length).take buffer.length

section Number

@[simp]
theorem length_encode (width n : ℕ) : (encode width n).length = width := by
  induction width generalizing n with
  | zero => rfl
  | succ width ih => rw [encode, List.length_cons, ih]

theorem decode_encode {width n : ℕ} (bound : n < 256 ^ width) : decode (encode width n) = n := by
  induction width generalizing n with
  | zero =>
      rw [pow_zero, Nat.lt_one_iff] at bound
      rw [bound]
      rfl
  | succ width ih =>
      have quotient : n / 256 < 256 ^ width := by
        apply Nat.div_lt_of_lt_mul
        rw [mul_comm, ← pow_succ]
        exact bound
      have low : (n % 256).toUInt8.toNat = n % 256 := by
        rw [Nat.toUInt8_eq, UInt8.toNat_ofNat']
        omega
      rw [encode, decode, ih quotient, low]
      exact Nat.mod_add_div n 256

/-- A `long` or a `time_t` in memory. -/
def encodeInt64 (n : Int64) : Bytes :=
  encode 8 n.toUInt64.toNat

def decodeInt64 (bytes : Bytes) : Int64 :=
  (UInt64.ofNat (decode bytes)).toInt64

@[simp]
theorem length_encodeInt64 (n : Int64) : (encodeInt64 n).length = 8 :=
  length_encode _ _

@[simp]
theorem decodeInt64_encodeInt64 (n : Int64) : decodeInt64 (encodeInt64 n) = n := by
  have bound : n.toUInt64.toNat < 256 ^ 8 := n.toUInt64.toNat_lt
  rw [decodeInt64, encodeInt64, decode_encode bound, UInt64.ofNat_toNat]
  exact Int64.toInt64_toUInt64 n

end Number

section Overwrite

variable {buffer new : Bytes}

@[simp]
theorem length_overwrite (buffer new : Bytes) : (overwrite buffer new).length = buffer.length := by
  rw [overwrite, List.length_take, List.length_append, List.length_drop]
  omega

theorem overwrite_eq (fits : new.length ≤ buffer.length) :
    overwrite buffer new = new ++ buffer.drop new.length := by
  apply List.take_of_length_le
  rw [List.length_append, List.length_drop]
  omega

/-- Of a text that is cut after `kept` bytes and continued by other bytes, the start is what it
was when the other bytes go on as the text does. -/
theorem take_cut_iff {start text other : Bytes} {kept : ℕ} (isStart : start <+: text) :
    (text.take kept ++ other).take start.length = start ↔ start.drop kept <+: other := by
  rcases isStart with ⟨rest, rfl⟩
  rcases Nat.le_total start.length kept with short | long
  · have empty : start.drop kept = [] := List.drop_of_length_le short
    rw [List.take_append_of_le_length (by simp; omega), List.take_take, Nat.min_eq_left short,
      List.take_left, empty]
    simp
  · rw [List.take_append_of_le_length long, List.take_append, List.take_take,
      Nat.min_eq_right long, List.length_take, Nat.min_eq_left long]
    rw [List.prefix_iff_eq_take, List.length_drop]
    constructor
    · intro same
      have split := same.trans (List.take_append_drop kept start).symm
      exact (List.append_cancel_left split).symm
    · intro same
      rw [← same, List.take_append_drop]

end Overwrite

end Record

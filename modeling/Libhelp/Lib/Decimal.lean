import Libhelp.Lib.CString

/-!
# Decimal numerals

A numeral is a string of digits, the most significant one first.  Its value is what
comes out when each digit is put behind the number of those before it.
-/

namespace Decimal

/-- The digits are the bytes from `0` to `9`. -/
def IsDigit (c : UInt8) : Prop :=
  48 ≤ c ∧ c ≤ 57

instance (c : UInt8) : Decidable (IsDigit c) :=
  inferInstanceAs (Decidable (_ ∧ _))

/-- The number that a digit stands for. -/
def digit (c : UInt8) : ℕ :=
  c.toNat - 48

/-- The number that results when digits are put behind a number. -/
def value (start : ℕ) (digits : Bytes) : ℕ :=
  digits.foldl (fun number c => number * 10 + digit c) start

/-- The digits at the start of a string. -/
def leading (bytes : Bytes) : Bytes :=
  bytes.takeWhile fun c => decide (IsDigit c)

variable {start : ℕ} {c : UInt8} {bytes left right : Bytes}

@[simp]
theorem value_nil (start : ℕ) : value start [] = start := rfl

theorem value_cons (start : ℕ) (c : UInt8) (bytes : Bytes) :
    value start (c :: bytes) = value (start * 10 + digit c) bytes :=
  List.foldl_cons

theorem value_append (start : ℕ) (left right : Bytes) :
    value start (left ++ right) = value (value start left) right :=
  List.foldl_append

theorem le_value (start : ℕ) (bytes : Bytes) : start ≤ value start bytes := by
  induction bytes generalizing start with
  | nil => exact le_rfl
  | cons c bytes ih =>
      have more := ih (start * 10 + digit c)
      rw [value_cons]
      omega

@[simp]
theorem leading_nil : leading [] = [] := rfl

theorem leading_cons (isDigit : IsDigit c) : leading (c :: bytes) = c :: leading bytes :=
  List.takeWhile_cons_of_pos (decide_eq_true isDigit)

theorem leading_cons_of_not (other : ¬IsDigit c) : leading (c :: bytes) = [] :=
  List.takeWhile_cons_of_neg (by simpa using other)

theorem leading_eq_self (digits : ∀ c ∈ bytes, IsDigit c) : leading bytes = bytes :=
  List.takeWhile_eq_self_iff.mpr fun c isByte => decide_eq_true (digits c isByte)

theorem IsDigit.le (isDigit : IsDigit c) : 48 ≤ c.toNat ∧ c.toNat ≤ 57 :=
  ⟨UInt8.le_iff_toNat_le.mp isDigit.1, UInt8.le_iff_toNat_le.mp isDigit.2⟩

end Decimal

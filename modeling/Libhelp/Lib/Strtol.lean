import Libhelp.Lib.CString
import Mathlib.Data.List.GetD
import Mathlib.Data.Nat.Digits.Defs

/-!
# The numbers that `strtol` reads

`strtol` skips white space, takes a sign and, for the base 16, a prefix, and then all the
digits that follow.  What does not fit a `long` becomes the nearest one that there is.

A numeral has no other digits than those of its base, the most significant one first; it
is read back as the number that it stands for.
-/

namespace Strtol

open CString

/-- `isspace` in the C locale. -/
def isSpace (c : UInt8) : Bool :=
  c = 32 || (9 ≤ c && c ≤ 13)

/-- The value of a digit, the letters counting on from 10. -/
def digitValue (c : UInt8) : Option ℕ :=
  if 48 ≤ c ∧ c ≤ 57 then some (c.toNat - 48)
  else if 97 ≤ c ∧ c ≤ 122 then some (c.toNat - 87)
  else if 65 ≤ c ∧ c ≤ 90 then some (c.toNat - 55)
  else none

/-- The value of a digit of a base. -/
def digitIn (base : ℕ) (c : UInt8) : Option ℕ :=
  (digitValue c).filter (· < base)

/-- The number that comes out when the digits at the start of a string are put behind a number. -/
def magnitude (base : ℕ) (number : ℕ) : Bytes → ℕ
  | [] => number
  | c :: rest =>
      match digitIn base c with
      | none => number
      | some d => magnitude base (number * base + d) rest

/-- Skip `0x` and `0X` before a number of the base 16. -/
def skipPrefix (base : ℕ) (bytes : Bytes) : Bytes :=
  if base = 16 ∧ byteAt bytes 0 = 48 ∧ (byteAt bytes 1 = 120 ∨ byteAt bytes 1 = 88) then
    bytes.drop 2
  else
    bytes

/-- `LONG_MAX` -/
def longMax : ℤ := 9223372036854775807

/-- The nearest `long`. -/
def clamp (n : ℤ) : ℤ :=
  max (-longMax - 1) (min n longMax)

/-- `strtol` with a null pointer for the end of the number. -/
def strtol (base : ℕ) (bytes : Bytes) : ℤ :=
  let bytes := bytes.dropWhile isSpace
  if byteAt bytes 0 = 45 then
    clamp (-(magnitude base 0 (skipPrefix base (bytes.drop 1)) : ℤ))
  else if byteAt bytes 0 = 43 then
    clamp (magnitude base 0 (skipPrefix base (bytes.drop 1)))
  else
    clamp (magnitude base 0 (skipPrefix base bytes))

/-- The conversion of a `long` to an `int`. -/
def toInt (n : ℤ) : ℤ :=
  n.bmod (2 ^ 32)

/-- `atoi` -/
def atoi (bytes : Bytes) : ℤ :=
  toInt (strtol 10 bytes)

/-- The digit for a value. -/
def digitByte (d : ℕ) : UInt8 :=
  if d < 10 then d.toUInt8 + 48 else d.toUInt8 + 87

/-- The numeral of a number in a base. -/
def numeral (base n : ℕ) : Bytes :=
  if n = 0 then [48] else ((base.digits n).reverse).map digitByte

variable {base number n : ℕ} {bytes : Bytes}

section Numeral

theorem digitIn_digitByte {d : ℕ} (valid : d < base) (small : base ≤ 36) :
    digitIn base (digitByte d) = some d := by
  have all : ∀ d < 36, digitValue (digitByte d) = some d := by decide
  rw [digitIn, all d (by omega), Option.filter_some]
  simp [valid]

theorem magnitude_map (digits : List ℕ) (valid : ∀ d ∈ digits, d < base) (small : base ≤ 36)
    (number : ℕ) :
    magnitude base number (digits.map digitByte) =
      number * base ^ digits.length + Nat.ofDigits base digits.reverse := by
  induction digits generalizing number with
  | nil => simp [magnitude]
  | cons d digits ih =>
      rcases List.forall_mem_cons.mp valid with ⟨validHere, valid⟩
      have step : magnitude base number ((d :: digits).map digitByte) =
          magnitude base (number * base + d) (digits.map digitByte) := by
        rw [List.map_cons, magnitude, digitIn_digitByte validHere small]
      rw [step, ih valid, List.reverse_cons, Nat.ofDigits_append, Nat.ofDigits_singleton,
        List.length_reverse, List.length_cons, pow_succ]
      ring

theorem magnitude_numeral (lower : 2 ≤ base) (small : base ≤ 36) (n : ℕ) :
    magnitude base 0 (numeral base n) = n := by
  unfold numeral
  split_ifs with zero
  · have isZero : digitIn base 48 = some 0 := digitIn_digitByte (d := 0) (by omega) small
    simp [zero, magnitude, isZero]
  · rw [magnitude_map _ _ small, List.reverse_reverse, Nat.ofDigits_digits, Nat.zero_mul,
      Nat.zero_add]
    intro d isDigit
    exact Nat.digits_lt_base (by omega) (List.mem_reverse.mp isDigit)

theorem exists_digit_of_mem_numeral (lower : 2 ≤ base) {c : UInt8} (isByte : c ∈ numeral base n) :
    ∃ d < base, c = digitByte d := by
  unfold numeral at isByte
  split_ifs at isByte
  · exact ⟨0, by omega, List.mem_singleton.mp isByte⟩
  · rcases List.mem_map.mp isByte with ⟨d, isDigit, rfl⟩
    exact ⟨d, Nat.digits_lt_base (by omega) (List.mem_reverse.mp isDigit), rfl⟩

theorem numeral_ne_nil (base n : ℕ) : numeral base n ≠ [] := by
  unfold numeral
  split_ifs with zero
  · exact List.cons_ne_nil _ _
  · simpa using Nat.digits_ne_nil_iff_ne_zero.mpr zero

/-- The bytes of a numeral are no white space, no signs and no `x`. -/
theorem plain_of_mem_numeral (lower : 2 ≤ base) (small : base ≤ 16) {c : UInt8}
    (isByte : c ∈ numeral base n) :
    isSpace c = false ∧ c ≠ 45 ∧ c ≠ 43 ∧ c ≠ 120 ∧ c ≠ 88 ∧ c ≠ nul := by
  have all : ∀ d < 16, isSpace (digitByte d) = false ∧ digitByte d ≠ 45 ∧ digitByte d ≠ 43 ∧
      digitByte d ≠ 120 ∧ digitByte d ≠ 88 ∧ digitByte d ≠ nul := by
    decide
  rcases exists_digit_of_mem_numeral lower isByte with ⟨d, valid, rfl⟩
  exact all d (by omega)

theorem byteAt_mem_or (bytes : Bytes) (offset : ℕ) :
    byteAt bytes offset ∈ bytes ∨ byteAt bytes offset = nul := by
  rcases Nat.lt_or_ge offset bytes.length with inside | outside
  · left
    rw [byteAt, List.getD_eq_getElem _ _ inside]
    exact List.getElem_mem inside
  · exact .inr (List.getD_eq_default _ _ outside)

theorem skipPrefix_numeral (lower : 2 ≤ base) (small : base ≤ 16) (n : ℕ) :
    skipPrefix base (numeral base n) = numeral base n := by
  apply if_neg
  rintro ⟨-, -, isX⟩
  rcases byteAt_mem_or (numeral base n) 1 with isByte | isNul
  · have plain := plain_of_mem_numeral lower small isByte
    rcases isX with isX | isX
    · exact plain.2.2.2.1 isX
    · exact plain.2.2.2.2.1 isX
  · rw [isNul] at isX
    revert isX
    decide

end Numeral

section Read

/-- The ways in which the prefix of a numeral may be written. -/
def IsPrefix (base : ℕ) (pre : Bytes) : Prop :=
  pre = [] ∨ base = 16 ∧ (pre = [48, 120] ∨ pre = [48, 88])

theorem magnitude_prefix {pre : Bytes} (lower : 2 ≤ base) (small : base ≤ 16)
    (isPrefix : IsPrefix base pre) (n : ℕ) :
    magnitude base 0 (skipPrefix base (pre ++ numeral base n)) = n := by
  have skipped : skipPrefix base (pre ++ numeral base n) = numeral base n := by
    rcases isPrefix with rfl | ⟨hex, rfl | rfl⟩
    · exact skipPrefix_numeral lower small n
    · exact if_pos ⟨hex, rfl, .inl rfl⟩
    · exact if_pos ⟨hex, rfl, .inr rfl⟩
  rw [skipped, magnitude_numeral lower (by omega)]

/-- The first byte of a numeral with a prefix is a digit. -/
theorem first_plain {pre : Bytes} (lower : 2 ≤ base) (small : base ≤ 16)
    (isPrefix : IsPrefix base pre) (n : ℕ) : ∃ c rest, pre ++ numeral base n = c :: rest ∧
      isSpace c = false ∧ c ≠ 45 ∧ c ≠ 43 := by
  rcases isPrefix with rfl | ⟨-, rfl | rfl⟩
  · rcases List.exists_cons_of_ne_nil (numeral_ne_nil base n) with ⟨c, rest, split⟩
    have plain := plain_of_mem_numeral (n := n) lower small (split ▸ List.mem_cons_self)
    exact ⟨c, rest, split, plain.1, plain.2.1, plain.2.2.1⟩
  · exact ⟨48, _, rfl, by decide, by decide, by decide⟩
  · exact ⟨48, _, rfl, by decide, by decide, by decide⟩

theorem strtol_positive {pre : Bytes} (lower : 2 ≤ base) (small : base ≤ 16)
    (isPrefix : IsPrefix base pre) (n : ℕ) : strtol base (pre ++ numeral base n) = clamp n := by
  rcases first_plain lower small isPrefix n with ⟨c, rest, split, notSpace, notMinus, notPlus⟩
  have magnitude := magnitude_prefix lower small isPrefix n
  rw [split] at magnitude ⊢
  have start : (c :: rest).dropWhile isSpace = c :: rest :=
    List.dropWhile_cons_of_neg (by simp [notSpace])
  have first : byteAt (c :: rest) 0 = c := rfl
  simp only [strtol, start, first, if_neg notMinus, if_neg notPlus, magnitude]

theorem strtol_negative {pre : Bytes} (lower : 2 ≤ base) (small : base ≤ 16)
    (isPrefix : IsPrefix base pre) (n : ℕ) :
    strtol base (45 :: (pre ++ numeral base n)) = clamp (-n) := by
  have magnitude := magnitude_prefix lower small isPrefix n
  have start : (45 :: (pre ++ numeral base n)).dropWhile isSpace =
      45 :: (pre ++ numeral base n) :=
    List.dropWhile_cons_of_neg (by decide)
  have first : byteAt (45 :: (pre ++ numeral base n)) 0 = 45 := rfl
  simp only [strtol, start, first, if_true, List.drop_succ_cons, List.drop_zero, magnitude]

/-- A number is read into an `int` as it is exactly when it is an `int`. -/
theorem toInt_clamp_iff (x : ℤ) : toInt (clamp x) = x ↔ -2147483648 ≤ x ∧ x ≤ 2147483647 := by
  unfold toInt clamp longMax Int.bmod
  simp only [Nat.reducePow]
  omega

end Read

end Strtol

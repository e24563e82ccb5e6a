import Libhelp.Config.Quoted
import Libhelp.Lib.Decimal
import Mathlib.Algebra.Group.Nat.Defs
import Mathlib.Data.List.GetD

/-!
# Numbers in configuration texts

The model of `itoa`, `atoui`, `config_get_int` and `config_get_uint`.  A number that
`itoa` has written can be loaded as the value of a key, and is read back as it was.

An `unsigned int` wraps around.  An `int` does not: an operation that leaves its range
has no result, and neither has what depends on it.
-/

namespace Libhelp

open CString Decimal

/-- `ITOA_BUF_SIZE` -/
def itoaBufSize : ℕ :=
  (ascii "-18446744073709551615").length + 1

/-- The first loop of `itoa`, which fills the buffer with the digits, the last one first. -/
def itoaFill (n : ℕ) : Bytes :=
  let c := (n % 10).toUInt8 + 48
  if n / 10 = 0 then [c] else c :: itoaFill (n / 10)
termination_by n
decreasing_by omega

/-- The second loop, which copies the buffer from the end on. -/
def itoaCopy (b : Bytes) : ℕ → Bytes → Bytes
  | 0, p => p
  | k + 1, p => itoaCopy b k (p ++ [byteAt b k])

/-- `itoa`: what it writes behind `p`. -/
def itoa (p : Bytes) (v : ℕ) : Bytes :=
  let b := itoaFill v
  itoaCopy b b.length p

/-- `INT_MAX` -/
def intMax : ℕ := 2147483647

/-- The result of an operation on `int`, if there is one. -/
def intResult (x : ℤ) : Option ℤ :=
  if -(intMax : ℤ) - 1 ≤ x ∧ x ≤ intMax then some x else none

/-- `atoui` with an `unsigned int`. -/
def atouiUnsigned (u : UInt32) : Bytes → UInt32
  | [] => u
  | c :: rest => if c < 48 ∨ c > 57 then u else atouiUnsigned (u * 10 + (c.toUInt32 - 48)) rest

/-- `atoui` with an `int`. -/
def atouiInt (u : ℤ) : Bytes → Option ℤ
  | [] => some u
  | c :: rest =>
      if c < 48 ∨ c > 57 then
        some u
      else
        match intResult (u * 10) with
        | none => none
        | some tens =>
            match intResult (tens + ((c.toNat : ℤ) - 48)) with
            | none => none
            | some u => atouiInt u rest

/-- What `config_get_int` makes of a value. -/
def intOfValue (k : Bytes) : Option ℤ :=
  if byteAt k 0 = 45 then
    match atouiInt 0 (k.drop 1) with
    | none => none
    | some rc => intResult (-rc)
  else
    atouiInt 0 k

/-- `config_get_int`, which has no result when it reads through `NULL` either. -/
def configGetInt (config : Config) (key : Bytes) (default : ℤ) : Option ℤ :=
  match config.data.find? key with
  | none => some default
  | some pw => pw.bind intOfValue

/-- `config_get_uint` -/
def configGetUint (config : Config) (key : Bytes) (default : UInt32) : Option UInt32 :=
  match config.data.find? key with
  | none => some default
  | some pw => pw.map (atouiUnsigned 0)

section Itoa

variable {n : ℕ}

theorem itoaCopy_eq (b : Bytes) (p : Bytes) (k : ℕ) (inside : k ≤ b.length) :
    itoaCopy b k p = p ++ (b.take k).reverse := by
  induction k generalizing p with
  | zero => simp [itoaCopy]
  | succ k ih =>
      have here : k < b.length := inside
      rw [itoaCopy, ih _ (by omega), List.take_succ_eq_append_getElem here, List.reverse_append,
        List.append_assoc]
      congr 2
      rw [byteAt, List.getD_eq_getElem _ _ here]
      rfl

theorem itoa_eq (p : Bytes) (v : ℕ) : itoa p v = p ++ (itoaFill v).reverse := by
  unfold itoa
  dsimp only
  rw [itoaCopy_eq _ _ _ le_rfl, List.take_length]

theorem digit_byte (n : ℕ) : IsDigit ((n % 10).toUInt8 + 48) ∧
    digit ((n % 10).toUInt8 + 48) = n % 10 := by
  have all : ∀ d < 10, IsDigit (d.toUInt8 + 48) ∧ digit (d.toUInt8 + 48) = d := by decide
  exact all (n % 10) (Nat.mod_lt _ (by decide))

theorem isDigit_of_mem_itoaFill {c : UInt8} (isByte : c ∈ itoaFill n) : IsDigit c := by
  induction n using itoaFill.induct with
  | case1 n last =>
      rw [itoaFill, if_pos last, List.mem_singleton] at isByte
      rw [isByte]
      exact (digit_byte n).1
  | case2 n more ih =>
      rw [itoaFill, if_neg more, List.mem_cons] at isByte
      rcases isByte with first | later
      · rw [first]
        exact (digit_byte n).1
      · exact ih later

theorem value_itoaFill (n : ℕ) : value 0 (itoaFill n).reverse = n := by
  induction n using itoaFill.induct with
  | case1 n last =>
      rw [itoaFill, if_pos last]
      have same : value 0 [(n % 10).toUInt8 + 48] = digit ((n % 10).toUInt8 + 48) :=
        Nat.zero_add _
      rw [List.reverse_singleton, same, (digit_byte n).2]
      omega
  | case2 n more ih =>
      rw [itoaFill, if_neg more, List.reverse_cons, value_append, ih, value_cons, value_nil,
        (digit_byte n).2]
      omega

theorem length_itoaFill_le {k : ℕ} (bound : n < 10 ^ (k + 1)) :
    (itoaFill n).length ≤ k + 1 := by
  induction k generalizing n with
  | zero =>
      rw [itoaFill, if_pos (by omega)]
      exact le_rfl
  | succ k ih =>
      rw [itoaFill]
      split
      · exact Nat.le_add_left 1 _
      · rw [List.length_cons]
        have shorter : n / 10 < 10 ^ (k + 1) := by
          rw [pow_succ] at bound
          omega
        exact Nat.succ_le_succ (ih shorter)

end Itoa

section Atoui

variable {c : UInt8}

theorem outside_digits_iff : (c < 48 ∨ c > 57) ↔ ¬IsDigit c := by
  unfold IsDigit
  rw [not_and_or, not_le, not_le]

theorem atouiUnsigned_eq (u : ℕ) (k : Bytes) :
    atouiUnsigned (UInt32.ofNat u) k = UInt32.ofNat (value u (leading k)) := by
  induction k generalizing u with
  | nil => rfl
  | cons c rest ih =>
      rw [atouiUnsigned]
      by_cases isDigit : IsDigit c
      · have step : UInt32.ofNat u * 10 + (c.toUInt32 - 48) = UInt32.ofNat (u * 10 + digit c) := by
          have bounds := isDigit.le
          have size : c.toUInt32.toNat = c.toNat := UInt8.toNat_toUInt32 c
          have least : (48 : UInt32).toNat = 48 := rfl
          have sub : (c.toUInt32 - 48).toNat = c.toNat - 48 := by
            rw [UInt32.toNat_sub_of_le _ _ (UInt32.le_iff_toNat_le.mpr (by omega)), size, least]
          have converted : c.toUInt32 - 48 = UInt32.ofNat (c.toNat - 48) := by
            rw [← sub, UInt32.ofNat_toNat]
          rw [converted, digit, UInt32.ofNat_add, UInt32.ofNat_mul]
          rfl
        rw [if_neg (outside_digits_iff.not_left.mpr isDigit), step, ih, leading_cons isDigit,
          value_cons]
      · rw [if_pos (outside_digits_iff.mpr isDigit), leading_cons_of_not isDigit, value_nil]

theorem intResult_natCast (n : ℕ) :
    intResult n = if n ≤ intMax then some (n : ℤ) else none := by
  unfold intResult
  split
  · rw [if_pos (by omega)]
  · rw [if_neg (by omega)]

/-- With an `int` there is a number as long as it does not exceed `INT_MAX`. -/
theorem atouiInt_eq {u : ℕ} (fits : u ≤ intMax) (k : Bytes) : atouiInt u k =
    if value u (leading k) ≤ intMax then some (value u (leading k) : ℤ) else none := by
  induction k generalizing u with
  | nil =>
      rw [leading_nil, value_nil, if_pos fits]
      rfl
  | cons c rest ih =>
      rw [atouiInt]
      by_cases isDigit : IsDigit c
      · have bounds := isDigit.le
        have more := le_value (u * 10 + digit c) (leading rest)
        have tens : (u : ℤ) * 10 = ((u * 10 : ℕ) : ℤ) := by omega
        have sum : ((u * 10 : ℕ) : ℤ) + ((c.toNat : ℤ) - 48) =
            ((u * 10 + digit c : ℕ) : ℤ) := by
          unfold digit
          omega
        rw [if_neg (outside_digits_iff.not_left.mpr isDigit), leading_cons isDigit, value_cons,
          tens, intResult_natCast]
        by_cases tensFit : u * 10 ≤ intMax
        · rw [if_pos tensFit]
          dsimp only
          rw [sum, intResult_natCast]
          by_cases sumFits : u * 10 + digit c ≤ intMax
          · rw [if_pos sumFits]
            exact ih sumFits
          · rw [if_neg sumFits, if_neg (by omega)]
        · rw [if_neg tensFit, if_neg (by omega)]
      · rw [if_pos (outside_digits_iff.mpr isDigit), leading_cons_of_not isDigit, value_nil,
          if_pos fits]

theorem intOfValue_of_ne {k : Bytes} (unsigned : byteAt k 0 ≠ 45) : intOfValue k =
    if value 0 (leading k) ≤ intMax then some (value 0 (leading k) : ℤ) else none := by
  rw [intOfValue, if_neg unsigned]
  exact atouiInt_eq (Nat.zero_le _) k

theorem intOfValue_minus (k : Bytes) : intOfValue (45 :: k) =
    if value 0 (leading k) ≤ intMax then some (-(value 0 (leading k) : ℤ)) else none := by
  have minus : byteAt (45 :: k) 0 = 45 := rfl
  have number : atouiInt 0 ((45 :: k).drop 1) =
      if value 0 (leading k) ≤ intMax then some (value 0 (leading k) : ℤ) else none :=
    atouiInt_eq (Nat.zero_le _) k
  rw [intOfValue, if_pos minus, number]
  by_cases fits : value 0 (leading k) ≤ intMax
  · rw [if_pos fits, if_pos fits]
    exact if_pos (by omega)
  · rw [if_neg fits, if_neg fits]

end Atoui

section Load

variable {digits : Bytes} {c : UInt8}

/-- The statement `key value;` -/
def plainStatement (key value : Bytes) : Bytes :=
  key ++ Ascii.space :: (value ++ [Ascii.semicolon])

/-- The bytes of a number are digits and the minus sign. -/
def NumberByte (c : UInt8) : Prop :=
  c = 45 ∨ IsDigit c

theorem numberByte_ne (isNumber : NumberByte c) {other : UInt8} (differs : other ≠ 45)
    (outside : other.toNat < 48 ∨ 57 < other.toNat) : c ≠ other := by
  rintro rfl
  rcases isNumber with isMinus | isDigit
  · exact differs isMinus
  · have bounds := isDigit.le
    omega

/-- A byte that a value may begin with and may have inside. -/
def ValueByte (c : UInt8) : Prop :=
  c ∉ [nul, Ascii.space, Ascii.tab, Ascii.quote, Ascii.atSign, Ascii.carriageReturn,
    Ascii.newline, Ascii.semicolon]

/-- Loading the statement of such a value binds the key to it. -/
theorem loads_value {value : Bytes} (config : Config) (key : Key) (nonempty : value ≠ [])
    (bytes : ∀ c ∈ value, ValueByte c) :
    ∃ loaded : Config,
      (∀ result, Loads ample config (plainStatement key.bytes value) result ↔
        result = ⟨OK, loaded, none⟩) ∧ loaded.data.find? key.bytes = some (some value) := by
  rcases List.exists_cons_of_ne_nil nonempty with ⟨first, rest, rfl⟩
  have free : NulFree (first :: rest) := by
    intro isNul
    exact bytes nul isNul List.mem_cons_self
  have isFirst := bytes first List.mem_cons_self
  have opens : first ≠ Ascii.space ∧ first ≠ Ascii.tab ∧ first ≠ Ascii.quote ∧
      first ≠ Ascii.atSign ∧ first ≠ Ascii.carriageReturn ∧ first ≠ Ascii.newline := by
    simp only [ValueByte, List.mem_cons, not_or] at isFirst
    tauto
  have inside : Inside rest := by
    intro c isByte
    have isValue := bytes c (List.mem_cons_of_mem _ isByte)
    simp only [ValueByte, List.mem_cons, not_or] at isValue
    tauto
  have text : (Item.plain key oneSpace ⟨first, rest, opens, inside⟩).bytes =
      plainStatement key.bytes (first :: rest) := by
    simp [Item.bytes, Fragment.bytes, plainStatement, oneSpace]
  have textFree : NulFree (plainStatement key.bytes (first :: rest)) := by
    simp only [plainStatement, nulFree_append, nulFree_cons, nulFree_nil,
      nulFree_of_achar key.allowed, nulFree_cons.mp free, ne_eq, not_false_eq_true]
    decide
  refine ⟨{ config.begin (plainStatement key.bytes (first :: rest)) with
    data := config.data.insert key.bytes (some (first :: rest)) }, ?_, ?_⟩
  · intro result
    rw [← text, Item.loads_iff _ (text ▸ textFree), text]
    simp [Item.stmts]
  · simp

/-- Loading the statement of a number binds the key to it. -/
theorem loads_number (config : Config) (key : Key) (nonempty : digits ≠ [])
    (numbers : ∀ c ∈ digits, NumberByte c) :
    ∃ loaded : Config,
      (∀ result, Loads ample config (plainStatement key.bytes digits) result ↔
        result = ⟨OK, loaded, none⟩) ∧ loaded.data.find? key.bytes = some (some digits) := by
  apply loads_value config key nonempty
  intro c isByte
  have isNumber := numbers c isByte
  simp only [ValueByte, List.mem_cons, not_or, List.not_mem_nil, not_false_eq_true, and_true]
  refine ⟨?_, ?_, ?_, ?_, ?_, ?_, ?_, ?_⟩
  all_goals exact numberByte_ne isNumber (by decide) (by decide)

theorem itoa_digits {n : ℕ} (isByte : c ∈ itoa [] n) : IsDigit c := by
  rw [itoa_eq, List.nil_append, List.mem_reverse] at isByte
  exact isDigit_of_mem_itoaFill isByte

theorem itoa_ne_nil (n : ℕ) : itoa [] n ≠ [] := by
  rw [itoa_eq, List.nil_append, itoaFill]
  split <;> simp

theorem byteAt_itoa_ne (n : ℕ) : byteAt (itoa [] n) 0 ≠ 45 := by
  rcases List.exists_cons_of_ne_nil (itoa_ne_nil n) with ⟨first, rest, split⟩
  have isDigit : IsDigit first := itoa_digits (n := n) (split ▸ List.mem_cons_self)
  rw [split]
  intro isMinus
  have same : first = 45 := isMinus
  rw [same] at isDigit
  exact absurd isDigit (by decide)

theorem value_leading_itoa (n : ℕ) : value 0 (leading (itoa [] n)) = n := by
  rw [leading_eq_self fun c isByte => itoa_digits isByte, itoa_eq, List.nil_append,
    value_itoaFill]

/-- A number that `itoa` has written fits its buffer, and is read back from a loaded statement: any
`unsigned int` with `config_get_uint`, and with `config_get_int` any `int` that is not negative,
and its negative with a minus sign before it. -/
theorem number_loads (config : Config) (key : Key) {n : ℕ} (bound : n < 2 ^ 32) :
    ((itoaFill n).length ≤ itoaBufSize ∧ (itoa [] n).length ≤ itoaBufSize) ∧
      (∃ loaded : Config, (∀ result,
          Loads ample config (plainStatement key.bytes (itoa [] n)) result ↔
            result = ⟨OK, loaded, none⟩) ∧
        (∀ default, configGetUint loaded key.bytes default = some (UInt32.ofNat n)) ∧
        (n ≤ intMax → ∀ default, configGetInt loaded key.bytes default = some (n : ℤ))) ∧
      (n ≤ intMax → ∃ loaded : Config, (∀ result,
          Loads ample config (plainStatement key.bytes (45 :: itoa [] n)) result ↔
            result = ⟨OK, loaded, none⟩) ∧
        ∀ default, configGetInt loaded key.bytes default = some (-(n : ℤ))) := by
  have fits : (itoaFill n).length ≤ itoaBufSize := by
    have digits : (itoaFill n).length ≤ 9 + 1 := length_itoaFill_le (by omega)
    exact digits.trans (by decide)
  refine ⟨⟨fits, ?_⟩, ?_, ?_⟩
  · rw [itoa_eq, List.nil_append, List.length_reverse]
    exact fits
  · rcases loads_number config key (itoa_ne_nil n)
      (fun c isByte => Or.inr (itoa_digits isByte)) with ⟨loaded, loads, stored⟩
    refine ⟨loaded, loads, ?_, ?_⟩
    · intro default
      rw [configGetUint, stored]
      dsimp only
      have number := atouiUnsigned_eq 0 (itoa [] n)
      rw [value_leading_itoa] at number
      exact congrArg some number
    · intro small default
      rw [configGetInt, stored]
      dsimp only
      rw [Option.bind_some, intOfValue_of_ne (byteAt_itoa_ne n), value_leading_itoa, if_pos small]
  · intro small
    have numbers : ∀ c ∈ 45 :: itoa [] n, NumberByte c :=
      List.forall_mem_cons.mpr ⟨Or.inl rfl, fun c isByte => Or.inr (itoa_digits isByte)⟩
    rcases loads_number config key (List.cons_ne_nil _ _) numbers with ⟨loaded, loads, stored⟩
    refine ⟨loaded, loads, ?_⟩
    intro default
    rw [configGetInt, stored]
    dsimp only
    rw [Option.bind_some, intOfValue_minus, value_leading_itoa, if_pos small]

/-- `INT_MAX` after `a`, with a minus sign and without. -/
theorem number_loads_intMax :
    (∃ loaded : Config, (∀ result,
        Loads ample Config.new (plainStatement [97] (itoa [] 2147483647)) result ↔
          result = ⟨OK, loaded, none⟩) ∧
      configGetUint loaded [97] 0 = some 2147483647 ∧
      configGetInt loaded [97] 0 = some 2147483647) ∧
    ∃ loaded : Config, (∀ result,
        Loads ample Config.new (plainStatement [97] (45 :: itoa [] 2147483647)) result ↔
          result = ⟨OK, loaded, none⟩) ∧ configGetInt loaded [97] 0 = some (-2147483647) := by
  have isInt : 2147483647 ≤ intMax := le_rfl
  rcases @number_loads Config.new ⟨[97], by decide, by decide, by decide⟩ 2147483647 (by decide)
    with ⟨-, ⟨loaded, loads, unsigned, signed⟩, negative⟩
  rcases negative isInt with ⟨minusLoaded, minusLoads, minus⟩
  exact ⟨⟨loaded, loads, unsigned 0, signed isInt 0⟩, minusLoaded, minusLoads, minus 0⟩

end Load

section Range

/-- What `config_get_int` gives to `atoui`. -/
def unsignedPart (k : Bytes) : Bytes :=
  if byteAt k 0 = 45 then k.drop 1 else k

theorem intOfValue_ne_none_iff (k : Bytes) :
    intOfValue k ≠ none ↔ value 0 (leading (unsignedPart k)) ≤ intMax := by
  by_cases minus : byteAt k 0 = 45
  · obtain ⟨rest, split⟩ : ∃ rest : Bytes, k = 45 :: rest := by
      cases k with
      | nil => exact absurd minus (by decide)
      | cons first rest =>
          have isMinus : first = 45 := minus
          exact ⟨rest, by rw [isMinus]⟩
    subst split
    rw [unsignedPart, if_pos minus, intOfValue_minus, List.drop_one, List.tail_cons]
    by_cases fits : value 0 (leading rest) ≤ intMax
    · simp [fits]
    · simp [fits]
  · rw [unsignedPart, if_neg minus, intOfValue_of_ne minus]
    by_cases fits : value 0 (leading k) ≤ intMax
    · simp [fits]
    · simp [fits]

/-- For a value that is stored, no operation of `config_get_int` leaves the range of `int` when and
only when the digits at the start, behind a minus sign, make no number above `INT_MAX`. -/
theorem configGetInt_defined_iff {config : Config} {key k : Bytes} {default : ℤ}
    (stored : config.data.find? key = some (some k)) :
    configGetInt config key default ≠ none ↔
      value 0 (leading (unsignedPart k)) ≤ intMax := by
  rw [configGetInt, stored]
  dsimp only
  rw [Option.bind_some, intOfValue_ne_none_iff]

theorem configGetInt_defined_seven :
    configGetInt ⟨(∅ : Store).insert [97] (some [55, 120]), 0, none⟩ [97] 0 ≠ none ↔
      value 0 (leading (unsignedPart [55, 120])) ≤ intMax :=
  configGetInt_defined_iff (by decide)

/-- The text of `INT_MAX + 1`, and that of `INT_MIN`. -/
theorem configGetInt_overflows :
    (∃ loaded, Loads ample Config.new
        [97, 32, 50, 49, 52, 55, 52, 56, 51, 54, 52, 56, 59] loaded ∧ loaded.ret = OK ∧
      configGetInt loaded.config [97] 0 = none) ∧
    ∃ loaded, Loads ample Config.new
        [97, 32, 45, 50, 49, 52, 55, 52, 56, 51, 54, 52, 56, 59] loaded ∧ loaded.ret = OK ∧
      configGetInt loaded.config [97] 0 = none := by
  constructor
  · exact ⟨⟨OK, ⟨(∅ : Store).insert [97] (some [50, 49, 52, 55, 52, 56, 51, 54, 52, 56]), 0,
      some [97, 32, 50, 49, 52, 55, 52, 56, 51, 54, 52, 56, 59]⟩, none⟩, ⟨20, rfl⟩, rfl, by decide⟩
  · exact ⟨⟨OK, ⟨(∅ : Store).insert [97] (some [45, 50, 49, 52, 55, 52, 56, 51, 54, 52, 56]), 0,
      some [97, 32, 45, 50, 49, 52, 55, 52, 56, 51, 54, 52, 56, 59]⟩, none⟩, ⟨20, rfl⟩, rfl,
      by decide⟩

end Range

end Libhelp

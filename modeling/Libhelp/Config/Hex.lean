import Libhelp.Config.Number
import Libhelp.Lib.Strtol

/-!
# Hexadecimal numbers in configuration texts

The model of `config_get_hex` and `config_get_bool`.  A number written in hexadecimal
digits, with `0x` before them or without, and with a minus sign if it is negative, can be
loaded as the value of a key.  It is read back as it was exactly when it is an `int`:
`strtol` gives the nearest `long`, of which only the low half is returned.
-/

namespace Libhelp

open CString Strtol

/-- `config_get_hex`, which has no result when it reads through `NULL`. -/
def configGetHex (config : Config) (key : Bytes) (default : ℤ) : Option ℤ :=
  match config.data.find? key with
  | none => some default
  | some pw => pw.map fun k => toInt (strtol 16 k)

/-- `config_get_bool`, which has no result when it reads through `NULL`. -/
def configGetBool (config : Config) (key : Bytes) (default : ℤ) : Option ℤ :=
  match config.data.find? key with
  | none => some default
  | some pw => pw.map fun k =>
      -- `y`, `e`, `s`, and the end of the string
      if byteAt k 0 = 121 ∧ byteAt k 1 = 101 ∧ byteAt k 2 = 115 ∧ byteAt k 3 = nul then 1 else 0

/-- A number in hexadecimal digits behind a prefix. -/
def hexText (pre : Bytes) (x : ℤ) : Bytes :=
  if x < 0 then 45 :: (pre ++ numeral 16 x.natAbs) else pre ++ numeral 16 x.natAbs

section Text

variable {pre value : Bytes} {c : UInt8} {x : ℤ}

theorem valueByte_hexText (isPrefix : IsPrefix 16 pre) (isByte : c ∈ hexText pre x) :
    ValueByte c := by
  have digits : ∀ d < 16, ValueByte (digitByte d) := by
    unfold ValueByte
    decide
  have isPre : ∀ {c}, c ∈ pre → ValueByte c := by
    intro c isPre
    rcases isPrefix with rfl | ⟨-, rfl | rfl⟩
    · cases isPre
    · simp only [List.mem_cons, List.not_mem_nil, or_false] at isPre
      rcases isPre with rfl | rfl
      · exact digits 0 (by decide)
      · unfold ValueByte
        decide
    · simp only [List.mem_cons, List.not_mem_nil, or_false] at isPre
      rcases isPre with rfl | rfl
      · exact digits 0 (by decide)
      · unfold ValueByte
        decide
  have isNumeral : ∀ {n}, c ∈ pre ++ numeral 16 n → ValueByte c := by
    intro n isByte
    rcases List.mem_append.mp isByte with isByte | isDigit
    · exact isPre isByte
    · rcases exists_digit_of_mem_numeral (by decide) isDigit with ⟨d, valid, rfl⟩
      exact digits d valid
  unfold hexText at isByte
  split at isByte
  · rcases List.mem_cons.mp isByte with rfl | isByte
    · unfold ValueByte
      decide
    · exact isNumeral isByte
  · exact isNumeral isByte

theorem hexText_ne_nil (pre : Bytes) (x : ℤ) : hexText pre x ≠ [] := by
  unfold hexText
  split
  · exact List.cons_ne_nil _ _
  · exact List.append_ne_nil_of_right_ne_nil _ (numeral_ne_nil _ _)

theorem strtol_hexText (isPrefix : IsPrefix 16 pre) (x : ℤ) :
    strtol 16 (hexText pre x) = clamp x := by
  unfold hexText
  split
  case isTrue negative =>
    rw [strtol_negative (by decide) (by decide) isPrefix]
    congr 1
    omega
  case isFalse positive =>
    rw [strtol_positive (by decide) (by decide) isPrefix]
    congr 1
    omega

/-- A hexadecimal number is loaded as the value of a key, and `config_get_hex` gives it back
exactly when it is an `int`. -/
theorem hex_loads (config : Config) (key : Key) (isPrefix : IsPrefix 16 pre) (x : ℤ) :
    ∃ loaded : Config,
      (∀ result, Loads ample config (plainStatement key.bytes (hexText pre x)) result ↔
        result = ⟨OK, loaded, none⟩) ∧
      ∀ default, configGetHex loaded key.bytes default = some x ↔
        -2147483648 ≤ x ∧ x ≤ 2147483647 := by
  rcases loads_value config key (hexText_ne_nil pre x)
    (fun c isByte => valueByte_hexText isPrefix isByte) with ⟨loaded, loads, stored⟩
  refine ⟨loaded, loads, fun default => ?_⟩
  rw [configGetHex, stored, ← toInt_clamp_iff, ← strtol_hexText isPrefix x]
  exact Option.some_inj

theorem hex_loads_byte : ∃ loaded : Config,
    (∀ result, Loads ample Config.new (plainStatement [97] (hexText [48, 120] 255)) result ↔
      result = ⟨OK, loaded, none⟩) ∧ configGetHex loaded [97] 0 = some 255 := by
  rcases @hex_loads [48, 120] Config.new ⟨[97], by decide, by decide, by decide⟩
    (.inr ⟨rfl, .inl rfl⟩) 255 with ⟨loaded, loads, reads⟩
  exact ⟨loaded, loads, (reads 0).mpr (by decide)⟩

/-- Of the values that can be written without quotes, `config_get_bool` takes `yes` for true. -/
theorem bool_loads (config : Config) (key : Key) (nonempty : value ≠ [])
    (bytes : ∀ c ∈ value, ValueByte c) : ∃ loaded : Config,
      (∀ result, Loads ample config (plainStatement key.bytes value) result ↔
        result = ⟨OK, loaded, none⟩) ∧
      ∀ default, configGetBool loaded key.bytes default =
        some (if value = ascii "yes" then 1 else 0) := by
  rcases loads_value config key nonempty bytes with ⟨loaded, loads, stored⟩
  refine ⟨loaded, loads, fun default => ?_⟩
  have isYes : (byteAt value 0 = 121 ∧ byteAt value 1 = 101 ∧ byteAt value 2 = 115 ∧
      byteAt value 3 = nul) ↔ value = ascii "yes" := by
    have notNul : ∀ c ∈ value, c ≠ nul := by
      intro c isByte isNul
      exact bytes c isByte (isNul ▸ List.mem_cons_self)
    constructor
    · rintro ⟨isY, isE, isS, ends⟩
      rcases value with _ | ⟨y, _ | ⟨e, _ | ⟨s, _ | ⟨c, rest⟩⟩⟩⟩
      · exact absurd rfl nonempty
      · exact absurd isE (show nul ≠ 101 by decide)
      · exact absurd isS (show nul ≠ 115 by decide)
      · have bytesAre : y = 121 ∧ e = 101 ∧ s = 115 := ⟨isY, isE, isS⟩
        rcases bytesAre with ⟨rfl, rfl, rfl⟩
        rfl
      · exact absurd ends (notNul c (by simp))
    · rintro rfl
      decide
  rw [configGetBool, stored]
  simp only [Option.map_some, isYes]

end Text

end Libhelp

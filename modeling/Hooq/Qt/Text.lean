import Mathlib.Data.List.Basic
import Hooq.Library.Decimal

/-!
# Strings and their numbers

`QString` is a sequence of UTF-16 code units.  Only the members that the
program relies on are here: decimal formatting and parsing of C++ `int` and
`ushort` values.
-/

namespace Hooq

/-- A UTF-16 code unit. -/
abbrev QChar := UInt16

abbrev QString := List QChar

instance : LawfulBEq QString := inferInstance

namespace QString

/-- The code units of a string literal. -/
def ofString (literal : String) : QString :=
  literal.toList.flatMap fun character =>
    if character.toNat < 0x10000 then
      [character.toNat.toUInt16]
    else
      [(0xD7C0 + character.toNat / 0x400).toUInt16, (0xDC00 + character.toNat % 0x400).toUInt16]

instance : Coe String QString := ⟨ofString⟩

/-- `QChar::isSpace`. -/
def isSpace (character : QChar) : Bool :=
  (9 ≤ character && character ≤ 13) || character = 0x20 || character = 0xA0 ||
    character = 0x1680 || character = 0x180E || (0x2000 ≤ character && character ≤ 0x200A) ||
    character = 0x2028 || character = 0x2029 || character = 0x202F ||
    character = 0x205F || character = 0x3000

/-- Leading and trailing white space is skipped when a number is read. -/
def trimmed (text : QString) : QString :=
  ((text.dropWhile isSpace).reverse.dropWhile isSpace).reverse

def isDigit (character : QChar) : Bool :=
  48 ≤ character && character ≤ 57

def digitOf (digit : Nat) : QChar :=
  (48 + digit).toUInt16

def digitValue (character : QChar) : Nat :=
  character.toNat - 48

def minus : QChar := 45

def plus : QChar := 43

/-- An unsigned decimal numeral. -/
def parseDigits (text : QString) : Option Nat :=
  if text ≠ [] ∧ text.all isDigit then
    some (Library.Decimal.value (text.map digitValue))
  else
    none

/-- The number that a text denotes, whatever its size. -/
def toInteger (text : QString) : Option Int :=
  match trimmed text with
  | [] => none
  | first :: rest =>
      if first = minus then
        (parseDigits rest).map fun magnitude : Nat => -(magnitude : Int)
      else if first = plus then
        (parseDigits rest).map fun magnitude : Nat => (magnitude : Int)
      else
        (parseDigits (first :: rest)).map fun magnitude : Nat => (magnitude : Int)

/-- `QString::toInt`: zero when the text is no number or does not fit. -/
def toInt (text : QString) : Int32 :=
  match toInteger text with
  | some value => if -2 ^ 31 ≤ value ∧ value < 2 ^ 31 then Int32.ofInt value else 0
  | none => 0

/-- `QString::toUShort`. -/
def toUShort (text : QString) : UInt16 :=
  match toInteger text with
  | some value => if 0 ≤ value ∧ value < 2 ^ 16 then UInt16.ofNat value.toNat else 0
  | none => 0

/-- `QString::number`. -/
def number (value : Int) : QString :=
  let magnitude := (Library.Decimal.digits value.natAbs).map digitOf
  if value < 0 then minus :: magnitude else magnitude

theorem digitOf_spec {digit : Nat} (small : digit < 10) :
    isDigit (digitOf digit) = true ∧ isSpace (digitOf digit) = false ∧
      digitValue (digitOf digit) = digit ∧ digitOf digit ≠ minus ∧ digitOf digit ≠ plus := by
  revert digit
  decide

theorem trimmed_of_no_space {text : QString} (solid : ∀ character ∈ text, isSpace character = false) :
    trimmed text = text := by
  have keeps : ∀ text : QString, (∀ character ∈ text, isSpace character = false) →
      text.dropWhile isSpace = text := by
    intro text solid
    cases text with
    | nil => rfl
    | cons first rest => simp [solid first (by simp)]
  rw [trimmed, keeps text solid, keeps text.reverse (by simpa using solid), List.reverse_reverse]

theorem parseDigits_digits (magnitude : Nat) :
    parseDigits ((Library.Decimal.digits magnitude).map digitOf) = some magnitude := by
  have nonempty : (Library.Decimal.digits magnitude).map digitOf ≠ [] := by
    simpa using Library.Decimal.digits_ne_nil magnitude
  have areDigits : ((Library.Decimal.digits magnitude).map digitOf).all isDigit = true := by
    simp only [List.all_map, List.all_eq_true]
    exact fun digit member => (digitOf_spec (Library.Decimal.digits_lt_ten member)).1
  have values : ((Library.Decimal.digits magnitude).map digitOf).map digitValue =
      Library.Decimal.digits magnitude := by
    rw [List.map_map]
    calc (Library.Decimal.digits magnitude).map (digitValue ∘ digitOf)
      _ = (Library.Decimal.digits magnitude).map id :=
          List.map_congr_left fun digit member =>
            (digitOf_spec (Library.Decimal.digits_lt_ten member)).2.2.1
      _ = Library.Decimal.digits magnitude := List.map_id _
  rw [parseDigits, if_pos ⟨nonempty, areDigits⟩, values, Library.Decimal.value_digits]

theorem isSpace_of_mem_digits {magnitude : Nat} {character : QChar}
    (member : character ∈ (Library.Decimal.digits magnitude).map digitOf) :
    isSpace character = false := by
  obtain ⟨digit, digitMember, rfl⟩ := List.mem_map.mp member
  exact (digitOf_spec (Library.Decimal.digits_lt_ten digitMember)).2.1

/-- Parsing undoes formatting, for every integer. -/
theorem toInteger_number (value : Int) : toInteger (number value) = some value := by
  have digitsParse := parseDigits_digits value.natAbs
  rw [number, toInteger]
  by_cases negative : value < 0
  · have solid : ∀ character ∈ minus :: (Library.Decimal.digits value.natAbs).map digitOf,
        isSpace character = false := by
      intro character member
      rcases List.mem_cons.mp member with rfl | member
      · decide
      · exact isSpace_of_mem_digits member
    simp only [negative, ↓reduceIte, trimmed_of_no_space solid, digitsParse, Option.map_some,
      Option.some.injEq]
    omega
  · have solid : ∀ character ∈ (Library.Decimal.digits value.natAbs).map digitOf,
        isSpace character = false := fun _ => isSpace_of_mem_digits
    simp only [negative, if_false, trimmed_of_no_space solid]
    cases shape : (Library.Decimal.digits value.natAbs).map digitOf with
    | nil => simp [Library.Decimal.digits_ne_nil] at shape
    | cons first rest =>
        obtain ⟨digit, member, rfl⟩ : ∃ digit ∈ Library.Decimal.digits value.natAbs,
            digitOf digit = first := by
          apply List.mem_map.mp
          simp [shape]
        have spec := digitOf_spec (Library.Decimal.digits_lt_ten member)
        rw [shape] at digitsParse
        simp only [spec.2.2.2.1, spec.2.2.2.2, if_false, digitsParse, Option.map_some,
          Option.some.injEq]
        omega

theorem number_injective : Function.Injective number := by
  intro first second same
  have values := congrArg toInteger same
  rw [toInteger_number, toInteger_number] at values
  exact Option.some.inj values

theorem isDigit_of_mem_number {count : Nat} {character : QChar}
    (member : character ∈ number count) : isDigit character = true := by
  rw [number, if_neg (by omega)] at member
  obtain ⟨digit, isMember, rfl⟩ := List.mem_map.mp member
  exact (digitOf_spec (Library.Decimal.digits_lt_ten isMember)).1

/-- Every C++ `int` survives being written and read back. -/
@[simp] theorem toInt_number (value : Int32) : toInt (number value.toInt) = value := by
  rw [toInt, toInteger_number]
  simp only [value.le_toInt, value.toInt_lt, and_self, if_true, Int32.ofInt_toInt]

/-- Every C++ `ushort` survives being written and read back. -/
@[simp] theorem toUShort_number (value : UInt16) : toUShort (number value.toNat) = value := by
  have bound : (value.toNat : Int) < 2 ^ 16 := by
    exact_mod_cast value.toNat_lt
  rw [toUShort, toInteger_number]
  simp only [Int.natCast_nonneg, bound, and_self, if_true, Int.toNat_natCast, UInt16.ofNat_toNat]

end QString

end Hooq

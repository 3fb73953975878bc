import Hooq.Control.Replies
import Hooq.Library.Tokens
import Hooq.Qt.Refills
import Hooq.Script.Statements

/-!
# Assertions about properties

The statement that compares a property of an object with the value it had when the object
was picked.  Path, name and value are put into a template, and only the value is escaped.
-/

namespace Hooq

open Library.StringLiteral

namespace ScriptEditor

section

variable (tables : CharacterTables) {Double : Type}

/-- `escapeValue`.  There is no text for a double. -/
def escapeValue : PropertyValue Double → QString
  | .bool value => if value then "true" else "false"
  | .int value => QString.number value.toInt
  | .string value => tables.arg "\"%1\"" (escapeString value)
  | .double _ => []

/-- The text that `insertPropertyAssert` inserts. -/
def propertyAssert (objectPath property : QString) (value : PropertyValue Double) : QString :=
  tables.arg
    (tables.arg
      (tables.arg "compare(objectFromPath(\"%1\").property(\"%2\"), %3);\n" objectPath)
      property)
    (escapeValue tables value)

/-! ## What the statement is to say -/

/-- A decimal integer, perhaps behind a minus sign.  With a zero in front of other digits it
would be read in another base. -/
def IsInteger (text : QString) (value : Int) : Prop :=
  ∃ digits, ∃ magnitude : Nat, QString.parseDigits digits = some magnitude ∧
    (digits.head? = some 48 → digits.length = 1) ∧
    (text = digits ∧ value = magnitude ∨ text = QString.minus :: digits ∧ value = -magnitude)

/-- What the numerals of doubles are made of. -/
def isNumeric (character : QChar) : Bool :=
  Library.Expression.isLetter character || QString.isDigit character ||
    character ∈ [QString.minus, QString.plus, 46]

/-- The text is the value in a script.  The function reads the numerals of doubles. -/
def IsValue (toDouble : QString → Double) (text : QString) : PropertyValue Double → Prop
  | .bool value => text = if value then "true" else "false"
  | .int value => IsInteger text value.toInt
  | .string value => tables.IsLiteral text value
  | .double value =>
      text ≠ [] ∧ (∀ character ∈ text, isNumeric character = true) ∧ toDouble text = value

/-- The statement compares the property of the object at the path with the value. -/
def Compares (toDouble : QString → Double) (statement path property : QString)
    (value : PropertyValue Double) : Prop :=
  ∃ pathText propertyText valueText, statement =
      QString.ofString "compare(objectFromPath(" ++ (pathText ++
        (QString.ofString ").property(" ++ (propertyText ++
          (QString.ofString "), " ++ (valueText ++ QString.ofString ");"))))) ∧
    tables.IsLiteral pathText path ∧ tables.IsLiteral propertyText property ∧
    IsValue tables toDouble valueText value

end

/-! ## The template -/

/-- What stands in front of the path. -/
def opened : QString := "compare(objectFromPath(\""

/-- What stands between the path and the name, behind the quote. -/
def member : QString := ").property(\""

/-- What stands in front of the value, behind the quote. -/
def comparand : QString := "), "

def assertion (path property value : QString) : QString :=
  opened ++ (path ++ quote :: (member ++ (property ++ quote :: (comparand ++
    (value ++ [41, 59])))))

theorem template_eq : QString.ofString "compare(objectFromPath(\"%1\").property(\"%2\"), %3);\n" =
    assertion (CharacterTables.place 1) (CharacterTables.place 2) (CharacterTables.place 3) ++
      [10] := by
  decide

variable (tables : CharacterTables)

theorem fill_assertion (number : Nat) (inserted path property value : QString) :
    tables.fill number inserted (assertion path property value ++ [10]) =
      assertion (tables.fill number inserted path) (tables.fill number inserted property)
        (tables.fill number inserted value) ++ [10] := by
  simp only [assertion, List.append_assoc, List.cons_append, List.nil_append]
  rw [tables.fill_inert (by decide), tables.stops_quote.fill, tables.fill_cons_of_ne (by decide),
    tables.fill_inert (by decide), tables.stops_quote.fill, tables.fill_cons_of_ne (by decide),
    tables.fill_inert (by decide), tables.stops_close.fill, tables.fill_cons_of_ne (by decide),
    tables.fill_cons_of_ne (by decide), tables.fill_cons_of_ne (by decide)]
  rfl

theorem markers_assertion (path property value : QString) :
    tables.markers (assertion path property value ++ [10]) =
      tables.markers path ++ (tables.markers property ++ tables.markers value) := by
  simp only [assertion, List.append_assoc, List.cons_append, List.nil_append]
  rw [tables.markers_inert (by decide), tables.stops_quote.markers,
    tables.markers_cons_of_ne (by decide), tables.markers_inert (by decide),
    tables.stops_quote.markers, tables.markers_cons_of_ne (by decide),
    tables.markers_inert (by decide), tables.stops_close.markers,
    tables.markers_cons_of_ne (by decide), tables.markers_cons_of_ne (by decide),
    tables.markers_cons_of_ne (by decide)]
  exact congrArg (_ ++ ·) (congrArg (_ ++ ·) (List.append_nil _))

theorem arg_path (path : QString) :
    tables.arg (QString.ofString "compare(objectFromPath(\"%1\").property(\"%2\"), %3);\n") path =
      assertion path (CharacterTables.place 2) (CharacterTables.place 3) ++ [10] := by
  have numbers : tables.markers (assertion (CharacterTables.place 1) (CharacterTables.place 2)
      (CharacterTables.place 3) ++ [10]) = [1, 2, 3] := by
    rw [markers_assertion, tables.markers_place (by decide), tables.markers_place (by decide),
      tables.markers_place (by decide)]
    rfl
  have lowest : ∀ other ∈ tables.markers (assertion (CharacterTables.place 1)
      (CharacterTables.place 2) (CharacterTables.place 3) ++ [10]), 1 ≤ other := by
    rw [numbers]
    decide
  rw [template_eq, tables.arg_eq_fill (by rw [numbers]; exact List.mem_cons_self) lowest,
    fill_assertion, tables.fill_place_self (by decide),
    tables.fill_place_of_ne (by decide) (by decide),
    tables.fill_place_of_ne (by decide) (by decide)]

/-- Neither a call of `arg` nor a literal changes the text. -/
structure IsInert (text : QString) : Prop where
  verbatim : ∀ character ∈ text, tables.isVerbatim character = true
  high : ∀ number ∈ tables.markers text, 3 < number

variable {Double : Type}

theorem propertyAssert_of_isInert {path property : QString} (pathInert : IsInert tables path)
    (propertyInert : IsInert tables property) (value : PropertyValue Double) :
    propertyAssert tables path property value =
      assertion path property (escapeValue tables value) ++ [10] := by
  have absent : ∀ {text : QString}, IsInert tables text → ∀ low ≤ 3, low ∉ tables.markers text :=
    fun inert low isLow member => absurd (inert.high low member) (Nat.not_lt_of_le isLow)
  have first : tables.markers (assertion path (CharacterTables.place 2) (CharacterTables.place 3) ++
      [10]) = tables.markers path ++ [2, 3] := by
    rw [markers_assertion, tables.markers_place (by decide), tables.markers_place (by decide)]
    rfl
  have second : tables.markers (assertion path property (CharacterTables.place 3) ++ [10]) =
      tables.markers path ++ (tables.markers property ++ [3]) := by
    rw [markers_assertion, tables.markers_place (by decide)]
  have fillsTwo : tables.arg (assertion path (CharacterTables.place 2) (CharacterTables.place 3) ++
      [10]) property = assertion path property (CharacterTables.place 3) ++ [10] := by
    rw [tables.arg_eq_fill (show 2 ∈ _ by rw [first]; simp), fill_assertion,
      tables.fill_of_not_mem (absent pathInert 2 (by decide)), tables.fill_place_self (by decide),
      tables.fill_place_of_ne (by decide) (by decide)]
    rw [first]
    intro number member
    rcases List.mem_append.mp member with inPath | behind
    · have high := pathInert.high number inPath
      omega
    · simp only [List.mem_cons, List.not_mem_nil, or_false] at behind
      omega
  have fillsThree : tables.arg (assertion path property (CharacterTables.place 3) ++ [10])
      (escapeValue tables value) = assertion path property (escapeValue tables value) ++ [10] := by
    rw [tables.arg_eq_fill (show 3 ∈ _ by rw [second]; simp), fill_assertion,
      tables.fill_of_not_mem (absent pathInert 3 (by decide)),
      tables.fill_of_not_mem (absent propertyInert 3 (by decide)),
      tables.fill_place_self (by decide)]
    rw [second]
    intro number member
    rcases List.mem_append.mp member with inPath | behind
    · exact (pathInert.high number inPath).le
    · rcases List.mem_append.mp behind with inProperty | isThree
      · exact (propertyInert.high number inProperty).le
      · rw [List.mem_singleton.mp isThree]
  rw [propertyAssert, arg_path, fillsTwo, fillsThree]

/-- Whatever the markers are, the calls of `arg` fill the places of the template or others with
lower numbers. -/
structure Fills (first second : Nat) (path property : QString) : Prop where
  first_le : first ≤ 2
  second_le : second ≤ 3
  path_least : ∀ number ∈ tables.markers path, first ≤ number
  filled_least : ∀ number ∈ tables.markers (tables.fill first property path), second ≤ number
  place_least : ∀ number ∈ tables.markers
    (tables.fill first property (CharacterTables.place 2)), second ≤ number

theorem exists_fills (path property : QString) (value : PropertyValue Double) :
    ∃ first second, Fills tables first second path property ∧
      propertyAssert tables path property value =
        assertion
          (tables.fill second (escapeValue tables value) (tables.fill first property path))
          (tables.fill second (escapeValue tables value)
            (tables.fill first property (CharacterTables.place 2)))
          (tables.fill second (escapeValue tables value) (CharacterTables.place 3)) ++ [10] := by
  rcases tables.arg_cases (assertion path (CharacterTables.place 2) (CharacterTables.place 3) ++
    [10]) property with ⟨first, isFirst, lowest⟩
  rw [markers_assertion, tables.markers_place (by decide), tables.markers_place (by decide)]
    at lowest
  have firstLow : first ≤ 2 :=
    (lowest 2 (List.mem_append_right _ (List.mem_append_left _ (List.mem_singleton_self 2)))).2
  rw [fill_assertion, tables.fill_place_of_ne (show 3 < 10 by decide) (by omega)] at isFirst
  rcases tables.arg_cases (assertion (tables.fill first property path)
    (tables.fill first property (CharacterTables.place 2)) (CharacterTables.place 3) ++ [10])
    (escapeValue tables value) with ⟨second, isSecond, least⟩
  rw [markers_assertion, tables.markers_place (show 3 < 10 by decide)] at least
  refine ⟨first, second, ⟨firstLow, ?_, ?_, ?_, ?_⟩, ?_⟩
  · exact (least 3 (List.mem_append_right _ (List.mem_append_right _
      (List.mem_singleton_self 3)))).2
  · exact fun number member => (lowest number (List.mem_append_left _ member)).2
  · exact fun number member => (least number (List.mem_append_left _ member)).2
  · exact fun number member =>
      (least number (List.mem_append_right _ (List.mem_append_left _ member))).2
  · rw [propertyAssert, arg_path, isFirst, isSecond, fill_assertion]

/-! ## Texts of values -/

theorem isNumeric_spec {character : QChar} (numeric : isNumeric character = true) :
    character < 0x80 ∧ character ∉ [44, 0x25, quote, backslash] := by
  constructor
  · rw [isNumeric, Bool.or_eq_true, Bool.or_eq_true, decide_eq_true_eq] at numeric
    rcases numeric with (letter | digit) | sign
    · exact Library.Expression.lt_of_isLetter letter
    · exact Library.Expression.lt_of_isDecimalDigit digit
    · revert sign
      simp only [List.mem_cons, List.not_mem_nil, or_false]
      rintro (rfl | rfl | rfl) <;> decide
  · intro special
    simp only [List.mem_cons, List.not_mem_nil, or_false] at special
    rcases special with rfl | rfl | rfl | rfl <;> exact absurd numeric (by decide)

theorem isNumeric_of_isDigit {character : QChar} (digit : QString.isDigit character = true) :
    isNumeric character = true := by
  rw [isNumeric, digit, Bool.or_true, Bool.true_or]

theorem isNumeric_of_isInteger {text : QString} {value : Int} (isInteger : IsInteger text value) :
    text ≠ [] ∧ ∀ character ∈ text, isNumeric character = true := by
  rcases isInteger with ⟨digits, magnitude, parsed, _, shape⟩
  rw [QString.parseDigits] at parsed
  split at parsed
  next isNumeral =>
    have numeric : ∀ character ∈ digits, isNumeric character = true := fun character member =>
      isNumeric_of_isDigit (List.all_eq_true.mp isNumeral.2 character member)
    rcases shape with ⟨rfl, _⟩ | ⟨rfl, _⟩
    · exact ⟨isNumeral.1, numeric⟩
    · exact ⟨List.cons_ne_nil _ _, List.forall_mem_cons.mpr ⟨by decide, numeric⟩⟩
  next => cases parsed

theorem isInteger_number (value : Int) : IsInteger (QString.number value) value := by
  refine ⟨(Library.Decimal.digits value.natAbs).map QString.digitOf, value.natAbs,
    QString.parseDigits_digits _, ?_, ?_⟩
  · intro isZero
    rw [List.head?_map, Option.map_eq_some_iff] at isZero
    rcases isZero with ⟨digit, isFirst, same⟩
    have small := Library.Decimal.digits_lt_ten (List.mem_of_head? isFirst)
    have value := (QString.digitOf_spec small).2.2.1
    rw [same] at value
    rw [List.length_map]
    exact Library.Expression.digits_head? _ (isFirst.trans (congrArg some value.symm))
  · rw [QString.number]
    split
    · right
      exact ⟨rfl, by omega⟩
    · left
      exact ⟨rfl, by omega⟩

/-- The text of a value other than a string. -/
theorem isNumeric_of_isValue {toDouble : QString → Double} {text : QString}
    {value : PropertyValue Double} (noString : ∀ string, value ≠ .string string)
    (isValue : IsValue tables toDouble text value) :
    text ≠ [] ∧ ∀ character ∈ text, isNumeric character = true := by
  cases value with
  | bool value =>
      cases value
      · rw [show text = QString.ofString "false" from isValue]
        exact ⟨by decide, List.all_eq_true.mp (by decide)⟩
      · rw [show text = QString.ofString "true" from isValue]
        exact ⟨by decide, List.all_eq_true.mp (by decide)⟩
  | int value => exact isNumeric_of_isInteger isValue
  | string string => exact absurd rfl (noString string)
  | double value => exact ⟨isValue.1, isValue.2.1⟩

theorem escapeValue_string (string : QString) :
    escapeValue tables (.string string : PropertyValue Double) = literal string := by
  have template : QString.ofString "\"%1\"" = [quote] ++ (CharacterTables.place 1 ++ [quote]) := by
    decide
  rw [escapeValue, template]
  apply tables.arg_place tables.stops_quote (by decide)
  · intro number member
    rw [tables.markers_cons_of_ne (by decide)] at member
    cases member
  · intro number member
    rw [tables.markers_cons_of_ne (by decide)] at member
    cases member

/-- There is a text for the value, and a script reads it back. -/
def HasText : PropertyValue Double → Prop
  | .bool _ => True
  | .int _ => True
  | .string value => ∀ character ∈ value, tables.keeps character = true
  | .double _ => False

theorem isValue_escapeValue {value : PropertyValue Double} (hasText : HasText tables value)
    (toDouble : QString → Double) :
    IsValue tables toDouble (escapeValue tables value) value := by
  cases value with
  | bool value => cases value <;> exact Eq.refl (QString.ofString _)
  | int value => exact isInteger_number value.toInt
  | string string =>
      rw [escapeValue_string]
      exact isLiteral_literal tables hasText
  | double value => cases hasText

/-- What can stand in the place of a path, a name and a value. -/
structure IsComparable (path property : QString) (value : PropertyValue Double) : Prop where
  path : IsInert tables path
  property : IsInert tables property
  value : HasText tables value

theorem compares_of_isComparable {path property : QString} {value : PropertyValue Double}
    (comparable : IsComparable tables path property value) (toDouble : QString → Double) :
    Compares tables toDouble (assertion path property (escapeValue tables value)) path property
      value := by
  refine ⟨quote :: (path ++ [quote]), quote :: (property ++ [quote]), escapeValue tables value, ?_,
    tables.isLiteral_of_isVerbatim comparable.path.verbatim,
    tables.isLiteral_of_isVerbatim comparable.property.verbatim,
    isValue_escapeValue tables comparable.value toDouble⟩
  have isOpened : opened = QString.ofString "compare(objectFromPath(" ++ [quote] := by decide
  have isMember : member = QString.ofString ").property(" ++ [quote] := by decide
  have isEnd : QString.ofString ");" = [41, 59] := by decide
  rw [assertion, isOpened, isMember, isEnd, comparand]
  simp only [List.append_assoc, List.cons_append, List.nil_append]

end ScriptEditor

end Hooq

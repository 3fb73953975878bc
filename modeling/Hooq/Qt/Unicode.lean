import Hooq.Qt.Text

/-!
# Character categories

The classification of characters that both Qt and the script language take from the
Unicode character database.  The database is a parameter; only its entries for ASCII
characters are fixed.
-/

namespace Hooq

/-- `QChar::Category`. -/
inductive Category where
  | markNonSpacing
  | markSpacingCombining
  | markEnclosing
  | numberDecimalDigit
  | numberLetter
  | numberOther
  | separatorSpace
  | separatorLine
  | separatorParagraph
  | otherControl
  | otherFormat
  | otherSurrogate
  | otherPrivateUse
  | otherNotAssigned
  | letterUppercase
  | letterLowercase
  | letterTitlecase
  | letterModifier
  | letterOther
  | punctuationConnector
  | punctuationDash
  | punctuationOpen
  | punctuationClose
  | punctuationInitialQuote
  | punctuationFinalQuote
  | punctuationOther
  | symbolMath
  | symbolCurrency
  | symbolModifier
  | symbolOther
  deriving DecidableEq, Repr

namespace Category

def isLetter (category : Category) : Bool :=
  category ∈ [letterUppercase, letterLowercase, letterTitlecase, letterModifier, letterOther]

def isNumber (category : Category) : Bool :=
  category ∈ [numberDecimalDigit, numberLetter, numberOther]

/-- The category of an ASCII character. -/
def ascii (character : QChar) : Category :=
  if character < 0x20 ∨ character = 0x7F then otherControl
  else if character = 0x20 then separatorSpace
  else if 48 ≤ character ∧ character ≤ 57 then numberDecimalDigit
  else if 65 ≤ character ∧ character ≤ 90 then letterUppercase
  else if 97 ≤ character ∧ character ≤ 122 then letterLowercase
  else if character = 36 then symbolCurrency
  else if character ∈ [43, 60, 61, 62, 124, 126] then symbolMath
  else if character ∈ [94, 96] then symbolModifier
  else if character ∈ [40, 91, 123] then punctuationOpen
  else if character ∈ [41, 93, 125] then punctuationClose
  else if character = 45 then punctuationDash
  else if character = 95 then punctuationConnector
  else punctuationOther

theorem ite_ne {condition : Prop} [Decidable condition] {first second other : Category}
    (firstDiffers : first ≠ other) (secondDiffers : second ≠ other) :
    (if condition then first else second) ≠ other := by
  split
  · exact firstDiffers
  · exact secondDiffers

theorem ascii_ne_otherFormat (character : QChar) : ascii character ≠ otherFormat := by
  rw [ascii]
  repeat refine ite_ne (by decide) ?_
  decide

end Category

/-- The Unicode character database. -/
structure CharacterTables where
  category : QChar → Category
  category_ascii : ∀ {character}, character < 0x80 → category character = .ascii character
  digitValue : QChar → Option Nat
  digitValue_ascii : ∀ {character}, character < 0x80 → digitValue character =
    if QString.isDigit character then some (QString.digitValue character) else none

namespace CharacterTables

variable (tables : CharacterTables)

/-- `QChar::isLetterOrNumber`. -/
def isLetterOrNumber (character : QChar) : Bool :=
  (tables.category character).isLetter || (tables.category character).isNumber

/-- A format-control character. -/
def isFormat (character : QChar) : Bool :=
  tables.category character = .otherFormat

theorem isFormat_ascii {character : QChar} (ascii : character < 0x80) :
    tables.isFormat character = false := by
  rw [isFormat, tables.category_ascii ascii]
  exact decide_eq_false (Category.ascii_ne_otherFormat character)

end CharacterTables

/-- The entries for ASCII characters and for the two separators. -/
def separatorTables : CharacterTables where
  category character :=
    if character < 0x80 then .ascii character
    else if character = 0x2028 then .separatorLine
    else if character = 0x2029 then .separatorParagraph
    else .otherNotAssigned
  category_ascii ascii := if_pos ascii
  digitValue character :=
    if QString.isDigit character then some (QString.digitValue character) else none
  digitValue_ascii _ := rfl

end Hooq

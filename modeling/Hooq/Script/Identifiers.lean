import Hooq.Qt.Unicode
import Hooq.Script.Passes

/-!
# Identifiers of the script language

The identifiers of ECMAScript 3 that are written without escapes, and what the names of
object variables are made of.
-/

namespace Hooq

/-- The keywords, the words for later extensions and the literals that are words. -/
def reservedWords : List QString :=
  ["break", "case", "catch", "continue", "default", "delete", "do", "else", "finally", "for",
    "function", "if", "in", "instanceof", "new", "return", "switch", "this", "throw", "try",
    "typeof", "var", "void", "while", "with", "abstract", "boolean", "byte", "char", "class",
    "const", "debugger", "double", "enum", "export", "extends", "final", "float", "goto",
    "implements", "import", "int", "interface", "long", "native", "package", "private",
    "protected", "public", "short", "static", "super", "synchronized", "throws", "transient",
    "volatile", "null", "true", "false"]

/-- The globals that scripts use. -/
def scriptGlobals : List QString :=
  ["objectFromPath", "msleep", "requireHooqScriptVersion", "Qt"]

def underscore : QChar := 0x5F

namespace CharacterTables

variable (tables : CharacterTables)

def isIdentifierStart (character : QChar) : Bool :=
  (tables.category character).isLetter || tables.category character = .numberLetter ||
    character = 0x24 || character = underscore

def isIdentifierPart (character : QChar) : Bool :=
  tables.isIdentifierStart character ||
    tables.category character ∈
      [.markNonSpacing, .markSpacingCombining, .numberDecimalDigit, .punctuationConnector]

def isIdentifierName : QString → Bool
  | [] => false
  | first :: rest => tables.isIdentifierStart first && rest.all tables.isIdentifierPart

/-- A legal identifier. -/
def IsIdentifier (name : QString) : Prop :=
  tables.isIdentifierName name = true ∧ name ∉ reservedWords

instance (name : QString) : Decidable (tables.IsIdentifier name) :=
  inferInstanceAs (Decidable (_ ∧ _))

/-! ## Keywords -/

/-- A number that is not a digit, like a fraction. -/
def isOtherNumber (character : QChar) : Bool :=
  tables.category character = .numberOther

/-- A decimal digit or another number. -/
def isNumeral (character : QChar) : Bool :=
  tables.category character = .numberDecimalDigit || tables.isOtherNumber character

/-- What `toKeyword` makes of a character. -/
def keywordCharacter (character : QChar) : QChar :=
  if tables.isLetterOrNumber character then character else underscore

theorem toKeyword_eq_map (text : QString) :
    ObjectVariables.toKeyword tables.isLetterOrNumber text =
      text.map tables.keywordCharacter := by
  induction text with
  | nil => rfl
  | cons character text ih =>
      have same : ObjectVariables.toKeyword tables.isLetterOrNumber (character :: text) =
          (if tables.isLetterOrNumber character then [character] else [underscore]) ++
            ObjectVariables.toKeyword tables.isLetterOrNumber text := rfl
      rw [same, ih, List.map_cons, keywordCharacter]
      split_ifs <;> rfl

theorem category_underscore : tables.category underscore = .punctuationConnector :=
  (tables.category_ascii (by decide)).trans (by decide)

theorem isIdentifierStart_underscore : tables.isIdentifierStart underscore = true := by
  simp [isIdentifierStart]

/-- The two special characters of identifiers are neither letters nor numbers. -/
theorem not_special {character : QChar} (isPlain : tables.isLetterOrNumber character = true) :
    character ≠ 0x24 ∧ character ≠ underscore := by
  constructor
  · rintro rfl
    rw [isLetterOrNumber, tables.category_ascii (by decide)] at isPlain
    exact absurd isPlain (by decide)
  · rintro rfl
    rw [isLetterOrNumber, tables.category_underscore] at isPlain
    exact absurd isPlain (by decide)

theorem isIdentifierPart_of_isDigit {character : QChar} (isDigit : QString.isDigit character) :
    tables.isIdentifierPart character = true := by
  simp only [QString.isDigit, Bool.and_eq_true, decide_eq_true_eq] at isDigit
  have ascii : character < 0x80 := UInt16.lt_of_le_of_lt isDigit.2 (by decide)
  have noControl : ¬(character < 0x20 ∨ character = 0x7F) := by
    rintro (control | rfl)
    · exact absurd (UInt16.lt_of_le_of_lt isDigit.1 control) (by decide)
    · exact absurd isDigit.2 (by decide)
  have noSpace : character ≠ 0x20 := by
    rintro rfl
    exact absurd isDigit.1 (by decide)
  have category : tables.category character = .numberDecimalDigit := by
    rw [tables.category_ascii ascii, Category.ascii, if_neg noControl, if_neg noSpace,
      if_pos isDigit]
  simp [isIdentifierPart, category]

/-- Words of ASCII letters are identifiers. -/
theorem isIdentifierName_of_letters {name : QString} (nonempty : name ≠ [])
    (letters : name.all (fun character =>
      decide (character < 0x80) && (Category.ascii character).isLetter) = true) :
    tables.isIdentifierName name = true := by
  have starts : ∀ character ∈ name, tables.isIdentifierStart character = true := by
    intro character member
    have letter := List.all_eq_true.mp letters character member
    rw [Bool.and_eq_true, decide_eq_true_eq] at letter
    rw [isIdentifierStart, tables.category_ascii letter.1, letter.2]
    rfl
  cases name with
  | nil => exact absurd rfl nonempty
  | cons first rest =>
      rw [isIdentifierName, starts first List.mem_cons_self, Bool.true_and, List.all_eq_true]
      intro character member
      rw [isIdentifierPart, starts character (List.mem_cons_of_mem _ member)]
      rfl

/-- Of the characters in keywords, numbers cannot begin an identifier. -/
theorem isIdentifierStart_keywordCharacter (character : QChar) :
    tables.isIdentifierStart (tables.keywordCharacter character) =
      !tables.isNumeral character := by
  rw [keywordCharacter]
  cases isPlain : tables.isLetterOrNumber character with
  | true =>
      have special := tables.not_special isPlain
      simp only [isLetterOrNumber] at isPlain
      simp only [if_true, isIdentifierStart, special, isNumeral, isOtherNumber, decide_false,
        Bool.or_false]
      generalize tables.category character = category at isPlain
      revert isPlain
      cases category <;> decide
  | false =>
      simp only [isLetterOrNumber] at isPlain
      simp only [Bool.false_eq_true, if_false, isIdentifierStart_underscore, isNumeral,
        isOtherNumber]
      generalize tables.category character = category at isPlain
      revert isPlain
      cases category <;> decide

/-- Of the characters in keywords, only other numbers cannot stand in an identifier. -/
theorem isIdentifierPart_keywordCharacter (character : QChar) :
    tables.isIdentifierPart (tables.keywordCharacter character) =
      !tables.isOtherNumber character := by
  rw [keywordCharacter]
  cases isPlain : tables.isLetterOrNumber character with
  | true =>
      have special := tables.not_special isPlain
      simp only [isLetterOrNumber] at isPlain
      simp only [if_true, isIdentifierPart, isIdentifierStart, special, isOtherNumber,
        decide_false, Bool.or_false]
      generalize tables.category character = category at isPlain
      revert isPlain
      cases category <;> decide
  | false =>
      simp only [isLetterOrNumber] at isPlain
      simp only [Bool.false_eq_true, if_false, isIdentifierPart, isIdentifierStart_underscore,
        isOtherNumber, Bool.true_or]
      generalize tables.category character = category at isPlain
      revert isPlain
      cases category <;> decide

/-! ## Names -/

/-- No character is a number other than a digit, and the first one is not a number. -/
structure MakesPrefix (text : QString) : Prop where
  first : ∀ character, text.head? = some character → tables.isNumeral character = false
  others : ∀ character ∈ text, tables.isOtherNumber character = false

/-- Behind what may begin an identifier, a keyword and more. -/
theorem isIdentifierName_keyword_append {text : QString} (back : QString)
    (nonempty : text ≠ [] ∨ back.head? = some underscore)
    (parts : back.all tables.isIdentifierPart = true) :
    tables.isIdentifierName
        (ObjectVariables.toKeyword tables.isLetterOrNumber text ++ back) = true ↔
      tables.MakesPrefix text := by
  rw [toKeyword_eq_map]
  cases text with
  | nil =>
      cases back with
      | nil => simp at nonempty
      | cons first rest =>
          simp only [ne_eq, not_true_eq_false, List.head?_cons, Option.some.injEq,
            false_or] at nonempty
          simp only [List.all_cons, Bool.and_eq_true] at parts
          simp only [List.map_nil, List.nil_append, isIdentifierName, nonempty,
            isIdentifierStart_underscore, parts.2, Bool.and_self, true_iff]
          exact ⟨nofun, nofun⟩
  | cons first rest =>
      simp only [List.map_cons, List.cons_append, isIdentifierName, List.all_append, parts,
        Bool.and_true, Bool.and_eq_true, List.all_map, List.all_eq_true, Function.comp_apply,
        isIdentifierStart_keywordCharacter, isIdentifierPart_keywordCharacter,
        Bool.not_eq_true']
      constructor
      · rintro ⟨head, tail⟩
        refine ⟨?_, ?_⟩
        · rintro _ ⟨⟩
          exact head
        · intro character member
          rcases List.mem_cons.mp member with rfl | later
          · exact (Bool.or_eq_false_iff.mp head).2
          · exact tail character later
      · intro makes
        exact ⟨makes.first first rfl,
          fun character member => makes.others character (List.mem_cons_of_mem _ member)⟩

end CharacterTables

end Hooq

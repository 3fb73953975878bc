import Hooq.Library.StringLiteral
import Hooq.Qt.Unicode
import Hooq.Script.Passes

/-!
# Strings in scripts

`escapeString` writes the characters of a string literal.  The script engine reads the
literal back by the grammar of ECMAScript 3, which drops format-control characters
from a program before anything else.
-/

namespace Hooq

open Library.StringLiteral

namespace CharacterTables

variable (tables : CharacterTables)

/-- What the lexical grammar sees of a program. -/
def sourceText (text : QString) : QString :=
  text.filter fun character => !tables.isFormat character

/-- The text is exactly one string literal of a program, with the given value. -/
def IsLiteral (text value : QString) : Prop :=
  Library.StringLiteral.IsLiteral (tables.sourceText text) value

/-- A character that a program can hold as it stands. -/
def keeps (character : QChar) : Bool :=
  character ≠ 0x2028 && character ≠ 0x2029 && !tables.isFormat character

@[simp] theorem sourceText_append (front back : QString) :
    tables.sourceText (front ++ back) = tables.sourceText front ++ tables.sourceText back :=
  List.filter_append ..

theorem sourceText_ascii {text : QString}
    (ascii : text.all (fun character => decide (character < 0x80)) = true) :
    tables.sourceText text = text := by
  rw [sourceText, List.filter_eq_self]
  intro character member
  rw [tables.isFormat_ascii (of_decide_eq_true (List.all_eq_true.mp ascii character member))]
  rfl

theorem sourceText_cons {character : QChar} (ascii : character < 0x80) (rest : QString) :
    tables.sourceText (character :: rest) = character :: tables.sourceText rest := by
  rw [sourceText, List.filter_cons, tables.isFormat_ascii ascii]
  rfl

end CharacterTables

/-! ## What is written for a character -/

/-- `escapeString` for a single character. -/
def escapeCharacter (character : QChar) : QString :=
  if character = 92 then "\\\\"
  else if character = 34 then "\\\""
  else if character = 13 then "\\r"
  else if character = 10 then "\\n"
  else [character]

theorem escapeString_eq_flatMap (text : QString) :
    escapeString text = text.flatMap escapeCharacter := by
  have whole : escapeString text =
      Library.Separator.replace [10] (QString.ofString "\\n")
        (Library.Separator.replace [13] (QString.ofString "\\r")
          (Library.Separator.replace [34] (QString.ofString "\\\"")
            (Library.Separator.replace [92] (QString.ofString "\\\\") text))) := rfl
  rw [whole]
  simp only [Library.Separator.replace_singleton, List.flatMap_assoc]
  congr 1
  funext character
  by_cases isBackslash : character = 92
  · subst isBackslash
    decide
  · by_cases isQuote : character = 34
    · subst isQuote
      decide
    · by_cases isReturn : character = 13
      · subst isReturn
        decide
      · by_cases isBreak : character = 10
        · subst isBreak
          decide
        · simp [escapeCharacter, isBackslash, isQuote, isReturn, isBreak]

/-- The characters that end a line and are not escaped. -/
def isSeparator (character : QChar) : Bool :=
  character = 0x2028 || character = 0x2029

theorem characters_escapeCharacter {character : QChar} (inLine : isSeparator character = false)
    (rest : QString) : characters (escapeCharacter character ++ rest) =
      (characters rest).map (prepend character) := by
  by_cases isBackslash : character = 92
  · subst isBackslash
    exact characters_single rfl rest
  · by_cases isQuote : character = 34
    · subst isQuote
      exact characters_single rfl rest
    · by_cases isReturn : character = 13
      · subst isReturn
        exact characters_single rfl rest
      · by_cases isBreak : character = 10
        · subst isBreak
          exact characters_single rfl rest
        · have shape : escapeCharacter character = [character] := by
            simp [escapeCharacter, isBackslash, isQuote, isReturn, isBreak]
          rw [shape]
          apply characters_plain
          simp only [isSeparator, Bool.or_eq_false_iff, decide_eq_false_iff_not] at inLine
          simp [isPlain, isLineTerminator, quote, backslash, isBackslash, isQuote, isReturn,
            isBreak, inLine]

/-- Text without separators is read back. -/
theorem characters_escapeString {text : QString}
    (inLine : ∀ character ∈ text, isSeparator character = false) (rest : QString) :
    characters (escapeString text ++ quote :: rest) = some (text, rest) := by
  rw [escapeString_eq_flatMap, characters_flatMap escapeCharacter
    (fun character member => characters_escapeCharacter (inLine character member)),
    characters_quote, Option.map_some, List.append_nil]

/-- A separator ends the literal. -/
theorem characters_escapeString_separator {text : QString} {separator : QChar}
    (member : separator ∈ text) (separates : isSeparator separator = true) (rest : QString) :
    characters (escapeString text ++ quote :: rest) = none := by
  rw [escapeString_eq_flatMap]
  induction text with
  | nil => cases member
  | cons first text ih =>
      rw [List.flatMap_cons, List.append_assoc]
      cases here : isSeparator first with
      | true =>
          have shape : escapeCharacter first = [first] ∧ isLineTerminator first = true := by
            rcases Bool.or_eq_true_iff.mp here with same | same <;>
              · rw [of_decide_eq_true same]
                decide
          rw [shape.1]
          exact characters_lineTerminator shape.2 _
      | false =>
          have later : separator ∈ text := by
            rcases List.mem_cons.mp member with isFirst | later
            · rw [isFirst, here] at separates
              cases separates
            · exact later
          rw [characters_escapeCharacter here, ih later]
          rfl

theorem getLast?_of_escapeCharacter {character : QChar} {before after : QString}
    (shape : escapeCharacter character = before ++ quote :: after) :
    before.getLast? = some backslash := by
  have quoted : quote ∈ escapeCharacter character := by
    rw [shape]
    exact List.mem_append_right _ List.mem_cons_self
  have isQuote : character = quote := by
    rw [escapeCharacter] at quoted
    split at quoted
    · exact absurd quoted (by decide)
    · split at quoted
      next isQuote => exact isQuote
      next =>
        split at quoted
        · exact absurd quoted (by decide)
        · split at quoted
          · exact absurd quoted (by decide)
          · exact (List.mem_singleton.mp quoted).symm
  have whole : [backslash, quote] = before ++ quote :: after := by
    rw [← shape, isQuote]
    decide
  cases before with
  | nil => exact absurd (List.cons.inj whole).1 (by decide)
  | cons first before =>
      rcases List.cons.inj whole with ⟨rfl, rest⟩
      cases before with
      | nil => rfl
      | cons second before => simp at rest

/-- Each quote is escaped. -/
theorem getLast?_of_escapeString {text before after : QString}
    (shape : escapeString text = before ++ quote :: after) : before.getLast? = some backslash := by
  rw [escapeString_eq_flatMap] at shape
  induction text generalizing before with
  | nil =>
      rw [List.flatMap_nil] at shape
      simp at shape
  | cons first text ih =>
      rw [List.flatMap_cons] at shape
      rcases List.append_eq_append_iff.mp shape with
        ⟨between, rfl, isRest⟩ | ⟨between, isFirst, isRest⟩
      · rw [List.getLast?_append, ih isRest]
        rfl
      · cases between with
        | nil =>
            have impossible := @ih [] isRest.symm
            cases impossible
        | cons unit between =>
            rcases List.cons.inj isRest with ⟨rfl, _⟩
            exact getLast?_of_escapeCharacter isFirst

/-! ## When a string is read back -/

theorem filter_flatMap {α β : Type} (text : List α) (encode : α → List β) (keep : β → Bool)
    (keeps : α → Bool) (encodes : ∀ symbol, (encode symbol).filter keep =
      if keeps symbol then encode symbol else []) :
    (text.flatMap encode).filter keep = (text.filter keeps).flatMap encode := by
  induction text with
  | nil => rfl
  | cons symbol text ih =>
      rw [List.flatMap_cons, List.filter_append, ih, encodes, List.filter_cons]
      split <;> rfl

variable (tables : CharacterTables)

theorem sourceText_escapeString (text : QString) :
    tables.sourceText (escapeString text) = escapeString (tables.sourceText text) := by
  rw [escapeString_eq_flatMap, escapeString_eq_flatMap]
  apply filter_flatMap
  intro character
  by_cases special : character ∈ [92, 34, 13, 10]
  · have ascii : character < 0x80 ∧
        (escapeCharacter character).all (fun unit => decide (unit < 0x80)) = true := by
      simp only [List.mem_cons, List.not_mem_nil, or_false] at special
      rcases special with rfl | rfl | rfl | rfl <;> decide
    rw [tables.isFormat_ascii ascii.1]
    exact tables.sourceText_ascii ascii.2
  · have shape : escapeCharacter character = [character] := by
      simp only [List.mem_cons, List.not_mem_nil, or_false, not_or] at special
      simp [escapeCharacter, special]
    rw [shape, List.filter_singleton]
    cases tables.isFormat character <;> rfl

/-- The literal that a program gets for a string. -/
def literal (text : QString) : QString :=
  quote :: (escapeString text ++ [quote])

theorem sourceText_literal (text : QString) :
    tables.sourceText (literal text) = literal (tables.sourceText text) := by
  rw [literal, literal, tables.sourceText_cons (by decide), tables.sourceText_append,
    sourceText_escapeString, tables.sourceText_cons (by decide)]
  rfl

theorem isLiteral_literal {text : QString}
    (keeps : ∀ character ∈ text, tables.keeps character = true) :
    tables.IsLiteral (literal text) text := by
  have parts : ∀ character ∈ text,
      isSeparator character = false ∧ tables.isFormat character = false := by
    intro character member
    have kept := keeps character member
    simp only [CharacterTables.keeps, Bool.and_eq_true, decide_eq_true_eq,
      Bool.not_eq_true'] at kept
    refine ⟨?_, kept.2⟩
    simp [isSeparator, kept.1]
  have whole : tables.sourceText text = text := by
    apply List.filter_eq_self.mpr
    intro character member
    rw [(parts character member).2]
    rfl
  rw [CharacterTables.IsLiteral, sourceText_literal, whole]
  exact ⟨_, rfl, characters_escapeString (fun character member => (parts character member).1) []⟩

/-- An escaped string between quotes is exactly one literal with the string as its value
exactly if the string has no line or paragraph separator and no format-control
character. -/
theorem isLiteral_literal_iff (text : QString) :
    tables.IsLiteral (literal text) text ↔ ∀ character ∈ text, tables.keeps character = true := by
  constructor
  · intro isLiteral
    rw [CharacterTables.IsLiteral, sourceText_literal] at isLiteral
    rcases isLiteral with ⟨body, shape, read⟩
    cases shape
    by_cases separated : ∃ separator ∈ tables.sourceText text, isSeparator separator = true
    · rcases separated with ⟨separator, member, separates⟩
      rw [characters_escapeString_separator member separates] at read
      cases read
    · have inLine : ∀ character ∈ tables.sourceText text, isSeparator character = false := by
        intro character member
        by_contra separates
        exact separated ⟨character, member, Bool.eq_true_of_not_eq_false separates⟩
      rw [characters_escapeString inLine] at read
      have whole : tables.sourceText text = text := congrArg Prod.fst (Option.some.inj read)
      intro character member
      have visible := List.filter_eq_self.mp whole character member
      have here := inLine character (whole.symm ▸ member)
      simp only [isSeparator, Bool.or_eq_false_iff, decide_eq_false_iff_not] at here
      rw [CharacterTables.keeps, visible]
      simp [here]
  · exact isLiteral_literal tables

/-- A line separator is not escaped and breaks the literal. -/
theorem lineSeparator_not_literal :
    ¬∀ (tables : CharacterTables) (text : QString), tables.IsLiteral (literal text) text := by
  intro reads
  rcases reads separatorTables [0x2028] with ⟨body, shape, read⟩
  have source : separatorTables.sourceText (literal [0x2028]) = [quote, 0x2028, quote] := by
    decide
  rw [source] at shape
  cases shape
  exact absurd read (by decide)

end Hooq

import Hooq.Library.Expression
import Hooq.Script.Identifiers
import Hooq.Script.Statements

/-!
# Parameters in scripts

What the script engine makes of the texts that parameters are printed as.
-/

namespace Hooq

open Hooq.Library Hooq.Library.StringLiteral

/-! ## The script engine -/

/-- A property of characters that holds of each ASCII character. -/
theorem of_ascii (property : QChar → Bool)
    (all : (List.range 128).all (fun code => property code.toUInt16) = true) {character : QChar}
    (ascii : character < 0x80) : property character = true := by
  have small : character.toNat < 128 := ascii
  have found := List.all_eq_true.mp all character.toNat (List.mem_range.mpr small)
  rw [Nat.toUInt16, UInt16.ofNat_toNat] at found
  exact found

namespace CharacterTables

variable (tables : CharacterTables)

/-- `WhiteSpace` and `LineTerminator`. -/
def isBlank (character : QChar) : Bool :=
  character ∈ [0x09, 0x0B, 0x0C, 0xA0] || isLineTerminator character ||
    tables.category character = .separatorSpace

/-- The characters that tokens are told apart by. -/
def alphabet : Expression.Alphabet where
  isSpace := tables.isBlank
  isStart := tables.isIdentifierStart
  isPart := tables.isIdentifierPart
  isSpace_ascii := by
    intro character ascii
    have same := of_ascii (fun character =>
      (character ∈ [0x09, 0x0B, 0x0C, 0xA0] || isLineTerminator character ||
        Category.ascii character = .separatorSpace) =
      (9 ≤ character && character ≤ 13 || character = 32)) (by decide +kernel) ascii
    rw [isBlank, tables.category_ascii ascii]
    exact of_decide_eq_true same
  isStart_ascii := by
    intro character ascii
    have same := of_ascii (fun character =>
      ((Category.ascii character).isLetter || Category.ascii character = .numberLetter ||
        character = 0x24 || character = underscore) =
      (Expression.isLetter character || character = 36 || character = 95))
      (by decide +kernel) ascii
    rw [isIdentifierStart, tables.category_ascii ascii]
    exact of_decide_eq_true same
  isPart_ascii := by
    intro character ascii
    have same := of_ascii (fun character =>
      ((Category.ascii character).isLetter || Category.ascii character = .numberLetter ||
        character = 0x24 || character = underscore ||
        Category.ascii character ∈
          [.markNonSpacing, .markSpacingCombining, .numberDecimalDigit, .punctuationConnector]) =
      (Expression.isLetter character || character = 36 || character = 95 ||
        isDecimalDigit character))
      (by decide +kernel) ascii
    rw [isIdentifierPart, isIdentifierStart, tables.category_ascii ascii]
    exact of_decide_eq_true same

end CharacterTables

/-- The enumerators of Qt that the compiler names. -/
def enumerators : List (QString × Int32) :=
  [("NoButton", 0), ("LeftButton", 0x01), ("RightButton", 0x02), ("MidButton", 0x04),
    ("XButton1", 0x08), ("XButton2", 0x10), ("NoModifier", 0), ("ShiftModifier", 0x02000000),
    ("ControlModifier", 0x04000000), ("AltModifier", 0x08000000), ("MetaModifier", 0x10000000),
    ("KeypadModifier", 0x20000000), ("GroupSwitchModifier", 0x40000000),
    ("MouseFocusReason", 0), ("TabFocusReason", 1), ("BacktabFocusReason", 2),
    ("ActiveWindowFocusReason", 3), ("PopupFocusReason", 4), ("ShortcutFocusReason", 5),
    ("MenuBarFocusReason", 6), ("OtherFocusReason", 7), ("Horizontal", 1), ("Vertical", 2)]

/-- The enumerators that a script finds in `Qt`, and the names that Qt has for keys. -/
structure QtNamespace where
  property : QString → Option Int32
  keyName : Int32 → Option QString
  property_enumerator : ∀ {name value}, (name, value) ∈ enumerators → property name = some value
  property_keyName : ∀ {key name}, keyName key = some name → property name = some key
  isName_keyName : ∀ {key name}, keyName key = some name →
    Expression.isName name = true

def qtWord : QString := "Qt"

/-- The functions that scripts are run with. -/
def scriptFunctions : List QString :=
  ["objectFromPath", "msleep", "requireHooqScriptVersion"]

namespace QtNamespace

/-- What scripts are run with. -/
def environment (qt : QtNamespace) : Expression.Environment where
  property object name :=
    if object = qtWord then (qt.property name).map Int32.toInt else none
  isFunction name := name ∈ scriptFunctions

end QtNamespace

namespace XmlToQtScript

section

variable (tables : CharacterTables) (qt : QtNamespace)

/-- The value of a text as an expression of a script. -/
def scriptValue (text : QString) : Option Expression.Value :=
  Expression.evaluate tables.alphabet qt.environment (tables.sourceText text)

/-! ## Values of parameters -/

mutual

/-- The value that a parameter has in a script.  Nothing that stands for no parameter is
recorded. -/
def parameterValue : QVariant → Expression.Value
  | .bool value => .boolean value
  | .int value => .number value.toInt
  | .string value => .string value
  | .map value => .object (parameterFields value)
  | .focusReason value => .number value.toInt
  | .key value => .number value.toInt
  | .mouseButton value => .number value.toInt
  | .mouseButtons value => .number value.toInt
  | .orientation .horizontal => .number 1
  | .orientation .vertical => .number 2
  | .keyboardModifier value => .number value.toInt
  | .keyboardModifiers value => .number value.toInt
  | .item (.path path) _ method parameters =>
      .method (.result "objectFromPath" (.string path)) method (parameterValue parameters)
  | .item _ _ method parameters => .result method (parameterValue parameters)
  | .invalid => .object .none
  | .variable _ => .object .none

def parameterFields : QVariantMap → Expression.Fields
  | .empty => .none
  | .entry key value rest => .field key (parameterValue value) (parameterFields rest)

end

mutual

/-- The parameters that the parse functions build. -/
def isParameter : QVariant → Bool
  | .item (.variable _) _ _ _ => false
  | .item _ _ method (.map parameters) =>
      method = QString.ofString "drag" && areParameters parameters
  | .item _ _ _ _ => false
  | .map value => areParameters value
  | .invalid => false
  | .variable _ => false
  | _ => true

def areParameters : QVariantMap → Bool
  | .empty => true
  | .entry key value rest =>
      Expression.isName key && isParameter value && areParameters rest

end

/-- The bits that have a name. -/
def buttonMask : Int32 := 0x1F

def modifierMask : Int32 := 0x7E000000

mutual

/-- The parts of a parameter come out of the text that it is printed as: characters that a
literal can hold, enumerators, bits with a name, and a path that is copied. -/
def IsPreserved : QVariant → Prop
  | .string value => ∀ character ∈ value, tables.keeps character = true
  | .map value => ArePreserved value
  | .focusReason value => value ∈ ([0, 1, 2, 3, 4, 5, 6, 7] : List Int32)
  | .key value => (qt.keyName value).isSome
  | .mouseButton value => value ∈ ([0, 0x01, 0x02, 0x04, 0x08, 0x10] : List Int32)
  | .mouseButtons value => value &&& buttonMask = value
  | .keyboardModifier value =>
      value ∈ ([0, 0x02000000, 0x04000000, 0x08000000, 0x10000000, 0x20000000, 0x40000000] :
        List Int32)
  | .keyboardModifiers value => value &&& modifierMask = value
  | .item (.path path) _ method parameters =>
      IsCopied tables path method ∧ IsPreserved parameters
  | .item _ _ _ _ => False
  | .bool _ => True
  | .int _ => True
  | .orientation _ => True
  | .invalid => False
  | .variable _ => False

def ArePreserved : QVariantMap → Prop
  | .empty => True
  | .entry _ value rest => IsPreserved value ∧ ArePreserved rest

end

/-! ## Reading parameters back -/

/-- What an expression at the front of a text is read as. -/
def readExpression (fuel : Nat) (text : QString) :
    Option (Expression.Value × Expression.Text) :=
  Expression.expression tables.alphabet qt.environment fuel (tables.sourceText text)

/-- The text that a parameter is printed as. -/
abbrev printed (parameter : QVariant) : QString :=
  parametersString tables qt.keyName parameter

/-- In front of a delimiter, a preserved parameter is read as its value, and no other
parameter is. -/
structure ReadsBack (parameter : QVariant) (fuel : Nat) (rest : QString) : Prop where
  complete : IsPreserved tables qt parameter →
    readExpression tables qt fuel (printed tables qt parameter ++ rest) =
      some (parameterValue parameter, tables.sourceText rest)
  sound : ∀ behind, readExpression tables qt fuel (printed tables qt parameter ++ rest) =
    some (parameterValue parameter, behind) → IsPreserved tables qt parameter

/-- There is enough fuel for the text of a parameter. -/
abbrev Suffices (fuel : Nat) (parameter : QVariant) : Prop :=
  (tables.sourceText (printed tables qt parameter)).length + 2 ≤ fuel

section

variable {tables} {qt} {parameter : QVariant} {fuel : Nat} {rest : QString}

theorem readsBack_of_shown (shown : Expression.Value)
    (read : readExpression tables qt fuel (printed tables qt parameter ++ rest) =
      some (shown, tables.sourceText rest))
    (same : shown = parameterValue parameter ↔ IsPreserved tables qt parameter) :
    ReadsBack tables qt parameter fuel rest where
  complete preserved := by rw [read, same.mpr preserved]
  sound behind found := by
    rw [read, Option.some.injEq, Prod.mk.injEq] at found
    exact same.mp found.1

theorem readsBack_of_none
    (read : readExpression tables qt fuel (printed tables qt parameter ++ rest) = none)
    (lost : ¬IsPreserved tables qt parameter) : ReadsBack tables qt parameter fuel rest where
  complete preserved := absurd preserved lost
  sound behind found := by
    rw [read] at found
    cases found

/-- A delimiter is in the source text. -/
theorem delimited_sourceText (delimited : Expression.Delimited rest) :
    Expression.Delimited (tables.sourceText rest) := by
  cases rest with
  | nil => exact delimited
  | cons first rest =>
      have member := delimited first rfl
      have ascii : first < 0x80 := by
        simp only [List.mem_cons, List.not_mem_nil, or_false] at member
        rcases member with rfl | rfl | rfl <;> decide
      rw [tables.sourceText_cons ascii]
      rintro _ ⟨⟩
      exact member

theorem length_le_of_suffices (enough : Suffices tables qt fuel parameter) {text : QString}
    (shape : printed tables qt parameter = text)
    (ascii : text.all (fun character => decide (character < 0x80)) = true) :
    text.length + 2 ≤ fuel := by
  rw [Suffices, shape, tables.sourceText_ascii ascii] at enough
  exact enough

/-- The characters that a literal can hold are those that are in the source text and do not
end a line. -/
theorem keeps_iff {text : QString} :
    (∀ character ∈ text, tables.keeps character = true) ↔
      tables.sourceText text = text ∧ ∀ character ∈ text, isSeparator character = false := by
  rw [CharacterTables.sourceText, List.filter_eq_self, ← forall₂_and]
  apply forall₂_congr
  intro character _
  rw [CharacterTables.keeps, isSeparator, Bool.or_eq_false_iff, Bool.and_eq_true,
    Bool.and_eq_true]
  simp only [decide_eq_true_eq, decide_eq_false_iff_not]
  exact and_comm

theorem readExpression_ascii {text : QString}
    (ascii : text.all (fun character => decide (character < 0x80)) = true) :
    readExpression tables qt fuel (text ++ rest) =
      Expression.expression tables.alphabet qt.environment fuel
        (text ++ tables.sourceText rest) := by
  rw [readExpression, tables.sourceText_append, tables.sourceText_ascii ascii]

/-! ### Literals -/

theorem readsBack_bool (value : Bool) (delimited : Expression.Delimited rest)
    (enough : Suffices tables qt fuel (.bool value)) :
    ReadsBack tables qt (.bool value) fuel rest := by
  have ends : Expression.Delimited (tables.sourceText rest) :=
    delimited_sourceText delimited
  have text : printed tables qt (.bool value) =
      if value then Expression.trueWord else Expression.falseWord := by
    rw [printed, parametersString]
    cases value <;> decide
  apply readsBack_of_shown (.boolean value)
  · cases value with
    | true =>
        have long := length_le_of_suffices enough text (by decide)
        obtain ⟨fuel, rfl⟩ := Nat.exists_eq_add_of_le' ((by decide : 3 ≤ 6).trans long)
        rw [text]
        exact (readExpression_ascii (by decide)).trans
          (Expression.expression_of_operand
            (Expression.operand_true ends.breaks) ends)
    | false =>
        have long := length_le_of_suffices enough text (by decide)
        obtain ⟨fuel, rfl⟩ := Nat.exists_eq_add_of_le' ((by decide : 3 ≤ 7).trans long)
        rw [text]
        exact (readExpression_ascii (by decide)).trans
          (Expression.expression_of_operand
            (Expression.operand_false ends.breaks) ends)
  · exact iff_of_true rfl trivial

theorem numeral_small (value : Int32) : value.toInt.natAbs ≤ 2 ^ 53 := by
  have bounds := And.intro value.le_toInt value.toInt_lt
  omega

theorem ascii_numeral (value : Nat) :
    (Expression.numeral value).all (fun character => decide (character < 0x80)) = true := by
  apply List.all_eq_true.mpr
  intro character member
  obtain ⟨digit, isDigit, rfl⟩ := List.mem_map.mp member
  have small := Expression.lt_of_isDecimalDigit
    (Expression.digit_spec (Library.Decimal.digits_lt_ten isDigit)).1
  exact decide_eq_true small

theorem readsBack_int (value : Int32) (delimited : Expression.Delimited rest)
    (enough : Suffices tables qt fuel (.int value)) :
    ReadsBack tables qt (.int value) fuel rest := by
  have ends : Expression.Delimited (tables.sourceText rest) :=
    delimited_sourceText delimited
  have small := numeral_small value
  obtain ⟨fuel, rfl⟩ := Nat.exists_eq_add_of_le' ((Nat.le_add_left 2 _).trans enough)
  apply readsBack_of_shown (.number value.toInt)
  · by_cases negative : value.toInt < 0
    · have text : printed tables qt (.int value) =
          Expression.minus :: Expression.numeral value.toInt.natAbs := by
        rw [printed, parametersString, QString.number, if_pos negative]
        rfl
      have ascii : (printed tables qt (.int value)).all
          (fun character => decide (character < 0x80)) = true := by
        rw [text, List.all_cons, ascii_numeral]
        rfl
      have magnitude : value.toInt = -(value.toInt.natAbs : Int) := by omega
      rw [readExpression_ascii ascii, text, List.cons_append, magnitude, Int.natAbs_neg,
        Int.natAbs_natCast]
      exact Expression.expression_of_operand
        (Expression.operand_negative small ends) ends
    · have text : printed tables qt (.int value) =
          Expression.numeral value.toInt.natAbs := by
        rw [printed, parametersString, QString.number, if_neg negative]
        rfl
      have magnitude : value.toInt = (value.toInt.natAbs : Int) := by omega
      rw [readExpression_ascii (text ▸ ascii_numeral _), text, magnitude, Int.natAbs_natCast]
      exact Expression.expression_of_operand
        (Expression.operand_numeral small ends) ends
  · exact iff_of_true rfl trivial

theorem readsBack_string (value : QString) (delimited : Expression.Delimited rest)
    (enough : Suffices tables qt fuel (.string value)) :
    ReadsBack tables qt (.string value) fuel rest := by
  have ends : Expression.Delimited (tables.sourceText rest) :=
    delimited_sourceText delimited
  obtain ⟨fuel, rfl⟩ := Nat.exists_eq_add_of_le' ((Nat.le_add_left 2 _).trans enough)
  have text : tables.sourceText (printed tables qt (.string value) ++ rest) =
      quote :: (escapeString (tables.sourceText value) ++ quote :: tables.sourceText rest) := by
    have shape : printed tables qt (.string value) ++ rest =
        quote :: (escapeString value ++ quote :: rest) := by
      rw [printed, parametersString, List.append_assoc, List.append_assoc]
      rfl
    rw [shape, tables.sourceText_cons (by decide), tables.sourceText_append,
      sourceText_escapeString, tables.sourceText_cons (by decide)]
  by_cases separated : ∃ separator ∈ tables.sourceText value, isSeparator separator = true
  · obtain ⟨separator, member, separates⟩ := separated
    apply readsBack_of_none
    · rw [readExpression, text]
      apply Expression.expression_of_operand_none
      exact Expression.operand_string_none
        (characters_escapeString_separator member separates _)
    · intro preserved
      have inLine := (keeps_iff.mp preserved).2 separator (List.mem_of_mem_filter member)
      rw [separates] at inLine
      cases inLine
  · have inLine : ∀ character ∈ tables.sourceText value, isSeparator character = false := by
      intro character member
      by_contra separates
      exact separated ⟨character, member, Bool.eq_true_of_not_eq_false separates⟩
    apply readsBack_of_shown (.string (tables.sourceText value))
    · rw [readExpression, text]
      exact Expression.expression_of_operand
        (Expression.operand_string (characters_escapeString inLine _)) ends
    · have same : Expression.Value.string (tables.sourceText value) = .string value ↔
          tables.sourceText value = value := by
        rw [Expression.Value.string.injEq]
      change Expression.Value.string (tables.sourceText value) = .string value ↔
        ∀ character ∈ value, tables.keeps character = true
      rw [same, keeps_iff]
      exact ⟨fun whole => ⟨whole, whole ▸ inLine⟩, And.left⟩

/-! ### Enumerators -/

theorem ascii_name {name : QString} (isName : Expression.isName name = true) :
    name.all (fun character => decide (character < 0x80)) = true := by
  cases name with
  | nil => rfl
  | cons first name =>
      rw [Expression.isName, Bool.and_eq_true] at isName
      rw [List.all_cons, Bool.and_eq_true]
      refine ⟨decide_eq_true (Expression.lt_of_isLetter isName.1), ?_⟩
      apply List.all_eq_true.mpr
      intro character member
      have part := List.all_eq_true.mp isName.2 character member
      simp only [Bool.or_eq_true, decide_eq_true_eq] at part
      apply decide_eq_true
      rcases part with (letter | digit) | rfl
      · exact Expression.lt_of_isLetter letter
      · exact Expression.lt_of_isDecimalDigit digit
      · decide

theorem ascii_flagsText {parts : List (QString × Int32)}
    (names : ∀ part ∈ parts, Expression.isName part.1 = true) :
    (Expression.flagsText qtWord parts).all
      (fun character => decide (character < 0x80)) = true := by
  have single : ∀ name, Expression.isName name = true →
      (Expression.propertyText qtWord name).all
        (fun character => decide (character < 0x80)) = true := by
    intro name isName
    rw [Expression.propertyText, List.all_append, List.all_cons, ascii_name isName]
    decide
  induction parts with
  | nil => rfl
  | cons part parts ih =>
      have first := single part.1 (names part List.mem_cons_self)
      cases parts with
      | nil => exact first
      | cons next parts =>
          rw [Expression.flagsText_cons, List.all_append, first, List.all_cons,
            List.all_cons, List.all_cons,
            ih fun other member => names other (List.mem_cons_of_mem _ member)]
          decide

theorem length_flagsText (part : QString × Int32) (parts : List (QString × Int32)) :
    parts.length + 2 ≤ (Expression.flagsText qtWord (part :: parts)).length := by
  have single : ∀ name, 2 ≤ (Expression.propertyText qtWord name).length := by
    intro name
    rw [Expression.propertyText, List.length_append, List.length_cons]
    exact (by decide : 2 ≤ qtWord.length).trans (Nat.le_add_right _ _)
  induction parts generalizing part with
  | nil => exact single part.1
  | cons next parts ih =>
      rw [Expression.flagsText_cons, List.length_append]
      have later := ih next
      have first := single part.1
      simp only [List.length_cons] at later ⊢
      omega

/-- Properties of `Qt`, joined by `|`. -/
theorem readExpression_flags {part : QString × Int32} {parts : List (QString × Int32)}
    (flags : Expression.Flags qt.environment qtWord (part :: parts))
    (text : printed tables qt parameter =
      Expression.flagsText qtWord (part :: parts))
    (delimited : Expression.Delimited rest)
    (enough : Suffices tables qt fuel parameter) :
    readExpression tables qt fuel (printed tables qt parameter ++ rest) =
      some (.number
        (parts.foldl (fun joined part => joined ||| part.2) part.2).toInt,
        tables.sourceText rest) := by
  have ascii := ascii_flagsText flags.isName
  have long := length_le_of_suffices enough text ascii
  have short := length_flagsText part parts
  obtain ⟨fuel, rfl⟩ := Nat.exists_eq_add_of_le'
    ((Nat.add_le_add_right short 2).trans long)
  rw [text, readExpression_ascii ascii]
  exact flags.expression (delimited_sourceText delimited)

theorem flags_enumerators (qt : QtNamespace) (parts : List (QString × Int32))
    (known : ∀ part ∈ parts, part ∈ enumerators) :
    Expression.Flags qt.environment qtWord parts where
  isGlobal := by decide
  noLiteral := by decide
  isName part member := by
    have names : enumerators.all (fun entry => Expression.isName entry.1) = true := by
      decide +kernel
    exact List.all_eq_true.mp names part (known part member)
  property part member := by
    have found := qt.property_enumerator (known part member)
    rw [QtNamespace.environment]
    dsimp only
    rw [if_pos rfl, found]
    rfl

/-- The text is a property of `Qt` with the value. -/
def isEnumerator (text : QString) (value : Int32) : Bool :=
  text = Expression.propertyText qtWord (text.drop 3) &&
    (text.drop 3, value) ∈ enumerators

theorem readExpression_enumerator {value : Int32}
    (known : isEnumerator (printed tables qt parameter) value = true)
    (delimited : Expression.Delimited rest)
    (enough : Suffices tables qt fuel parameter) :
    readExpression tables qt fuel (printed tables qt parameter ++ rest) =
      some (.number value.toInt, tables.sourceText rest) := by
  rw [isEnumerator, Bool.and_eq_true, decide_eq_true_eq, decide_eq_true_eq] at known
  have flags := flags_enumerators qt [((printed tables qt parameter).drop 3, value)]
    (by simpa using known.2)
  exact readExpression_flags flags known.1 delimited enough

theorem number_toInt (shown value : Int32) :
    Expression.Value.number shown.toInt = .number value.toInt ↔ shown = value := by
  rw [Expression.Value.number.injEq, Int32.toInt_inj]

/-- A value that a `switch` names is shown as itself, and all others are shown as one. -/
theorem isEnumerator_enumeratorString {names : List (Int32 × QString)} {otherwise : QString}
    (other : Int32) (known : names.all (fun entry => isEnumerator entry.2 entry.1) = true)
    (fallback : isEnumerator otherwise other = true) (value : Int32) :
    ∃ shown, isEnumerator (enumeratorString names otherwise value) shown = true ∧
      (shown = value ↔ value ∈ other :: names.map Prod.fst) := by
  rw [enumeratorString]
  cases found : names.lookup value with
  | none =>
      have absent : value ∉ names.map Prod.fst := by
        intro member
        obtain ⟨entry, isEntry, same⟩ := List.mem_map.mp member
        have differs := List.lookup_eq_none_iff.mp found entry isEntry
        simp [same] at differs
      refine ⟨other, fallback, ?_⟩
      rw [List.mem_cons, or_iff_left absent, eq_comm]
  | some text =>
      have member : (value, text) ∈ names := mem_of_lookup found
      refine ⟨value, List.all_eq_true.mp known (value, text) member, ?_⟩
      exact iff_of_true rfl (List.mem_cons_of_mem _ (List.mem_map_of_mem member))

/-- A parameter that is printed by a `switch`. -/
theorem readsBack_enumerator {value : Int32} {values : List Int32}
    (known : ∃ shown, isEnumerator (printed tables qt parameter) shown = true ∧
      (shown = value ↔ value ∈ values))
    (number : parameterValue parameter = .number value.toInt)
    (preserved : IsPreserved tables qt parameter ↔ value ∈ values)
    (delimited : Expression.Delimited rest)
    (enough : Suffices tables qt fuel parameter) : ReadsBack tables qt parameter fuel rest := by
  obtain ⟨shown, known, same⟩ := known
  apply readsBack_of_shown (.number shown.toInt)
  · exact readExpression_enumerator known delimited enough
  · rw [number, number_toInt, preserved, same]

theorem readsBack_focusReason (value : Int32) (delimited : Expression.Delimited rest)
    (enough : Suffices tables qt fuel (.focusReason value)) :
    ReadsBack tables qt (.focusReason value) fuel rest := by
  have known : ∃ shown, isEnumerator (stringForFocusReason value) shown = true ∧
      (shown = value ↔ value ∈ ([7, 0, 1, 2, 3, 4, 5, 6, 7] : List Int32)) :=
    isEnumerator_enumeratorString 7 (by decide +kernel) (by decide +kernel) value
  refine readsBack_enumerator known rfl ?_ delimited enough
  change value ∈ ([0, 1, 2, 3, 4, 5, 6, 7] : List Int32) ↔ _
  constructor
  · exact List.mem_cons_of_mem _
  · intro member
    rcases List.mem_cons.mp member with rfl | listed
    · decide
    · exact listed

theorem readsBack_mouseButton (value : Int32) (delimited : Expression.Delimited rest)
    (enough : Suffices tables qt fuel (.mouseButton value)) :
    ReadsBack tables qt (.mouseButton value) fuel rest := by
  have known : ∃ shown, isEnumerator (stringForMouseButton value) shown = true ∧
      (shown = value ↔ value ∈ ([0, 0x01, 0x02, 0x04, 0x08, 0x10] : List Int32)) :=
    isEnumerator_enumeratorString 0 (by decide +kernel) (by decide +kernel) value
  exact readsBack_enumerator known rfl Iff.rfl delimited enough

theorem readsBack_keyboardModifier (value : Int32)
    (delimited : Expression.Delimited rest)
    (enough : Suffices tables qt fuel (.keyboardModifier value)) :
    ReadsBack tables qt (.keyboardModifier value) fuel rest := by
  have known : ∃ shown, isEnumerator (stringForModifier value) shown = true ∧
      (shown = value ↔ value ∈ ([0, 0x02000000, 0x04000000, 0x08000000, 0x10000000, 0x20000000,
        0x40000000] : List Int32)) :=
    isEnumerator_enumeratorString 0 (by decide +kernel) (by decide +kernel) value
  exact readsBack_enumerator known rfl Iff.rfl delimited enough

theorem readsBack_orientation (value : Orientation)
    (delimited : Expression.Delimited rest)
    (enough : Suffices tables qt fuel (.orientation value)) :
    ReadsBack tables qt (.orientation value) fuel rest := by
  cases value with
  | horizontal =>
      have known : isEnumerator (printed tables qt (.orientation .horizontal)) 1 = true := by
        rw [printed, parametersString]
        decide +kernel
      apply readsBack_of_shown (.number 1)
      · exact readExpression_enumerator known delimited enough
      · exact iff_of_true rfl trivial
  | vertical =>
      have known : isEnumerator (printed tables qt (.orientation .vertical)) 2 = true := by
        rw [printed, parametersString]
        decide +kernel
      apply readsBack_of_shown (.number 2)
      · exact readExpression_enumerator known delimited enough
      · exact iff_of_true rfl trivial

theorem readsBack_key (value : Int32) (delimited : Expression.Delimited rest)
    (enough : Suffices tables qt fuel (.key value)) :
    ReadsBack tables qt (.key value) fuel rest := by
  have text : printed tables qt (.key value) =
      Expression.propertyText qtWord ((qt.keyName value).getD []) := by
    rw [printed, parametersString]
    rfl
  cases named : qt.keyName value with
  | none =>
      rw [named] at text
      have dotted : printed tables qt (.key value) =
          qtWord ++ [Expression.dot] := text
      have long := length_le_of_suffices enough dotted (by decide)
      obtain ⟨fuel, rfl⟩ := Nat.exists_eq_add_of_le' ((by decide : 3 ≤ 5).trans long)
      apply readsBack_of_none
      · rw [dotted, readExpression_ascii (by decide), List.append_assoc]
        apply Expression.expression_of_operand_none
        exact Expression.operand_dot (by decide) (by decide)
          (delimited_sourceText delimited)
      · change ¬(qt.keyName value).isSome = true
        rw [named]
        exact Bool.false_ne_true
  | some name =>
      have flags : Expression.Flags qt.environment qtWord [(name, value)] := by
        refine ⟨by decide, by decide, ?_, ?_⟩
        · intro part member
          rw [List.mem_singleton.mp member]
          exact qt.isName_keyName named
        · intro part member
          rw [List.mem_singleton.mp member, QtNamespace.environment]
          dsimp only
          rw [if_pos rfl, qt.property_keyName named]
          rfl
      rw [named] at text
      apply readsBack_of_shown (.number value.toInt)
      · exact readExpression_flags flags text delimited enough
      · refine iff_of_true rfl ?_
        change (qt.keyName value).isSome = true
        rw [named]
        rfl

/-! ### Sets of flags -/

/-- The bits that the loops find, and zero if there are none. -/
def flagBits (flags : Int32) : List Int32 :=
  let set := bits.filter fun bit => flags &&& bit ≠ 0
  if set = [] then [0] else set

theorem flagsString_eq (stringFor : Int32 → QString) (flags : Int32) :
    flagsString stringFor flags =
      Library.Separator.join (QString.ofString " | ") ((flagBits flags).map stringFor) := by
  rw [flagsString, flagBits]
  generalize bits.filter (fun bit => flags &&& bit ≠ 0) = set
  cases set with
  | nil => rfl
  | cons bit set => simp

/-- The flags together. -/
def union (flags : List Int32) : Int32 :=
  flags.foldl (fun joined flag => joined ||| flag) 0

theorem foldl_or (start : Int32) (flags : List Int32) :
    flags.foldl (fun joined flag => joined ||| flag) start = start ||| union flags := by
  induction flags generalizing start with
  | nil => exact Int32.or_zero.symm
  | cons flag flags ih =>
      rw [union, List.foldl_cons, List.foldl_cons, ih, ih, Int32.zero_or, Int32.or_assoc]

theorem union_cons (flag : Int32) (flags : List Int32) :
    union (flag :: flags) = flag ||| union flags := by
  rw [union, List.foldl_cons, foldl_or, Int32.zero_or]

theorem and_or (mask first second : Int32) :
    mask &&& (first ||| second) = (mask &&& first) ||| (mask &&& second) := by
  apply Int32.toBitVec_inj.mp
  simp only [Int32.toBitVec_and, Int32.toBitVec_or]
  exact BitVec.and_or_distrib_left

theorem union_and (mask : Int32) (flags : List Int32) :
    union (flags.map (mask &&& ·)) = mask &&& union flags := by
  induction flags with
  | nil => exact Int32.and_zero.symm
  | cons flag flags ih => rw [List.map_cons, union_cons, union_cons, ih, and_or]

theorem and_bit (flags : Int32) {bit : Int32} (member : bit ∈ bits) :
    flags &&& bit = 0 ∨ flags &&& bit = bit := by
  have powers : (List.range 32).all (fun position =>
      (1 <<< Int32.ofNat position).toBitVec = BitVec.twoPow 32 position) = true := by
    decide +kernel
  obtain ⟨position, inRange, rfl⟩ := List.mem_map.mp member
  have power := of_decide_eq_true (List.all_eq_true.mp powers position inRange)
  have meet := BitVec.and_twoPow flags.toBitVec position
  split at meet
  next =>
    right
    apply Int32.toBitVec_inj.mp
    rw [Int32.toBitVec_and, power, meet]
  next =>
    left
    apply Int32.toBitVec_inj.mp
    rw [Int32.toBitVec_and, power, meet]
    rfl

/-- A set is made of the bits that the loops find. -/
theorem union_filter (flags : Int32) (candidates : List Int32)
    (single : ∀ bit ∈ candidates, flags &&& bit = 0 ∨ flags &&& bit = bit) :
    union (candidates.filter fun bit => flags &&& bit ≠ 0) =
      union (candidates.map (flags &&& ·)) := by
  induction candidates with
  | nil => rfl
  | cons bit candidates ih =>
      have later := ih fun other member => single other (List.mem_cons_of_mem _ member)
      rw [List.map_cons, union_cons, ← later]
      by_cases none : flags &&& bit = 0
      · rw [List.filter_cons_of_neg (by simp [none]), none, Int32.zero_or]
      · have whole := (single bit List.mem_cons_self).resolve_left none
        rw [List.filter_cons_of_pos (by simpa using none), union_cons, whole]

theorem union_flagBits (flags : Int32) : union (flagBits flags) = flags := by
  have every : union bits = -1 := by decide
  have found : union (bits.filter fun bit => flags &&& bit ≠ 0) = flags := by
    rw [union_filter flags bits fun bit member => and_bit flags member, union_and, every,
      Int32.and_neg_one]
  rw [flagBits]
  split
  next none =>
    rw [none] at found
    exact (by decide : union [0] = union []).trans found
  next => exact found

theorem mem_of_mem_flagBits {flags bit : Int32} (member : bit ∈ flagBits flags) :
    bit ∈ 0 :: bits := by
  rw [flagBits] at member
  split at member
  next => exact List.mem_cons.mpr (.inl (List.mem_singleton.mp member))
  next => exact List.mem_cons_of_mem _ (List.mem_of_mem_filter member)

theorem flagBits_ne_nil (flags : Int32) : flagBits flags ≠ [] := by
  rw [flagBits]
  split
  next => exact List.cons_ne_nil _ _
  next some => exact some

/-- A parameter that is printed bit by bit has the value of those bits that have a name. -/
theorem readsBack_flags {stringFor : Int32 → QString} {mask flags : Int32}
    (table : (0 :: bits).all (fun bit => isEnumerator (stringFor bit) (mask &&& bit)) = true)
    (text : printed tables qt parameter = flagsString stringFor flags)
    (number : parameterValue parameter = .number flags.toInt)
    (preserved : IsPreserved tables qt parameter ↔ flags &&& mask = flags)
    (delimited : Expression.Delimited rest)
    (enough : Suffices tables qt fuel parameter) : ReadsBack tables qt parameter fuel rest := by
  have known : ∀ bit ∈ flagBits flags,
      stringFor bit = Expression.propertyText qtWord ((stringFor bit).drop 3) ∧
        ((stringFor bit).drop 3, mask &&& bit) ∈ enumerators := by
    intro bit member
    have found := List.all_eq_true.mp table bit (mem_of_mem_flagBits member)
    rw [isEnumerator, Bool.and_eq_true, decide_eq_true_eq, decide_eq_true_eq] at found
    exact found
  have named : (flagBits flags).map stringFor = (flagBits flags).map
      fun bit => Expression.propertyText qtWord ((stringFor bit).drop 3) :=
    List.map_congr_left fun bit member => (known bit member).1
  have whole : union ((flagBits flags).map (mask &&& ·)) = flags &&& mask := by
    rw [union_and, union_flagBits, Int32.and_comm]
  cases shape : flagBits flags with
  | nil => exact absurd shape (flagBits_ne_nil flags)
  | cons bit set =>
      rw [flagsString_eq, named, shape] at text
      rw [shape] at known whole
      have flagsKnown := flags_enumerators qt
        ((bit :: set).map fun bit => ((stringFor bit).drop 3, mask &&& bit)) (by
          intro part member
          obtain ⟨bit, isBit, rfl⟩ := List.mem_map.mp member
          exact (known bit isBit).2)
      have joined : printed tables qt parameter = Expression.flagsText qtWord
          ((bit :: set).map fun bit => ((stringFor bit).drop 3, mask &&& bit)) := by
        rw [text, Expression.flagsText, List.map_map]
        rfl
      have read := readExpression_flags flagsKnown joined delimited enough
      have value : ((set.map fun bit => ((stringFor bit).drop 3, mask &&& bit)).foldl
          (fun joined part => joined ||| part.2) (mask &&& bit)) = flags &&& mask := by
        rw [List.foldl_map, ← whole, List.map_cons, union_cons, ← foldl_or, List.foldl_map]
      apply readsBack_of_shown (.number (flags &&& mask).toInt)
      · rw [← value]
        exact read
      · rw [number, number_toInt, preserved]

theorem readsBack_mouseButtons (flags : Int32) (delimited : Expression.Delimited rest)
    (enough : Suffices tables qt fuel (.mouseButtons flags)) :
    ReadsBack tables qt (.mouseButtons flags) fuel rest := by
  have text : printed tables qt (.mouseButtons flags) = flagsString stringForMouseButton flags := by
    rw [printed, parametersString]
    rfl
  exact readsBack_flags (by decide +kernel) text rfl Iff.rfl delimited enough

theorem readsBack_keyboardModifiers (flags : Int32)
    (delimited : Expression.Delimited rest)
    (enough : Suffices tables qt fuel (.keyboardModifiers flags)) :
    ReadsBack tables qt (.keyboardModifiers flags) fuel rest := by
  have text : printed tables qt (.keyboardModifiers flags) = flagsString stringForModifier flags := by
    rw [printed, parametersString]
    rfl
  exact readsBack_flags (by decide +kernel) text rfl Iff.rfl delimited enough

end

end

end XmlToQtScript

end Hooq

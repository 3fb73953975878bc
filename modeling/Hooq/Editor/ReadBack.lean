import Hooq.Editor.Assertion

/-!
# Reading assertions back

What a statement that compares a property says when it is read as a script.  Only texts that
need no escapes, without place markers, come back as they are.
-/

namespace Hooq

open Library.StringLiteral

namespace ScriptEditor

variable (tables : CharacterTables)

/-! ## Parts of a statement -/

theorem sourceText_assertion (path property value : QString) :
    tables.sourceText (assertion path property value) =
      assertion (tables.sourceText path) (tables.sourceText property)
        (tables.sourceText value) := by
  have parts : tables.sourceText opened = opened ∧ tables.sourceText member = member ∧
      tables.sourceText comparand = comparand ∧ tables.sourceText [41, 59] = [41, 59] :=
    ⟨tables.sourceText_ascii (by decide), tables.sourceText_ascii (by decide),
      tables.sourceText_ascii (by decide), tables.sourceText_ascii (by decide)⟩
  simp only [assertion, tables.sourceText_append,
    tables.sourceText_cons (show quote < 0x80 by decide), parts]

/-- A statement with a path, a name and a value that are read, cut in front of the value. -/
theorem exists_parts {Double : Type} {toDouble : QString → Double}
    {pathText propertyText valueText path property : QString} {value : PropertyValue Double}
    (compares : Compares tables toDouble (assertion pathText propertyText valueText) path property
      value) :
    ∃ pathBody propertyBody text,
      (tables.sourceText pathText ++ quote :: (member ++ (tables.sourceText propertyText ++
        [quote]))) ++ (comparand ++ tables.sourceText valueText) =
        (pathBody ++ (member ++ propertyBody)) ++ (comparand ++ tables.sourceText text) ∧
      Reads pathBody path [] ∧ Reads propertyBody property [] ∧
      IsValue tables toDouble text value := by
  rcases compares with ⟨_, _, text, shape, ⟨pathBody, isPath, pathRead⟩,
    ⟨propertyBody, isProperty, propertyRead⟩, isValue⟩
  refine ⟨pathBody, propertyBody, text, ?_, reads_of_characters pathRead,
    reads_of_characters propertyRead, isValue⟩
  have isOpened : opened = QString.ofString "compare(objectFromPath(" ++ [quote] := by decide
  have isMember : member = QString.ofString ").property(" ++ [quote] := by decide
  have isEnd : QString.ofString ");" = [41, 59] := by decide
  have isComparand : comparand = QString.ofString "), " := rfl
  have ascii : tables.sourceText (QString.ofString "compare(objectFromPath(") =
      QString.ofString "compare(objectFromPath(" ∧
      tables.sourceText (QString.ofString ").property(") = QString.ofString ").property(" ∧
      tables.sourceText comparand = comparand ∧ tables.sourceText [41, 59] = [41, 59] :=
    ⟨tables.sourceText_ascii (by decide), tables.sourceText_ascii (by decide),
      tables.sourceText_ascii (by decide), tables.sourceText_ascii (by decide)⟩
  have sources := congrArg tables.sourceText shape
  rw [sourceText_assertion, isEnd, ← isComparand] at sources
  simp only [tables.sourceText_append, isPath, isProperty, ascii] at sources
  rw [assertion, isOpened, List.append_assoc] at sources
  have behind := List.append_cancel_left sources
  rw [isMember] at behind ⊢
  have both : (tables.sourceText pathText ++ quote :: (QString.ofString ").property(" ++ [quote] ++
      (tables.sourceText propertyText ++ [quote])) ++ (comparand ++ tables.sourceText valueText)) ++
        [41, 59] =
      (pathBody ++ (QString.ofString ").property(" ++ [quote] ++ propertyBody) ++
        (comparand ++ tables.sourceText text)) ++ [41, 59] := by
    simpa using behind
  exact List.append_cancel_right both

/-! ## The value -/

/-- A text is cut at the last place of a symbol. -/
theorem cut_at_last {α : Type} {symbol : α} {front other text rest : List α}
    (shape : front ++ symbol :: text = other ++ symbol :: rest)
    (textFree : symbol ∉ text) (restFree : symbol ∉ rest) : front = other ∧ text = rest := by
  rcases List.append_eq_append_iff.mp shape with ⟨between, isOther, same⟩ | ⟨between, isFront, same⟩
  · cases between with
    | nil => exact ⟨by simpa using isOther.symm, by simpa using same⟩
    | cons first between =>
        exfalso
        apply textFree
        rw [(List.cons.inj same).2]
        exact List.mem_append_right _ List.mem_cons_self
  · cases between with
    | nil => exact ⟨by simpa using isFront, by simpa using same.symm⟩
    | cons first between =>
        exfalso
        apply restFree
        rw [(List.cons.inj same).2]
        exact List.mem_append_right _ List.mem_cons_self

/-- Values without a comma begin behind the same comma. -/
theorem cut_of_free {front other text rest : QString}
    (shape : front ++ (comparand ++ text) = other ++ (comparand ++ rest))
    (textFree : 44 ∉ text) (restFree : 44 ∉ rest) : front = other ∧ text = rest := by
  have isComparand : ∀ behind : QString, comparand ++ behind = 41 :: 44 :: 32 :: behind :=
    fun behind => rfl
  have commas : (front ++ [41]) ++ 44 :: (32 :: text) = (other ++ [41]) ++ 44 :: (32 :: rest) := by
    rw [isComparand, isComparand] at shape
    simpa using shape
  rcases cut_at_last commas (List.not_mem_cons_of_ne_of_not_mem (by decide) textFree)
    (List.not_mem_cons_of_ne_of_not_mem (by decide) restFree) with ⟨fronts, texts⟩
  exact ⟨List.append_cancel_right fronts, (List.cons.inj texts).2⟩

theorem getLast?_comparand (front : QString) : (front ++ comparand).getLast? = some 32 := by
  rw [List.getLast?_append]
  rfl

/-- An escaped string is the last literal of its statement. -/
theorem cut_of_literal {front other body string value : QString} (reads : Reads body value [])
    (shape : front ++ (comparand ++ literal string) = other ++ (comparand ++ quote :: body)) :
    front = other ∧ literal string = quote :: body := by
  rw [literal, ← List.append_assoc, ← List.append_assoc] at shape
  have unescaped : ∀ before : QString, (before ++ comparand).getLast? ≠ some backslash := by
    intro before
    rw [getLast?_comparand]
    decide
  have escaped : ∀ before after, escapeString string ++ [quote] = before ++ quote :: after →
      before.getLast? = some backslash ∨ after = [] := by
    intro before after same
    cases after using List.reverseRecOn with
    | nil => exact .inr rfl
    | append_singleton after last =>
        left
        have inside : escapeString string ++ [quote] = (before ++ quote :: after) ++ [last] := by
          rw [same, List.append_assoc, List.cons_append]
        exact getLast?_of_escapeString (List.append_inj_left' inside rfl)
  rcases reads.unique shape (by simp) (unescaped front) (unescaped other) escaped with
    ⟨fronts, texts⟩
  exact ⟨List.append_cancel_right fronts, congrArg (quote :: ·) texts⟩

/-- The place of the value is no literal. -/
theorem place_ne_literal {front other body value : QString} (reads : Reads body value []) :
    front ++ (comparand ++ CharacterTables.place 3) ≠ other ++ (comparand ++ quote :: body) := by
  intro shape
  rcases reads.exists_body with ⟨rest, rfl⟩
  have whole : (front ++ (comparand ++ [0x25])) ++ [QString.digitOf 3] =
      (other ++ (comparand ++ quote :: rest)) ++ [quote] := by
    rw [CharacterTables.place] at shape
    simpa using shape
  exact absurd (List.append_inj_right' whole rfl) (by decide)

theorem sourceText_numeric {text : QString}
    (numeric : ∀ character ∈ text, isNumeric character = true) : tables.sourceText text = text := by
  apply tables.sourceText_ascii
  apply List.all_eq_true.mpr
  exact fun character member => decide_eq_true (isNumeric_spec (numeric character member)).1

theorem not_mem_numeric {text : QString} {symbol : QChar}
    (numeric : ∀ character ∈ text, isNumeric character = true)
    (special : symbol ∈ [44, 0x25, quote, backslash]) : symbol ∉ text :=
  fun member => (isNumeric_spec (numeric symbol member)).2 special

section Value

variable {Double : Type} {toDouble : QString → Double} {front other slot text : QString}
  {value : PropertyValue Double}

theorem isNumeric_escapeValue (noString : ∀ string, value ≠ .string string) :
    ∀ character ∈ escapeValue tables value, isNumeric character = true := by
  cases value with
  | bool value =>
      have words : (QString.ofString "false").all isNumeric = true ∧
          (QString.ofString "true").all isNumeric = true := by decide
      cases value with
      | false => exact List.all_eq_true.mp words.1
      | true => exact List.all_eq_true.mp words.2
  | int value => exact (isNumeric_of_isInteger (isInteger_number value.toInt)).2
  | string string => exact absurd rfl (noString string)
  | double value => exact List.forall_mem_nil _

/-- A numeral or a word that is read stands in its place. -/
theorem of_numeric (numeric : ∀ character ∈ text, isNumeric character = true)
    (noString : ∀ string, value ≠ .string string)
    (isSlot : slot = CharacterTables.place 3 ∨ slot = escapeValue tables value)
    (shape : front ++ (comparand ++ tables.sourceText slot) =
      other ++ (comparand ++ tables.sourceText text)) :
    front = other ∧ slot = text ∧ slot ≠ CharacterTables.place 3 := by
  have textFree := not_mem_numeric numeric (show 44 ∈ _ by decide)
  have percent : (0x25 : QChar) ∈ CharacterTables.place 3 := by decide
  rw [sourceText_numeric tables numeric] at shape
  rcases isSlot with rfl | rfl
  · rw [tables.sourceText_ascii (by decide)] at shape
    rcases cut_of_free shape (by decide) textFree with ⟨_, same⟩
    rw [same] at percent
    exact absurd percent (not_mem_numeric numeric (by decide))
  · have printed := isNumeric_escapeValue tables noString
    rw [sourceText_numeric tables printed] at shape
    rcases cut_of_free shape (not_mem_numeric printed (by decide)) textFree with ⟨fronts, same⟩
    refine ⟨fronts, same, ?_⟩
    intro isPlace
    rw [← isPlace] at percent
    exact not_mem_numeric printed (by decide) percent

/-- A value that is read stands in its place and has a text. -/
theorem of_value (isValue : IsValue tables toDouble text value)
    (isSlot : slot = CharacterTables.place 3 ∨ slot = escapeValue tables value)
    (shape : front ++ (comparand ++ tables.sourceText slot) =
      other ++ (comparand ++ tables.sourceText text)) :
    front = other ∧ slot ≠ CharacterTables.place 3 ∧ HasText tables value := by
  by_cases noString : ∀ string, value ≠ .string string
  · have worded := isNumeric_of_isValue tables noString isValue
    rcases of_numeric tables worded.2 noString isSlot shape with ⟨fronts, same, noPlace⟩
    refine ⟨fronts, noPlace, ?_⟩
    cases value with
    | bool value => exact trivial
    | int value => exact trivial
    | string string => exact absurd rfl (noString string)
    | double value =>
        rcases isSlot with isPlace | isEmpty
        · exact absurd isPlace noPlace
        · exact absurd (same.symm.trans isEmpty) worded.1
  · push Not at noString
    rcases noString with ⟨string, rfl⟩
    rcases isValue with ⟨body, isText, read⟩
    have reads := reads_of_characters read
    rw [isText] at shape
    rcases isSlot with rfl | isSlot
    · rw [tables.sourceText_ascii (by decide)] at shape
      exact absurd shape (place_ne_literal reads)
    · rw [isSlot, escapeValue_string, sourceText_literal] at shape
      rcases cut_of_literal reads shape with ⟨fronts, same⟩
      refine ⟨fronts, ?_, ?_⟩
      · rw [isSlot, escapeValue_string]
        intro isPlace
        exact absurd (List.cons.inj isPlace).1 (by decide)
      · apply (isLiteral_literal_iff tables string).mp
        rw [CharacterTables.IsLiteral, sourceText_literal, same]
        exact ⟨body, rfl, read⟩

end Value

/-! ## Where the literals end -/

/-- What stands between the literals of the path and of the name. -/
def inner : QString := ").property("

theorem quote_not_mem_inner : quote ∉ inner := by
  decide

theorem member_append (rest : QString) : member ++ rest = inner ++ quote :: rest := by
  have isMember : member = inner ++ [quote] := by decide
  rw [isMember, List.append_assoc, List.singleton_append]

theorem getLast?_inner (front : QString) : (front ++ inner).getLast? = some 40 := by
  rw [List.getLast?_append]
  rfl

theorem inner_unescaped (front : QString) : (front ++ inner).getLast? ≠ some backslash := by
  rw [getLast?_inner]
  decide

/-- What ends in the text between the literals ends in all of it or begins behind a quote. -/
theorem exists_of_append_inner {front before between : QString}
    (shape : before ++ inner = (front ++ [quote]) ++ between) :
    ∃ rest, between = rest ++ inner ∧ before = (front ++ [quote]) ++ rest := by
  rcases List.append_eq_append_iff.mp shape with ⟨rest, longer, isInner⟩ | ⟨rest, isBefore, same⟩
  · cases rest using List.reverseRecOn with
    | nil => exact ⟨[], by simpa using isInner.symm, by simpa using longer.symm⟩
    | append_singleton rest last =>
        rw [← List.append_assoc] at longer
        have isLast : quote = last := List.singleton_inj.mp (List.append_inj_right' longer rfl)
        have quoted : quote ∈ inner := by
          rw [isInner, isLast]
          simp
        exact absurd quoted quote_not_mem_inner
  · exact ⟨rest, same, isBefore⟩

/-- The literal of the name is where it is to be, or it begins within. -/
theorem literals_cases {pathText propertyText pathBody propertyBody path property : QString}
    (pathReads : Reads pathBody path []) (propertyReads : Reads propertyBody property [])
    (shape : pathText ++ quote :: (member ++ (propertyText ++ [quote])) =
      pathBody ++ (member ++ propertyBody)) :
    pathBody = pathText ++ [quote] ∧ propertyBody = propertyText ++ [quote] ∨
      propertyText ++ [quote] = member ++ propertyBody := by
  rw [member_append, member_append] at shape
  have cut : (pathText ++ [quote] ++ inner) ++ quote :: (propertyText ++ [quote]) =
      (pathBody ++ inner) ++ quote :: propertyBody := by
    simpa using shape
  rcases List.append_eq_append_iff.mp cut with ⟨between, paths, properties⟩ |
    ⟨between, paths, properties⟩
  · cases between with
    | nil =>
        left
        rw [List.append_nil] at paths
        exact ⟨List.append_cancel_right paths, (List.cons.inj properties).2.symm⟩
    | cons first between =>
        right
        rcases List.cons.inj properties with ⟨rfl, isProperty⟩
        rw [List.append_cons] at paths
        rcases exists_of_append_inner paths with ⟨rest, rfl, isBody⟩
        have bound : rest.length ≤ 0 := by
          rw [isBody, ← List.append_cons] at pathReads
          exact pathReads.length_le (inner_unescaped _)
        have empty : rest = [] := List.eq_nil_of_length_eq_zero (Nat.le_zero.mp bound)
        rw [isProperty, empty, member_append]
        rfl
  · cases between with
    | nil =>
        left
        rw [List.append_nil] at paths
        exact ⟨(List.append_cancel_right paths).symm, (List.cons.inj properties).2⟩
    | cons first between =>
        exfalso
        rcases List.cons.inj properties with ⟨rfl, isBody⟩
        have last : (quote :: between).getLast? = some 40 := by
          rw [← List.getLast?_append_of_ne_nil (pathBody ++ inner) (List.cons_ne_nil _ _), ← paths,
            getLast?_inner]
        have unescaped : between.getLast? ≠ some backslash := by
          intro escaped
          rw [List.getLast?_cons, escaped] at last
          exact absurd (Option.some.inj last) (by decide)
        rw [isBody] at propertyReads
        have bound := propertyReads.length_le unescaped
        simp at bound

/-! ## Literals in other texts -/

theorem not_reads_escaped {string back value : QString} :
    ¬Reads (escapeString string ++ quote :: (back ++ [quote])) value [] := by
  intro reads
  have read := characters_of_reads reads
  by_cases separated : ∃ separator ∈ string, isSeparator separator = true
  · rcases separated with ⟨separator, member, separates⟩
    rw [characters_escapeString_separator member separates] at read
    cases read
  · have inLine : ∀ character ∈ string, isSeparator character = false := by
      intro character member
      by_contra separates
      exact separated ⟨character, member, Bool.eq_true_of_not_eq_false separates⟩
    rw [characters_escapeString inLine] at read
    have empty : back ++ [quote] = [] := congrArg Prod.snd (Option.some.inj read)
    simp at empty

theorem literal_append (string back : QString) :
    literal string ++ (back ++ [quote]) =
      quote :: (escapeString string ++ quote :: (back ++ [quote])) := by
  simp [literal]

/-- A literal within a literal ends it. -/
theorem not_reads_literal {front string back value : QString} :
    ¬Reads (front ++ (literal string ++ (back ++ [quote]))) value [] := by
  rw [literal_append]
  intro reads
  rcases reads.at_quote with empty | ⟨_, _, readsOn⟩
  · simp at empty
  · exact not_reads_escaped readsOn

/-- The literal of a name that begins within does not go on behind another literal. -/
theorem not_reads_behind {front string back body value : QString}
    (shape : front ++ (literal string ++ (back ++ [quote])) = member ++ body) :
    ¬Reads body value [] := by
  rw [member_append, literal_append] at shape
  intro reads
  rcases List.append_eq_append_iff.mp shape with ⟨between, isInner, same⟩ | ⟨between, _, same⟩
  · cases between with
    | nil =>
        rw [← (List.cons.inj same).2] at reads
        exact not_reads_escaped reads
    | cons first between =>
        have quoted : quote ∈ inner := by
          rw [isInner, ← (List.cons.inj same).1]
          exact List.mem_append_right _ List.mem_cons_self
        exact quote_not_mem_inner quoted
  · cases between with
    | nil =>
        rw [(List.cons.inj same).2] at reads
        exact not_reads_escaped reads
    | cons first between =>
        rw [(List.cons.inj same).2, ← literal_append] at reads
        exact not_reads_literal reads

/-- A text that can stand in for the text of a value, as far as place markers go. -/
structure IsPlain (inserted : QString) : Prop where
  nonempty : inserted ≠ []
  numeric : ∀ character ∈ inserted, isNumeric character = true
  noL : inserted.head? ≠ some 0x4C
  noThree : ∀ rest, tables.Begins (inserted ++ rest) 2 →
    inserted.getLast?.bind tables.digitValue ≠ some 3

theorem IsPlain.free {inserted : QString} (plain : IsPlain tables inserted) {symbol : QChar}
    (special : symbol ∈ [44, 0x25, quote, backslash]) : symbol ∉ inserted :=
  not_mem_numeric plain.numeric special

/-- A text whose first character is no digit. -/
theorem isPlain_of_head {first : QChar} {rest : QString}
    (numeric : ∀ character ∈ first :: rest, isNumeric character = true) (noL : first ≠ 0x4C)
    (noDigit : QString.isDigit first = false) : IsPlain tables (first :: rest) where
  nonempty := List.cons_ne_nil first rest
  numeric := numeric
  noL := fun isL => noL (Option.some.inj isL)
  noThree := by
    intro behind begins
    have ascii := (isNumeric_spec (numeric first List.mem_cons_self)).1
    have none : tables.digitValue first = none := by
      rw [tables.digitValue_ascii ascii, noDigit]
      rfl
    rw [CharacterTables.Begins, List.cons_append, CharacterTables.markerNumber, none] at begins
    cases begins

theorem digitValue_digitOf {digit : Nat} (small : digit < 10) :
    tables.digitValue (QString.digitOf digit) = some digit := by
  rw [tables.digitValue_ascii (CharacterTables.digitOf_ne small).2.2,
    if_pos (QString.digitOf_spec small).1, (QString.digitOf_spec small).2.2.1]

theorem isPlain_digits (number : Nat) :
    IsPlain tables ((Library.Decimal.digits number).map QString.digitOf) := by
  have digits : ∀ character ∈ (Library.Decimal.digits number).map QString.digitOf,
      ∃ digit < 10, character = QString.digitOf digit := by
    intro character member
    rcases List.mem_map.mp member with ⟨digit, isDigit, rfl⟩
    exact ⟨digit, Library.Decimal.digits_lt_ten isDigit, rfl⟩
  refine ⟨?_, ?_, ?_, ?_⟩
  · rw [ne_eq, List.map_eq_nil_iff]
    exact Library.Decimal.digits_ne_nil number
  · intro character member
    rcases digits character member with ⟨digit, small, rfl⟩
    exact isNumeric_of_isDigit (QString.digitOf_spec small).1
  · intro isL
    rcases digits 0x4C (List.mem_of_head? isL) with ⟨digit, small, same⟩
    exact (CharacterTables.digitOf_ne small).2.1 same.symm
  · intro rest begins
    have small : ∀ digit ∈ Library.Decimal.digits number, digit < 10 := fun digit member =>
      Library.Decimal.digits_lt_ten member
    have noZero := Library.Expression.digits_head? number
    revert begins small noZero
    cases Library.Decimal.digits number with
    | nil => exact fun _ _ _ => nofun
    | cons first more =>
        intro begins small noZero
        have firstValue := digitValue_digitOf tables (small first List.mem_cons_self)
        rw [CharacterTables.Begins, List.map_cons, List.cons_append, CharacterTables.markerNumber,
          firstValue] at begins
        cases more with
        | nil =>
            rw [List.map_cons, List.map_nil, List.getLast?_singleton, Option.bind_some, firstValue]
            rintro ⟨⟩
            rw [List.map_nil, List.nil_append] at begins
            cases next : rest.head?.bind tables.digitValue with
            | none =>
                rw [next] at begins
                exact absurd (Option.some.inj begins) (by decide)
            | some units =>
                rw [next] at begins
                have isTwo : 10 * 3 + units = 2 := Option.some.inj begins
                omega
        | cons second more =>
            exfalso
            have secondValue := digitValue_digitOf tables
              (small second (List.mem_cons_of_mem first List.mem_cons_self))
            simp only [List.map_cons, List.cons_append, List.head?_cons, Option.bind_some,
              secondValue, Option.map_some, Option.some.injEq] at begins
            have isZero : first = 0 := by omega
            have alone := noZero (congrArg some isZero)
            simp at alone

/-- The text of a value is plain, unless it is a string. -/
theorem isPlain_escapeValue {Double : Type} {value : PropertyValue Double}
    (hasText : HasText tables value) (noString : ∀ string, value ≠ .string string) :
    IsPlain tables (escapeValue tables value) := by
  have numeric := isNumeric_escapeValue tables noString
  cases value with
  | bool value =>
      cases value with
      | false => exact isPlain_of_head tables numeric (by decide) (by decide)
      | true => exact isPlain_of_head tables numeric (by decide) (by decide)
  | int value =>
      rw [escapeValue, QString.number] at numeric ⊢
      split
      next negative =>
        rw [if_pos negative] at numeric
        exact isPlain_of_head tables numeric (by decide) (by decide)
      next => exact isPlain_digits tables _
  | string string => exact absurd rfl (noString string)
  | double value => cases hasText

theorem isPlain_true : IsPlain tables (QString.ofString "true") :=
  isPlain_escapeValue tables (show HasText tables (.bool true : PropertyValue Unit) from trivial)
    (fun _ => nofun)

/-- Where no literal has got into a text, its places have been filled with plain text. -/
theorem exists_plain {Double : Type} {value : PropertyValue Double} (hasText : HasText tables value)
    {text : QString} (noLiteral : ∀ front string back,
      tables.sourceText (tables.fill 3 (escapeValue tables value) text) ≠
        front ++ (literal string ++ back)) :
    ∃ inserted, IsPlain tables inserted ∧
      tables.fill 3 (escapeValue tables value) text = tables.fill 3 inserted text := by
  by_cases noString : ∀ string, value ≠ .string string
  · exact ⟨_, isPlain_escapeValue tables hasText noString, rfl⟩
  · push Not at noString
    rcases noString with ⟨string, rfl⟩
    have absent : 3 ∉ tables.markers text := by
      intro marked
      rcases tables.exists_last_mark marked (literal string) with
        ⟨_, _, back, filled, _, _, same⟩
      rw [escapeValue_string, same, tables.sourceText_append, tables.sourceText_append,
        sourceText_literal] at noLiteral
      exact noLiteral _ _ _ rfl
    refine ⟨_, isPlain_true tables, ?_⟩
    rw [tables.fill_of_not_mem absent, tables.fill_of_not_mem absent]

/-! ## The name -/

/-- Percent signs and backslashes weigh more than all of a text. -/
def heavy (text : QString) (character : QChar) : Nat :=
  if character ∈ [0x25, backslash] then text.length + 1 else 1

theorem heavy_pos (text : QString) (character : QChar) : 0 < heavy text character := by
  rw [heavy]
  split
  · exact Nat.succ_pos _
  · exact Nat.one_pos

theorem heavy_le (text : QString) (character : QChar) :
    heavy text character ≤ heavy text backslash := by
  have heaviest : heavy text backslash = text.length + 1 := if_pos (by decide)
  rw [heaviest, heavy]
  split
  · exact Nat.le_refl _
  · exact Nat.succ_le_succ (Nat.zero_le _)

theorem heavy_self {text : QString} (light : ∀ symbol ∈ [0x25, backslash], symbol ∉ text) :
    (text.map (heavy text)).sum < heavy text 0x25 := by
  have ones : text.map (heavy text) = text.map fun _ => 1 := by
    apply List.map_congr_left
    intro character member
    exact if_neg fun special => light character special member
  have percent : heavy text 0x25 = text.length + 1 := if_pos (by decide)
  rw [ones, percent]
  simp

theorem weight_sourceText_le (weight : QChar → Nat) (text : QString) :
    ((tables.sourceText text).map weight).sum ≤ (text.map weight).sum := by
  induction text with
  | nil => exact Nat.le_refl _
  | cons character rest ih =>
      rw [CharacterTables.sourceText] at ih ⊢
      rw [List.filter_cons]
      split
      · rw [List.map_cons, List.map_cons, List.sum_cons, List.sum_cons]
        exact Nat.add_le_add_left ih _
      · rw [List.map_cons, List.sum_cons]
        exact Nat.le_add_left_of_le ih

section Property

variable {inserted property : QString} (plain : IsPlain tables inserted)
include plain

theorem heavy_inserted : (inserted.map (heavy inserted)).sum < heavy inserted 0x25 := by
  apply heavy_self
  intro symbol special
  apply plain.free
  simp only [List.mem_cons, List.not_mem_nil, or_false] at special ⊢
  rcases special with rfl | rfl <;> simp

theorem heavy_fill_le (number : Nat) (text : QString) :
    ((tables.sourceText (tables.fill number inserted text)).map (heavy inserted)).sum ≤
      (text.map (heavy inserted)).sum :=
  (weight_sourceText_le tables _ _).trans
    (tables.weight_fill_le (heavy_inserted tables plain).le number text)

/-- The literal of a name does not begin within the name. -/
theorem not_begins_within {body : QString} (reads : Reads body property []) (number : Nat) :
    tables.sourceText (tables.fill number inserted property) ++ [quote] ≠ member ++ body := by
  intro shape
  have bound := heavy_fill_le tables plain number property
  have weights := congrArg (fun text => (text.map (heavy inserted)).sum) shape
  have atLeast : ((property ++ [quote]).map (heavy inserted)).sum ≤
      (body.map (heavy inserted)).sum := by
    rcases reads.plain_or_lighter (heavy_pos inserted) (heavy_le inserted) with
      ⟨same, _⟩ | lighter
    · rw [same]
    · exact lighter.le
  have members : 0 < (member.map (heavy inserted)).sum := by
    have isMember : member = 41 :: member.tail := by decide
    rw [isMember, List.map_cons, List.sum_cons]
    exact Nat.add_pos_left (heavy_pos inserted 41) _
  simp only [List.map_append, List.sum_append] at weights atLeast
  omega

/-- A name that is read back where it stands is inert. -/
theorem isInert_property
    (reads : Reads (tables.sourceText (tables.fill 3 inserted property) ++ [quote]) property [])
    (least : ∀ number ∈ tables.markers property, 3 ≤ number) : IsInert tables property := by
  have bound := heavy_fill_le tables plain 3 property
  rcases reads.plain_or_lighter (heavy_pos inserted) (heavy_le inserted) with
    ⟨shape, plains⟩ | lighter
  · have same : tables.sourceText (tables.fill 3 inserted property) = property :=
      List.append_cancel_right shape
    constructor
    · intro character member
      have visible : character ∈ tables.sourceText (tables.fill 3 inserted property) := by
        rw [same]
        exact member
      rw [CharacterTables.isVerbatim, plains character member, (List.mem_filter.mp visible).2]
      rfl
    · intro number marked
      rcases (least number marked).lt_or_eq with high | isThree
      · exact high
      · rw [← isThree] at marked
        have lighter := tables.weight_fill_lt (heavy_inserted tables plain) marked
        have visible := weight_sourceText_le tables (heavy inserted)
          (tables.fill 3 inserted property)
        rw [same] at visible
        omega
  · simp only [List.map_append, List.sum_append] at lighter
    omega

end Property

/-! ## The path -/

theorem stops_backslash : tables.Stops backslash :=
  tables.stops_ascii (by decide) (by decide) (by decide)

variable {tables} in
theorem IsInert.parts {text : QString} (inert : IsInert tables text) {character : QChar}
    (member : character ∈ text) :
    isPlain character = true ∧ tables.isFormat character = false := by
  have verbatim := inert.verbatim character member
  rw [CharacterTables.isVerbatim, Bool.and_eq_true, Bool.not_eq_true'] at verbatim
  exact verbatim

variable {tables} in
theorem IsInert.noBackslash {text : QString} (inert : IsInert tables text) : backslash ∉ text :=
  fun member => absurd (inert.parts member).1 (by decide)

section Path

variable {inserted property : QString} (plain : IsPlain tables inserted)
  (propertyInert : IsInert tables property)
include plain propertyInert

/-- The name and the value as they are put into a path. -/
theorem mem_fills {text : QString} {character : QChar}
    (member : character ∈ tables.fill 3 inserted (tables.fill 2 property text)) :
    character ≠ backslash ∧ tables.isFormat character = false ∨ character ∈ text := by
  rcases tables.mem_fill member with inInserted | filled
  · left
    constructor
    · rintro rfl
      exact plain.free tables (by decide) inInserted
    · exact tables.isFormat_ascii (isNumeric_spec (plain.numeric character inInserted)).1
  · rcases tables.mem_fill filled with inProperty | inText
    · left
      constructor
      · rintro rfl
        exact propertyInert.noBackslash inProperty
      · exact (propertyInert.parts inProperty).2
    · exact .inr inText

/-- A text that is seen behind a text without percent signs had no places. -/
theorem not_mem_markers_of_source {lead text : QString} (leadInert : 0x25 ∉ lead)
    (least : ∀ number ∈ tables.markers (tables.fill 2 property text), 3 ≤ number)
    (same : tables.sourceText (tables.fill 3 inserted (tables.fill 2 property text)) =
      lead ++ text) :
    2 ∉ tables.markers text ∧ 3 ∉ tables.markers text := by
  have visible : tables.sourceText (tables.fill 3 inserted (tables.fill 2 property text)) =
      tables.fill 3 inserted (tables.fill 2 property text) := by
    apply List.filter_eq_self.mpr
    intro character member
    rcases mem_fills tables plain propertyInert member with ⟨_, noFormat⟩ | inText
    · rw [noFormat]
      rfl
    · have seen : character ∈ tables.sourceText
          (tables.fill 3 inserted (tables.fill 2 property text)) := by
        rw [same]
        exact List.mem_append_right _ inText
      exact (List.mem_filter.mp seen).2
  rw [visible] at same
  exact tables.not_mem_markers_of_refill propertyInert.high (plain.free tables (by decide))
    plain.noL plain.nonempty plain.noThree leadInert least same

/-- Where the path has a backslash, some places would have to make up for its escapes. -/
theorem noBackslash_of_last {front escape decoded back : QString}
    (least : ∀ number ∈ tables.markers (tables.fill 2 property (decoded ++ backslash :: back)),
      3 ≤ number)
    (shape : tables.sourceText (tables.fill 3 inserted (tables.fill 2 property
      (decoded ++ backslash :: back))) = front ++ backslash :: (escape ++ back))
    (backFree : backslash ∉ back)
    (escapeFree : ∀ unit ∈ escape, unit ≠ backslash ∧ unit ≠ 0x25) : escape = [] := by
  have cut : tables.fill 2 property (decoded ++ backslash :: back) =
      tables.fill 2 property decoded ++ backslash :: tables.fill 2 property back := by
    rw [(stops_backslash tables).fill, tables.fill_cons_of_ne (by decide)]
  rw [cut] at least shape
  rw [(stops_backslash tables).fill, tables.fill_cons_of_ne (by decide), tables.sourceText_append,
    tables.sourceText_cons (by decide)] at shape
  have filledFree : backslash ∉
      tables.sourceText (tables.fill 3 inserted (tables.fill 2 property back)) := by
    intro seen
    rcases mem_fills tables plain propertyInert (List.mem_of_mem_filter seen) with
      ⟨other, _⟩ | inBack
    · exact other rfl
    · exact backFree inBack
  have free : backslash ∉ escape ++ back := by
    rw [List.mem_append, not_or]
    exact ⟨fun member => (escapeFree backslash member).1 rfl, backFree⟩
  have behind := (cut_at_last shape filledFree free).2
  have backLeast : ∀ number ∈ tables.markers (tables.fill 2 property back), 3 ≤ number := by
    intro number member
    apply least
    rw [List.append_cons]
    exact tables.mem_markers_append member
  have absent := not_mem_markers_of_source tables plain propertyInert
    (fun member => (escapeFree 0x25 member).2 rfl) backLeast behind
  rw [tables.fill_of_not_mem absent.1, tables.fill_of_not_mem absent.2] at behind
  have bound := congrArg List.length behind
  have shorter : (tables.sourceText back).length ≤ back.length := List.length_filter_le _ _
  rw [List.length_append] at bound
  exact List.eq_nil_of_length_eq_zero (by omega)

/-- A path that is read back is inert. -/
theorem isInert_path {path : QString}
    (reads : Reads (tables.sourceText (tables.fill 3 inserted (tables.fill 2 property path)) ++
      [quote]) path [])
    (pathLeast : ∀ number ∈ tables.markers path, 2 ≤ number)
    (least : ∀ number ∈ tables.markers (tables.fill 2 property path), 3 ≤ number) :
    IsInert tables path := by
  have many : (tables.sourceText (tables.fill 3 inserted (tables.fill 2 property path)) ++
      [quote]).count backslash ≤ path.count backslash + [].count backslash := by
    have noQuote : [quote].count backslash = 0 := by decide
    rw [List.count_append, noQuote, tables.count_sourceText _ (by decide)]
    exact (tables.count_fill_le (plain.free tables (by decide)) 3 _).trans
      (tables.count_fill_le propertyInert.noBackslash 2 path)
  rcases reads.last_backslash many with
    ⟨_, shape⟩ | ⟨front, escape, decoded, back, shape, rfl, nonempty, backFree, escapeFree⟩
  · have same : tables.sourceText (tables.fill 3 inserted (tables.fill 2 property path)) = path :=
      List.append_cancel_right shape
    have absent := not_mem_markers_of_source tables plain propertyInert List.not_mem_nil least same
    rw [same] at reads
    constructor
    · intro character member
      have seen : character ∈ tables.sourceText
          (tables.fill 3 inserted (tables.fill 2 property path)) := by
        rw [same]
        exact member
      rcases reads.plain_or_lighter (fun _ => Nat.one_pos) (fun _ => Nat.le_refl 1) with
        ⟨_, plains⟩ | lighter
      · rw [CharacterTables.isVerbatim, plains character member, (List.mem_filter.mp seen).2]
        rfl
      · exact absurd lighter (Nat.lt_irrefl _)
    · intro number member
      have other : number ≠ 2 ∧ number ≠ 3 := by
        constructor
        · rintro rfl
          exact absent.1 member
        · rintro rfl
          exact absent.2 member
      have atLeast := pathLeast number member
      omega
  · exfalso
    have cut : tables.sourceText (tables.fill 3 inserted (tables.fill 2 property
        (decoded ++ backslash :: back))) = front ++ backslash :: (escape ++ back) := by
      have both : tables.sourceText (tables.fill 3 inserted (tables.fill 2 property
          (decoded ++ backslash :: back))) ++ [quote] =
            (front ++ backslash :: (escape ++ back)) ++ [quote] := by
        simpa using shape
      exact List.append_cancel_right both
    exact nonempty (noBackslash_of_last tables plain propertyInert least cut backFree escapeFree)

end Path

/-! ## The statement -/

section Statement

variable {Double : Type} {toDouble : QString → Double} {path property line : QString}
  {value : PropertyValue Double}

theorem isComparable_of_compares (isLine : propertyAssert tables path property value = line ++ [10])
    (compares : Compares tables toDouble line path property value) :
    IsComparable tables path property value := by
  rcases exists_fills tables path property value with ⟨first, second, fills, inserted⟩
  rw [List.append_cancel_right (isLine.symm.trans inserted)] at compares
  rcases exists_parts tables compares with
    ⟨pathBody, propertyBody, text, parts, pathReads, propertyReads, isValue⟩
  have isSlot : tables.fill second (escapeValue tables value) (CharacterTables.place 3) =
        CharacterTables.place 3 ∨
      tables.fill second (escapeValue tables value) (CharacterTables.place 3) =
        escapeValue tables value := by
    by_cases isThree : second = 3
    · rw [isThree]
      exact .inr (tables.fill_place_self (by decide) _)
    · exact .inl (tables.fill_place_of_ne (by decide) isThree _)
  rcases of_value tables isValue isSlot parts with ⟨literals, noPlace, hasText⟩
  -- The place of the value is filled last, so no lower marker was left then.
  have isThree : second = 3 := by
    by_contra other
    exact noPlace (tables.fill_place_of_ne (by decide) other _)
  subst isThree
  have isTwo : first = 2 := by
    by_contra other
    have least := fills.place_least
    rw [tables.fill_place_of_ne (by decide) other, tables.markers_place (by decide)] at least
    exact absurd (least 2 (List.mem_singleton_self 2)) (by decide)
  subst isTwo
  have propertyLeast := fills.place_least
  rw [tables.fill_place_self (by decide)] at literals propertyLeast
  have split := literals_cases pathReads propertyReads literals
  have noLiteral : ∀ front string back,
      tables.sourceText (tables.fill 3 (escapeValue tables value) property) ≠
        front ++ (literal string ++ back) := by
    intro front string back same
    rw [same, List.append_assoc, List.append_assoc] at split
    rcases split with ⟨_, rfl⟩ | within
    · exact not_reads_literal propertyReads
    · exact not_reads_behind within propertyReads
  rcases exists_plain tables hasText noLiteral with ⟨plain, isPlain, isProperty⟩
  rw [isProperty] at split
  rcases split with ⟨rfl, rfl⟩ | within
  · have propertyInert := isInert_property tables isPlain propertyReads propertyLeast
    have noLiteralInPath : ∀ front string back,
        tables.sourceText (tables.fill 3 (escapeValue tables value)
          (tables.fill 2 property path)) ≠ front ++ (literal string ++ back) := by
      intro front string back same
      rw [same, List.append_assoc, List.append_assoc] at pathReads
      exact not_reads_literal pathReads
    rcases exists_plain tables hasText noLiteralInPath with ⟨pathPlain, isPathPlain, isPath⟩
    rw [isPath] at pathReads
    exact ⟨isInert_path tables isPathPlain propertyInert pathReads fills.path_least
      fills.filled_least, propertyInert, hasText⟩
  · exact absurd within (not_begins_within tables isPlain propertyReads 3)

/-- The statement compares the property if and only if path and name are inert and there is a
text for the value. -/
theorem compares_iff (isLine : propertyAssert tables path property value = line ++ [10]) :
    Compares tables toDouble line path property value ↔
      IsComparable tables path property value := by
  constructor
  · exact isComparable_of_compares tables isLine
  · intro comparable
    have shape := propertyAssert_of_isInert tables comparable.path comparable.property value
    rw [List.append_cancel_right (isLine.symm.trans shape)]
    exact compares_of_isComparable tables comparable toDouble

end Statement

end ScriptEditor

end Hooq

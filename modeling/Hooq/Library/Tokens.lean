import Mathlib.Data.Nat.Digits.Lemmas
import Hooq.Library.Decimal
import Hooq.Library.StringLiteral

/-!
# Tokens

The tokens of ECMAScript 3 that expressions of literals, names, `|` and calls are made of.
Texts with other tokens are outside of this part of the language.
-/

namespace Hooq.Library.Expression

open Library.StringLiteral

abbrev Text := List UInt16

/-! ## Tokens -/

def isLetter (unit : UInt16) : Bool :=
  65 ≤ unit && unit ≤ 90 || 97 ≤ unit && unit ≤ 122

/-- The classes of characters that tokens are told apart by.  Those of the ASCII characters
are fixed. -/
structure Alphabet where
  isSpace : UInt16 → Bool
  isStart : UInt16 → Bool
  isPart : UInt16 → Bool
  isSpace_ascii : ∀ {unit}, unit < 0x80 → isSpace unit = (9 ≤ unit && unit ≤ 13 || unit = 32)
  isStart_ascii : ∀ {unit}, unit < 0x80 →
    isStart unit = (isLetter unit || unit = 36 || unit = 95)
  isPart_ascii : ∀ {unit}, unit < 0x80 →
    isPart unit = (isLetter unit || unit = 36 || unit = 95 || isDecimalDigit unit)

inductive Token where
  | word (name : Text)
  | number (value : Nat)
  | string (value : Text)
  | punctuator (unit : UInt16)
  deriving DecidableEq, Repr

def comma : UInt16 := 44

def minus : UInt16 := 45

def dot : UInt16 := 46

def colon : UInt16 := 58

def bar : UInt16 := 124

def openParenthesis : UInt16 := 40

def closeParenthesis : UInt16 := 41

def openBrace : UInt16 := 123

def closeBrace : UInt16 := 125

/-- The unit is a punctuator of its own, in front of what follows it. -/
def isPunctuator (unit : UInt16) (next : Option UInt16) : Bool :=
  unit ∈ [comma, colon, openParenthesis, closeParenthesis, openBrace, closeBrace] ||
    unit = dot && !next.any isDecimalDigit ||
    (unit = minus || unit = bar) && !next.any (fun other => other = unit || other = 61)

variable (alphabet : Alphabet)

/-- A decimal integer that a number holds exactly. -/
def number (text : Text) : Option (Token × Text) :=
  let digits := text.takeWhile isDecimalDigit
  let behind := text.dropWhile isDecimalDigit
  let value := Decimal.value (digits.map fun digit => digit.toNat - 48)
  if (digits.head? = some 48 → digits.length = 1) ∧ value ≤ 2 ^ 53 ∧
      ¬behind.head?.any (fun unit => alphabet.isStart unit || unit = dot) then
    some (.number value, behind)
  else
    none

/-- The first token of a text, and what is behind it. -/
def token (text : Text) : Option (Token × Text) :=
  match text.dropWhile alphabet.isSpace with
  | [] => none
  | unit :: rest =>
      if unit = quote then
        (characters rest).map fun read => (.string read.1, read.2)
      else if isDecimalDigit unit then
        number alphabet (unit :: rest)
      else if isPunctuator unit rest.head? then
        some (.punctuator unit, rest)
      else if alphabet.isStart unit then
        some (.word (unit :: rest.takeWhile alphabet.isPart), rest.dropWhile alphabet.isPart)
      else
        none

/-- The text behind a punctuator. -/
def expect (unit : UInt16) (text : Text) : Option Text :=
  match token alphabet text with
  | some (.punctuator found, rest) => if found = unit then some rest else none
  | _ => none

/-- A word, and the text behind it. -/
def word (text : Text) : Option (Text × Text) :=
  match token alphabet text with
  | some (.word name, rest) => some (name, rest)
  | _ => none

/-! ## Reading tokens -/

section

variable {alphabet}

theorem token_space {unit : UInt16} (isSpace : alphabet.isSpace unit = true) (text : Text) :
    token alphabet (unit :: text) = token alphabet text := by
  rw [token, token, List.dropWhile_cons, if_pos isSpace]

theorem token_blank (text : Text) : token alphabet (32 :: text) = token alphabet text :=
  token_space (by rw [alphabet.isSpace_ascii (by decide)]; rfl) text

/-- What the first character of a token is matched against. -/
theorem token_of_not_space {unit : UInt16} (solid : alphabet.isSpace unit = false)
    (rest : Text) :
    token alphabet (unit :: rest) =
      if unit = quote then
        (characters rest).map fun read => (.string read.1, read.2)
      else if isDecimalDigit unit then
        number alphabet (unit :: rest)
      else if isPunctuator unit rest.head? then
        some (.punctuator unit, rest)
      else if alphabet.isStart unit then
        some (.word (unit :: rest.takeWhile alphabet.isPart), rest.dropWhile alphabet.isPart)
      else
        none := by
  rw [token, List.dropWhile_cons, solid]
  rfl

theorem token_quote (rest : Text) :
    token alphabet (quote :: rest) =
      (characters rest).map fun read => (.string read.1, read.2) := by
  rw [token_of_not_space (by rw [alphabet.isSpace_ascii (by decide)]; rfl), if_pos rfl]

/-- A punctuator that is one whatever follows it. -/
def isSimple (unit : UInt16) : Bool :=
  unit ∈ [comma, colon, openParenthesis, closeParenthesis, openBrace, closeBrace]

theorem token_punctuator {unit : UInt16} {rest : Text} (ascii : unit < 0x80)
    (other : unit ≠ quote ∧ isDecimalDigit unit = false ∧
      (9 ≤ unit && unit ≤ 13 || unit = 32) = false)
    (isPunctuator : isPunctuator unit rest.head? = true) :
    token alphabet (unit :: rest) = some (.punctuator unit, rest) := by
  rw [token_of_not_space (by rw [alphabet.isSpace_ascii ascii, other.2.2]), if_neg other.1,
    if_neg (by simp [other.2.1]), if_pos isPunctuator]

theorem token_simple {unit : UInt16} (simple : isSimple unit = true) (rest : Text) :
    token alphabet (unit :: rest) = some (.punctuator unit, rest) := by
  have facts : unit < 0x80 ∧ unit ≠ quote ∧ isDecimalDigit unit = false ∧
      (9 ≤ unit && unit ≤ 13 || unit = 32) = false := by
    simp only [isSimple, List.mem_cons, List.not_mem_nil, or_false, decide_eq_true_eq] at simple
    rcases simple with rfl | rfl | rfl | rfl | rfl | rfl <;> decide
  apply token_punctuator facts.1 facts.2
  rw [isPunctuator, ← isSimple, simple]
  rfl

theorem expect_eq {unit found : UInt16} {text rest : Text}
    (read : token alphabet text = some (.punctuator found, rest)) :
    expect alphabet unit text = if found = unit then some rest else none := by
  rw [expect, read]

theorem expect_simple {unit : UInt16} (simple : isSimple unit = true) (rest : Text) :
    expect alphabet unit (unit :: rest) = some rest :=
  (expect_eq (token_simple simple rest)).trans (if_pos rfl)

theorem expect_other {unit found : UInt16} (simple : isSimple found = true)
    (other : found ≠ unit) (rest : Text) : expect alphabet unit (found :: rest) = none :=
  (expect_eq (token_simple simple rest)).trans (if_neg other)

theorem expect_blank (unit : UInt16) (text : Text) :
    expect alphabet unit (32 :: text) = expect alphabet unit text := by
  rw [expect, expect, token_blank]

/-- A text in front of which an expression ends. -/
def Delimited (rest : Text) : Prop :=
  ∀ unit, rest.head? = some unit → unit ∈ [comma, closeParenthesis, closeBrace]

theorem Delimited.expect_none {rest : Text} (delimited : Delimited rest) {unit : UInt16}
    (other : unit ∉ [comma, closeParenthesis, closeBrace]) :
    expect alphabet unit rest = none := by
  cases rest with
  | nil => rfl
  | cons first rest =>
      have member := delimited first rfl
      have simple : isSimple first = true := by
        apply decide_eq_true
        simp only [List.mem_cons, List.not_mem_nil, or_false] at member
        rcases member with rfl | rfl | rfl <;> decide
      apply expect_other simple
      rintro rfl
      exact other member

theorem Delimited.token {rest : Text} (delimited : Delimited rest) (alphabet : Alphabet) :
    rest = [] ∨ ∃ unit behind, token alphabet rest = some (.punctuator unit, behind) := by
  cases rest with
  | nil => exact .inl rfl
  | cons first rest =>
      have member := delimited first rfl
      have simple : isSimple first = true := by
        apply decide_eq_true
        simp only [List.mem_cons, List.not_mem_nil, or_false] at member
        rcases member with rfl | rfl | rfl <;> decide
      exact .inr ⟨first, rest, token_simple simple rest⟩

theorem Delimited.word_none {rest : Text} (delimited : Delimited rest) :
    word alphabet rest = none := by
  rcases delimited.token alphabet with rfl | ⟨unit, behind, read⟩
  · rfl
  · rw [word, read]

/-! ### Words -/

/-- A word of ASCII letters, digits and underscores. -/
def isName : Text → Bool
  | [] => false
  | first :: rest =>
      isLetter first && rest.all fun unit => isLetter unit || isDecimalDigit unit || unit = 95

/-- A text in front of which a word ends. -/
def Breaks (rest : Text) : Prop :=
  ∀ unit, rest.head? = some unit → unit ∈ [32, comma, dot, openParenthesis, closeParenthesis,
    closeBrace]

theorem Delimited.breaks {rest : Text} (delimited : Delimited rest) : Breaks rest := by
  intro unit isFirst
  have member := delimited unit isFirst
  simp only [List.mem_cons, List.not_mem_nil, or_false] at member ⊢
  rcases member with rfl | rfl | rfl <;> simp

theorem breaks_cons {unit : UInt16}
    (member : unit ∈ [32, comma, dot, openParenthesis, closeParenthesis, closeBrace])
    (rest : Text) : Breaks (unit :: rest) := by
  rintro _ ⟨⟩
  exact member

theorem lt_of_isLetter {unit : UInt16} (letter : isLetter unit = true) : unit < 0x80 := by
  simp only [isLetter, Bool.or_eq_true, Bool.and_eq_true, decide_eq_true_eq] at letter
  rcases letter with upper | lower
  · exact UInt16.lt_of_le_of_lt upper.2 (by decide)
  · exact UInt16.lt_of_le_of_lt lower.2 (by decide)

theorem solid_of_le {unit : UInt16} (above : 48 ≤ unit) :
    (9 ≤ unit && unit ≤ 13 || unit = 32) = false ∧ unit ≠ quote := by
  constructor
  · rw [Bool.or_eq_false_iff, Bool.and_eq_false_iff, decide_eq_false_iff_not,
      decide_eq_false_iff_not, decide_eq_false_iff_not]
    constructor
    · exact .inr fun low => absurd (UInt16.le_trans above low) (by decide)
    · rintro rfl
      exact absurd above (by decide)
  · rintro rfl
    exact absurd above (by decide)

/-- A letter is no character of another kind of token. -/
theorem not_of_isLetter {unit : UInt16} (letter : isLetter unit = true) :
    (9 ≤ unit && unit ≤ 13 || unit = 32) = false ∧ isDecimalDigit unit = false ∧
      unit ∉ [quote, comma, minus, dot, colon, bar, openParenthesis, closeParenthesis, openBrace,
        closeBrace] := by
  have above : 65 ≤ unit := by
    simp only [isLetter, Bool.or_eq_true, Bool.and_eq_true, decide_eq_true_eq] at letter
    rcases letter with upper | lower
    · exact upper.1
    · exact UInt16.le_trans (by decide) lower.1
  refine ⟨(solid_of_le (UInt16.le_trans (by decide) above)).1, ?_, ?_⟩
  · rw [isDecimalDigit, Bool.and_eq_false_iff, decide_eq_false_iff_not, decide_eq_false_iff_not]
    exact .inr fun low => absurd (UInt16.le_trans above low) (by decide)
  · intro member
    have none : [quote, comma, minus, dot, colon, bar, openParenthesis, closeParenthesis,
        openBrace, closeBrace].all (fun unit => !isLetter unit) = true := by
      decide
    have noLetter := List.all_eq_true.mp none unit member
    rw [letter] at noLetter
    cases noLetter

theorem lt_of_isDecimalDigit {unit : UInt16} (digit : isDecimalDigit unit = true) :
    unit < 0x80 := by
  simp only [isDecimalDigit, Bool.and_eq_true, decide_eq_true_eq] at digit
  exact UInt16.lt_of_le_of_lt digit.2 (by decide)

theorem isPart_of_name {unit : UInt16}
    (part : (isLetter unit || isDecimalDigit unit || unit = 95) = true) :
    alphabet.isPart unit = true := by
  have ascii : unit < 0x80 := by
    simp only [Bool.or_eq_true, decide_eq_true_eq] at part
    rcases part with (letter | digit) | rfl
    · exact lt_of_isLetter letter
    · exact lt_of_isDecimalDigit digit
    · decide
  rw [alphabet.isPart_ascii ascii]
  simp only [Bool.or_eq_true, decide_eq_true_eq] at part ⊢
  rcases part with (letter | digit) | rfl
  · exact .inl (.inl (.inl letter))
  · exact .inr digit
  · exact .inl (.inr rfl)

theorem Breaks.isPart {rest : Text} (breaks : Breaks rest) (unit : UInt16)
    (isFirst : rest.head? = some unit) : alphabet.isPart unit = false := by
  have member := breaks unit isFirst
  simp only [List.mem_cons, List.not_mem_nil, or_false] at member
  rcases member with rfl | rfl | rfl | rfl | rfl | rfl <;>
    rw [alphabet.isPart_ascii (by decide)] <;> rfl

theorem takeWhile_append_of_break {part : UInt16 → Bool} {front rest : Text}
    (parts : ∀ unit ∈ front, part unit = true)
    (stops : ∀ unit, rest.head? = some unit → part unit = false) :
    (front ++ rest).takeWhile part = front ∧ (front ++ rest).dropWhile part = rest := by
  have behind : rest.takeWhile part = [] ∧ rest.dropWhile part = rest := by
    cases rest with
    | nil => exact ⟨rfl, rfl⟩
    | cons unit rest => simp [stops unit rfl]
  rw [List.takeWhile_append_of_pos parts, List.dropWhile_append_of_pos parts, behind.1, behind.2,
    List.append_nil]
  exact ⟨rfl, rfl⟩

theorem token_word {name rest : Text} (isName : isName name = true)
    (stops : ∀ unit, rest.head? = some unit → alphabet.isPart unit = false) :
    token alphabet (name ++ rest) = some (.word name, rest) := by
  cases name with
  | nil => cases isName
  | cons first name =>
      rw [Expression.isName, Bool.and_eq_true] at isName
      have ascii := lt_of_isLetter isName.1
      have start : alphabet.isStart first = true := by
        rw [alphabet.isStart_ascii ascii, isName.1]
        rfl
      obtain ⟨noSpace, noDigit, other⟩ := not_of_isLetter isName.1
      simp only [List.mem_cons, List.not_mem_nil, or_false, not_or] at other
      have noPunctuator : ∀ next, isPunctuator first next = false := by
        simp [isPunctuator, other]
      have parts : ∀ unit ∈ name, alphabet.isPart unit = true := fun unit member =>
        isPart_of_name (List.all_eq_true.mp isName.2 unit member)
      obtain ⟨taken, dropped⟩ := takeWhile_append_of_break parts stops
      rw [List.cons_append, token_of_not_space (by rw [alphabet.isSpace_ascii ascii, noSpace]),
        if_neg other.1, if_neg (by simp [noDigit]), if_neg (by simp [noPunctuator]), if_pos start,
        taken, dropped]

theorem token_name {name rest : Text} (isName : isName name = true) (breaks : Breaks rest) :
    token alphabet (name ++ rest) = some (.word name, rest) :=
  token_word isName breaks.isPart

/-! ### Numbers -/

/-- The decimal numeral of a number. -/
def numeral (value : Nat) : Text :=
  (Decimal.digits value).map fun digit => (48 + digit).toUInt16

theorem digit_spec {digit : Nat} (small : digit < 10) :
    isDecimalDigit (48 + digit).toUInt16 = true ∧ ((48 + digit).toUInt16).toNat - 48 = digit := by
  revert digit
  decide

theorem head?_numeral (value : Nat) (rest : Text) :
    ∀ unit, (numeral value ++ rest).head? = some unit → isDecimalDigit unit = true := by
  intro unit isFirst
  cases shape : Decimal.digits value with
  | nil => exact absurd shape (Decimal.digits_ne_nil value)
  | cons digit digits =>
      rw [numeral, shape] at isFirst
      cases isFirst
      exact (digit_spec (Decimal.digits_lt_ten (shape ▸ List.mem_cons_self))).1

theorem digits_head? (value : Nat) :
    (Decimal.digits value).head? = some 0 → (Decimal.digits value).length = 1 := by
  rw [Decimal.digits]
  split
  next => exact fun _ => rfl
  next nonzero =>
    intro isZero
    rw [List.head?_reverse, List.getLast?_eq_some_getLast
      (Nat.digits_ne_nil_iff_ne_zero.mpr nonzero), Option.some.injEq] at isZero
    exact absurd isZero (Nat.getLast_digit_ne_zero 10 nonzero)

theorem token_numeral {value : Nat} (exact : value ≤ 2 ^ 53) {rest : Text}
    (delimited : Delimited rest) :
    token alphabet (numeral value ++ rest) = some (.number value, rest) := by
  have digits : ∀ unit ∈ numeral value, isDecimalDigit unit = true := by
    intro unit member
    obtain ⟨digit, isDigit, rfl⟩ := List.mem_map.mp member
    exact (digit_spec (Decimal.digits_lt_ten isDigit)).1
  have stops : ∀ unit, rest.head? = some unit → isDecimalDigit unit = false ∧
      alphabet.isStart unit = false ∧ unit ≠ dot := by
    intro unit isFirst
    have member := delimited unit isFirst
    simp only [List.mem_cons, List.not_mem_nil, or_false] at member
    rcases member with rfl | rfl | rfl <;>
      refine ⟨by decide, ?_, by decide⟩ <;>
      rw [alphabet.isStart_ascii (by decide)] <;> rfl
  obtain ⟨taken, dropped⟩ := takeWhile_append_of_break digits fun unit isFirst =>
    (stops unit isFirst).1
  have values : (numeral value).map (fun digit => digit.toNat - 48) = Decimal.digits value := by
    rw [numeral, List.map_map]
    calc (Decimal.digits value).map _
      _ = (Decimal.digits value).map id :=
          List.map_congr_left fun digit member => (digit_spec (Decimal.digits_lt_ten member)).2
      _ = Decimal.digits value := List.map_id _
  have noZero : (numeral value).head? = some 48 → (numeral value).length = 1 := by
    intro isZero
    rw [numeral, List.head?_map, Option.map_eq_some_iff] at isZero
    obtain ⟨digit, isFirst, same⟩ := isZero
    have spec := (digit_spec (Decimal.digits_lt_ten (List.mem_of_head? isFirst))).2
    rw [same] at spec
    rw [numeral, List.length_map]
    exact digits_head? value (isFirst.trans (congrArg some spec.symm))
  have ends : ¬rest.head?.any (fun unit => alphabet.isStart unit || unit = dot) := by
    cases first : rest.head? with
    | none => exact Bool.false_ne_true
    | some unit => simp [stops unit first]
  have read : number alphabet (numeral value ++ rest) = some (.number value, rest) := by
    rw [number, taken, dropped, values, Decimal.value_digits]
    exact if_pos ⟨noZero, exact, ends⟩
  cases shape : numeral value with
  | nil =>
      rw [numeral, List.map_eq_nil_iff] at shape
      exact absurd shape (Decimal.digits_ne_nil value)
  | cons first more =>
      have digit := digits first (shape ▸ List.mem_cons_self)
      have facts : (9 ≤ first && first ≤ 13 || first = 32) = false ∧ first ≠ quote := by
        rw [isDecimalDigit, Bool.and_eq_true, decide_eq_true_eq] at digit
        exact solid_of_le digit.1
      rw [shape] at read
      rw [List.cons_append] at read ⊢
      rw [token_of_not_space
        (by rw [alphabet.isSpace_ascii (lt_of_isDecimalDigit digit), facts.1]),
        if_neg facts.2, if_pos digit, read]

end

end Hooq.Library.Expression

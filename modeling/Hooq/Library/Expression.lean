import Hooq.Library.Separator
import Hooq.Library.Tokens

/-!
# Expressions

A part of the expressions of ECMAScript 3 and their values: literals of booleans, integers,
strings and objects, properties of global objects that are numbers, `|`, and calls with one
argument.  A call stands for itself.  Texts outside of this part have no value.
-/

namespace Hooq.Library.Expression

open Library.StringLiteral

/-! ## Values -/

mutual

inductive Value where
  | boolean (value : Bool)
  | number (value : Int)
  | string (value : Text)
  | object (fields : Fields)
  | result (function : Text) (argument : Value)
  | method (object : Value) (name : Text) (argument : Value)
  deriving DecidableEq

/-- The properties of an object, in the order in which they are written. -/
inductive Fields where
  | none
  | field (key : Text) (value : Value) (rest : Fields)
  deriving DecidableEq

end

/-- What a script finds in its environment: numbers that are properties of global objects,
and functions. -/
structure Environment where
  property : Text → Text → Option Int
  isFunction : Text → Bool

/-- `|` on numbers. -/
def bitOr : Value → Value → Option Value
  | .number left, .number right => some (.number (Int32.ofInt left ||| Int32.ofInt right).toInt)
  | _, _ => none

def trueWord : Text := [116, 114, 117, 101]

def falseWord : Text := [102, 97, 108, 115, 101]

/-! ## Expressions -/

section

variable (alphabet : Alphabet) (environment : Environment)

mutual

/-- Operands that are joined by `|`. -/
def expression : Nat → Text → Option (Value × Text)
  | 0, _ => none
  | fuel + 1, text =>
      match operand fuel text with
      | some (first, rest) => alternatives fuel first rest
      | none => none

/-- What is joined to a value on its left. -/
def alternatives : Nat → Value → Text → Option (Value × Text)
  | 0, _, _ => none
  | fuel + 1, left, text =>
      match expect alphabet bar text with
      | some rest =>
          match operand fuel rest with
          | some (right, behind) =>
              match bitOr left right with
              | some joined => alternatives fuel joined behind
              | none => none
          | none => none
      | none => some (left, text)

def operand : Nat → Text → Option (Value × Text)
  | 0, _ => none
  | fuel + 1, text =>
      match token alphabet text with
      | some (.string value, rest) => some (.string value, rest)
      | some (.number value, rest) => some (.number value, rest)
      | some (.word name, rest) => reference fuel name rest
      | some (.punctuator unit, rest) =>
          if unit = minus then
            match token alphabet rest with
            | some (.number value, behind) => some (.number (-value), behind)
            | _ => none
          else if unit = openBrace then
            object fuel rest
          else
            none
      | none => none

/-- What begins with a word. -/
def reference : Nat → Text → Text → Option (Value × Text)
  | 0, _, _ => none
  | fuel + 1, name, text =>
      if name = trueWord then
        some (.boolean true, text)
      else if name = falseWord then
        some (.boolean false, text)
      else
        match expect alphabet dot text with
        | some rest =>
            match word alphabet rest with
            | some (property, behind) =>
                (environment.property name property).map fun value => (.number value, behind)
            | none => none
        | none =>
            match argument fuel text with
            | some (value, behind) =>
                if environment.isFunction name then
                  methods fuel (.result name value) behind
                else
                  none
            | none => none

/-- An argument in parentheses. -/
def argument : Nat → Text → Option (Value × Text)
  | 0, _ => none
  | fuel + 1, text =>
      match expect alphabet openParenthesis text with
      | some rest =>
          match expression fuel rest with
          | some (value, rest) =>
              (expect alphabet closeParenthesis rest).map fun behind => (value, behind)
          | none => none
      | none => none

/-- The methods that are called on a value. -/
def methods : Nat → Value → Text → Option (Value × Text)
  | 0, _, _ => none
  | fuel + 1, value, text =>
      match expect alphabet dot text with
      | some rest =>
          match word alphabet rest with
          | some (name, rest) =>
              match argument fuel rest with
              | some (parameter, behind) => methods fuel (.method value name parameter) behind
              | none => none
          | none => none
      | none => some (value, text)

/-- An object behind its opening brace. -/
def object : Nat → Text → Option (Value × Text)
  | 0, _ => none
  | fuel + 1, text =>
      match expect alphabet closeBrace text with
      | some rest => some (.object .none, rest)
      | none => (fields fuel text).map fun read => (.object read.1, read.2)

/-- The fields of an object up to its closing brace. -/
def fields : Nat → Text → Option (Fields × Text)
  | 0, _ => none
  | fuel + 1, text =>
      match token alphabet text with
      | some (.string key, rest) =>
          match (expect alphabet colon rest).bind (expression fuel) with
          | some (value, rest) =>
              match expect alphabet comma rest with
              | some rest => (fields fuel rest).map fun read => (.field key value read.1, read.2)
              | none =>
                  (expect alphabet closeBrace rest).map fun behind =>
                    (.field key value .none, behind)
          | none => none
      | _ => none

end

/-- The value of a text that is one expression. -/
def evaluate (text : Text) : Option Value :=
  match expression alphabet environment (text.length + 2) text with
  | some (value, rest) => if rest.dropWhile alphabet.isSpace = [] then some value else none
  | none => none

end

/-! ## Reading expressions -/

section

variable {alphabet} {environment} {fuel : Nat} {rest : Text}

theorem operand_blank (fuel : Nat) (text : Text) :
    operand alphabet environment fuel (32 :: text) = operand alphabet environment fuel text := by
  cases fuel with
  | zero => rfl
  | succ fuel => rw [operand, operand, token_blank]

theorem expression_blank (fuel : Nat) (text : Text) :
    expression alphabet environment fuel (32 :: text) =
      expression alphabet environment fuel text := by
  cases fuel with
  | zero => rfl
  | succ fuel => rw [expression, expression, operand_blank]

/-- A single operand in front of a delimiter. -/
theorem expression_of_operand {text : Text} {value : Value}
    (read : operand alphabet environment (fuel + 1) text = some (value, rest))
    (delimited : Delimited rest) :
    expression alphabet environment (fuel + 2) text = some (value, rest) := by
  rw [expression, read]
  dsimp only
  rw [alternatives, delimited.expect_none (by decide)]

theorem expression_of_operand_none {text : Text}
    (failed : operand alphabet environment fuel text = none) :
    expression alphabet environment (fuel + 1) text = none := by
  rw [expression, failed]

theorem bitOr_eq_some {left right joined : Value} (isJoined : bitOr left right = some joined) :
    (∃ number, left = .number number) ∧ ∃ number, joined = .number number := by
  rw [bitOr.eq_def] at isJoined
  split at isJoined
  next =>
    cases isJoined
    exact ⟨⟨_, rfl⟩, _, rfl⟩
  next => cases isJoined

/-- Only numbers are joined. -/
theorem alternatives_cases {left value : Value} {text : Text}
    (read : alternatives alphabet environment fuel left text = some (value, rest)) :
    value = left ∧ rest = text ∨
      (∃ number, left = .number number) ∧ ∃ number, value = .number number := by
  induction fuel generalizing left text with
  | zero => cases read
  | succ fuel ih =>
      rw [alternatives] at read
      split at read
      next =>
        split at read
        next right behind _ =>
          split at read
          next joined isJoined =>
            have numbers := bitOr_eq_some isJoined
            right
            refine ⟨numbers.1, ?_⟩
            rcases ih read with ⟨same, _⟩ | isNumber
            · exact same ▸ numbers.2
            · exact isNumber.2
          next => cases read
        next => cases read
      next =>
        cases read
        exact .inl ⟨rfl, rfl⟩

/-- An expression that is no number is an operand. -/
theorem operand_of_expression {text : Text} {value : Value}
    (read : expression alphabet environment (fuel + 1) text = some (value, rest))
    (other : ∀ number, value ≠ .number number) :
    operand alphabet environment fuel text = some (value, rest) := by
  rw [expression] at read
  split at read
  next first behind found =>
    rcases alternatives_cases read with ⟨rfl, rfl⟩ | ⟨_, number, isNumber⟩
    · exact found
    · exact absurd isNumber (other number)
  next => cases read

/-! ### Literals -/

theorem operand_string {body value : Text} (read : characters body = some (value, rest)) :
    operand alphabet environment (fuel + 1) (quote :: body) = some (.string value, rest) := by
  rw [operand, token_quote, read]
  rfl

theorem operand_string_none {body : Text} (malformed : characters body = none) :
    operand alphabet environment (fuel + 1) (quote :: body) = none := by
  rw [operand, token_quote, malformed]
  rfl

theorem operand_numeral {value : Nat} (exact : value ≤ 2 ^ 53) (delimited : Delimited rest) :
    operand alphabet environment (fuel + 1) (numeral value ++ rest) =
      some (.number value, rest) := by
  rw [operand, token_numeral exact delimited]

theorem operand_negative {value : Nat} (exact : value ≤ 2 ^ 53) (delimited : Delimited rest) :
    operand alphabet environment (fuel + 1) (minus :: (numeral value ++ rest)) =
      some (.number (-value), rest) := by
  have isMinus : token alphabet (minus :: (numeral value ++ rest)) =
      some (.punctuator minus, numeral value ++ rest) := by
    apply token_punctuator (by decide) (by decide)
    have digit := head?_numeral value rest
    cases first : (numeral value ++ rest).head? with
    | none => rfl
    | some unit =>
        have other : unit ≠ minus ∧ unit ≠ 61 := by
          have digit := digit unit first
          constructor <;>
            · rintro rfl
              exact absurd digit (by decide)
        simp [isPunctuator, other]
  rw [operand, isMinus]
  dsimp only
  rw [if_pos rfl, token_numeral exact delimited]

/-! ### Words -/

theorem operand_name {name : Text} (isName : isName name = true) (breaks : Breaks rest) :
    operand alphabet environment (fuel + 1) (name ++ rest) =
      reference alphabet environment fuel name rest := by
  rw [operand, token_name isName breaks]

theorem operand_true (breaks : Breaks rest) :
    operand alphabet environment (fuel + 2) (trueWord ++ rest) = some (.boolean true, rest) := by
  rw [operand_name (by decide) breaks, reference, if_pos rfl]

theorem operand_false (breaks : Breaks rest) :
    operand alphabet environment (fuel + 2) (falseWord ++ rest) = some (.boolean false, rest) := by
  rw [operand_name (by decide) breaks, reference, if_neg (by decide), if_pos rfl]

theorem expect_dot {rest : Text} (noDigit : rest.head?.any isDecimalDigit = false) :
    expect alphabet dot (dot :: rest) = some rest := by
  have isDot : token alphabet (dot :: rest) = some (.punctuator dot, rest) := by
    apply token_punctuator (by decide) (by decide)
    simp [isPunctuator, noDigit]
  exact (expect_eq isDot).trans (if_pos rfl)

theorem expect_dot_name {name : Text} (isName : isName name = true) (rest : Text) :
    expect alphabet dot (dot :: (name ++ rest)) = some (name ++ rest) := by
  apply expect_dot
  cases name with
  | nil => cases isName
  | cons first name =>
      rw [Expression.isName, Bool.and_eq_true] at isName
      exact (not_of_isLetter isName.1).2.1

theorem word_name {name : Text} (isName : isName name = true) (breaks : Breaks rest) :
    word alphabet (name ++ rest) = some (name, rest) := by
  rw [word, token_name isName breaks]

theorem operand_property {global property : Text}
    (isGlobal : isName global = true) (noLiteral : global ≠ trueWord ∧ global ≠ falseWord)
    (isProperty : isName property = true) (breaks : Breaks rest) :
    operand alphabet environment (fuel + 2) (global ++ dot :: (property ++ rest)) =
      (environment.property global property).map fun value => (.number value, rest) := by
  rw [operand_name isGlobal (breaks_cons (by decide) _), reference, if_neg noLiteral.1,
    if_neg noLiteral.2, expect_dot_name isProperty]
  dsimp only
  rw [word_name isProperty breaks]

/-- A dot with nothing behind it. -/
theorem operand_dot {global : Text} (isGlobal : isName global = true)
    (noLiteral : global ≠ trueWord ∧ global ≠ falseWord) (delimited : Delimited rest) :
    operand alphabet environment (fuel + 2) (global ++ dot :: rest) = none := by
  have noDigit : rest.head?.any isDecimalDigit = false := by
    cases first : rest.head? with
    | none => rfl
    | some unit =>
        have member := delimited unit first
        simp only [List.mem_cons, List.not_mem_nil, or_false] at member
        rcases member with rfl | rfl | rfl <;> rfl
  rw [operand_name isGlobal (breaks_cons (by decide) _), reference, if_neg noLiteral.1,
    if_neg noLiteral.2, expect_dot noDigit]
  dsimp only
  rw [delimited.word_none]

/-! ### Flags -/

/-- A property of a global object. -/
def propertyText (global property : Text) : Text :=
  global ++ dot :: property

theorem alternatives_end (left : Value) (delimited : Delimited rest) :
    alternatives alphabet environment (fuel + 1) left rest = some (left, rest) := by
  rw [alternatives, delimited.expect_none (by decide)]

theorem expect_bar (text : Text) :
    expect alphabet bar (32 :: bar :: 32 :: text) = some (32 :: text) := by
  have isBar : token alphabet (bar :: 32 :: text) = some (.punctuator bar, 32 :: text) :=
    token_punctuator (by decide) (by decide) rfl
  rw [expect_blank, expect_eq isBar, if_pos rfl]

theorem alternatives_bar (left : Value) (text : Text) :
    alternatives alphabet environment (fuel + 1) left (32 :: bar :: 32 :: text) =
      match operand alphabet environment fuel text with
      | some (right, behind) =>
          match bitOr left right with
          | some joined => alternatives alphabet environment fuel joined behind
          | none => none
      | none => none := by
  rw [alternatives, expect_bar]
  dsimp only
  rw [operand_blank]

theorem bitOr_numbers (left right : Int32) :
    bitOr (.number left.toInt) (.number right.toInt) =
      some (.number (left ||| right).toInt) := by
  rw [bitOr, Int32.ofInt_toInt, Int32.ofInt_toInt]

/-- Properties of a global object whose values are known. -/
structure Flags (environment : Environment) (global : Text) (parts : List (Text × Int32)) :
    Prop where
  isGlobal : isName global = true
  noLiteral : global ≠ trueWord ∧ global ≠ falseWord
  isName : ∀ part ∈ parts, isName part.1 = true
  property : ∀ part ∈ parts, environment.property global part.1 = some part.2.toInt

theorem Flags.tail {global : Text} {part : Text × Int32} {parts : List (Text × Int32)}
    (flags : Flags environment global (part :: parts)) : Flags environment global parts where
  isGlobal := flags.isGlobal
  noLiteral := flags.noLiteral
  isName := fun other member => flags.isName other (List.mem_cons_of_mem _ member)
  property := fun other member => flags.property other (List.mem_cons_of_mem _ member)

theorem Flags.operand {global : Text} {part : Text × Int32} {parts : List (Text × Int32)}
    (flags : Flags environment global (part :: parts)) (breaks : Breaks rest) :
    operand alphabet environment (fuel + 2) (propertyText global part.1 ++ rest) =
      some (.number part.2.toInt, rest) := by
  rw [propertyText, List.append_assoc, List.cons_append,
    operand_property flags.isGlobal flags.noLiteral (flags.isName part List.mem_cons_self) breaks,
    flags.property part List.mem_cons_self, Option.map_some]

/-- The text of flags, joined by `|`. -/
def flagsText (global : Text) (parts : List (Text × Int32)) : Text :=
  Separator.join [32, bar, 32] (parts.map fun part => propertyText global part.1)

theorem flagsText_cons (global : Text) (part next : Text × Int32)
    (parts : List (Text × Int32)) :
    flagsText global (part :: next :: parts) =
      propertyText global part.1 ++ 32 :: bar :: 32 :: flagsText global (next :: parts) := by
  rw [flagsText, List.map_cons, Separator.join_cons (by simp), List.append_assoc]
  rfl

theorem Flags.alternatives {global : Text} {part : Text × Int32} {parts : List (Text × Int32)}
    (flags : Flags environment global (part :: parts)) (delimited : Delimited rest)
    (left : Int32) :
    alternatives alphabet environment (fuel + parts.length + 3) (.number left.toInt)
        (32 :: bar :: 32 :: (flagsText global (part :: parts) ++ rest)) =
      some (.number (parts.foldl (fun joined part => joined ||| part.2) (left ||| part.2)).toInt,
        rest) := by
  induction parts generalizing part left with
  | nil =>
      have single : flagsText global [part] = propertyText global part.1 := rfl
      rw [alternatives_bar, single, flags.operand delimited.breaks]
      dsimp only
      rw [bitOr_numbers]
      exact alternatives_end _ delimited
  | cons next parts ih =>
      have breaks : Breaks (32 :: bar :: 32 :: (flagsText global (next :: parts) ++ rest)) :=
        breaks_cons (by decide) _
      rw [alternatives_bar, flagsText_cons, List.append_assoc, List.cons_append, List.cons_append,
        List.cons_append, flags.operand breaks]
      dsimp only
      rw [bitOr_numbers]
      exact ih flags.tail (left ||| part.2)

/-- The value of flags is that of the properties together. -/
theorem Flags.expression {global : Text} {part : Text × Int32} {parts : List (Text × Int32)}
    (flags : Flags environment global (part :: parts)) (delimited : Delimited rest) :
    expression alphabet environment (fuel + parts.length + 4)
        (flagsText global (part :: parts) ++ rest) =
      some (.number (parts.foldl (fun joined part => joined ||| part.2) part.2).toInt, rest) := by
  cases parts with
  | nil =>
      have single : flagsText global [part] = propertyText global part.1 := rfl
      rw [single]
      exact expression_of_operand (flags.operand delimited.breaks) delimited
  | cons next parts =>
      have breaks : Breaks (32 :: bar :: 32 :: (flagsText global (next :: parts) ++ rest)) :=
        breaks_cons (by decide) _
      rw [Expression.expression, flagsText_cons, List.append_assoc, List.cons_append,
        List.cons_append, List.cons_append, flags.operand breaks]
      have same : fuel + (next :: parts).length + 3 = fuel + 1 + parts.length + 3 := by
        rw [List.length_cons, ← Nat.add_assoc, Nat.add_right_comm fuel]
      dsimp only
      rw [same]
      exact flags.tail.alternatives delimited part.2

/-! ### Calls -/

theorem argument_eq (text : Text) :
    argument alphabet environment (fuel + 1) (openParenthesis :: text) =
      match expression alphabet environment fuel text with
      | some (value, rest) =>
          (expect alphabet closeParenthesis rest).map fun behind => (value, behind)
      | none => none := by
  rw [argument, expect_simple (by decide)]

theorem reference_call {name : Text} (noLiteral : name ≠ trueWord ∧ name ≠ falseWord)
    (text : Text) :
    reference alphabet environment (fuel + 1) name (openParenthesis :: text) =
      match argument alphabet environment fuel (openParenthesis :: text) with
      | some (value, behind) =>
          if environment.isFunction name then
            methods alphabet environment fuel (.result name value) behind
          else
            none
      | none => none := by
  have noDot : expect alphabet dot (openParenthesis :: text) = none :=
    (expect_eq (token_simple (by decide) text)).trans (if_neg (by decide))
  rw [reference, if_neg noLiteral.1, if_neg noLiteral.2, noDot]

theorem methods_end (value : Value) (delimited : Delimited rest) :
    methods alphabet environment (fuel + 1) value rest = some (value, rest) := by
  rw [methods, delimited.expect_none (by decide)]

theorem methods_call {name : Text} (isName : isName name = true) (value : Value)
    (text : Text) :
    methods alphabet environment (fuel + 1) value (dot :: (name ++ openParenthesis :: text)) =
      match argument alphabet environment fuel (openParenthesis :: text) with
      | some (parameter, behind) =>
          methods alphabet environment fuel (.method value name parameter) behind
      | none => none := by
  rw [methods, expect_dot_name isName]
  dsimp only
  rw [word_name isName (breaks_cons (by decide) text)]

/-- The value that the methods are called on in the end. -/
def Value.receiver : Value → Value
  | .method inner _ _ => inner.receiver
  | value => value

theorem receiver_methods {value final : Value} {text : Text}
    (read : methods alphabet environment fuel value text = some (final, rest)) :
    final.receiver = value.receiver := by
  induction fuel generalizing value text with
  | zero => cases read
  | succ fuel ih =>
      rw [methods] at read
      split at read
      next =>
        split at read
        next =>
          split at read
          next =>
            have later := ih read
            exact later
          next => cases read
        next => cases read
      next =>
        cases read
        rfl

/-- How many methods are called on the receiver. -/
def Value.depth : Value → Nat
  | .method inner _ _ => inner.depth + 1
  | _ => 0

theorem depth_methods {value final : Value} {text : Text}
    (read : methods alphabet environment fuel value text = some (final, rest)) :
    final = value ∨ value.depth < final.depth := by
  induction fuel generalizing value text with
  | zero => cases read
  | succ fuel ih =>
      rw [methods] at read
      split at read
      next =>
        split at read
        next =>
          split at read
          next =>
            right
            rcases ih read with rfl | deeper
            · exact Nat.lt_succ_self _
            · exact (Nat.lt_succ_self _).trans deeper
          next => cases read
        next => cases read
      next =>
        cases read
        exact .inl rfl

/-- What begins with a string is that string. -/
theorem expression_quote {body : Text} {value : Value}
    (read : expression alphabet environment (fuel + 2) (quote :: body) = some (value, rest)) :
    ∃ content, characters body = some (content, rest) ∧ value = .string content := by
  rw [expression] at read
  cases found : characters body with
  | none =>
      rw [operand_string_none found] at read
      cases read
  | some parts =>
      rw [operand_string found] at read
      rcases alternatives_cases read with ⟨rfl, rfl⟩ | ⟨⟨_, impossible⟩, _⟩
      · exact ⟨parts.1, rfl, rfl⟩
      · cases impossible

/-- The call of a function on a string. -/
theorem operand_call {function body content behind : Text}
    (isFunction : isName function = true)
    (noLiteral : function ≠ trueWord ∧ function ≠ falseWord)
    (known : environment.isFunction function = true)
    (read : characters body = some (content, closeParenthesis :: behind)) :
    operand alphabet environment (fuel + 5) (function ++ openParenthesis :: quote :: body) =
      methods alphabet environment (fuel + 3) (.result function (.string content)) behind := by
  have delimited : Delimited (closeParenthesis :: behind) := by
    rintro _ ⟨⟩
    decide
  rw [operand_name isFunction (breaks_cons (by decide) _), reference_call noLiteral, argument_eq,
    expression_of_operand (operand_string read) delimited]
  dsimp only
  rw [expect_simple (by decide), Option.map_some]
  dsimp only
  rw [if_pos known]

/-- The call of a name that is no function. -/
theorem operand_unknown {name text : Text} (isName : isName name = true)
    (noLiteral : name ≠ trueWord ∧ name ≠ falseWord)
    (unknown : environment.isFunction name = false) :
    operand alphabet environment (fuel + 2) (name ++ openParenthesis :: text) = none := by
  rw [operand_name isName (breaks_cons (by decide) _), reference_call noLiteral]
  split
  next => exact if_neg (by simp [unknown])
  next => rfl

/-- What is called on a function of a string begins with that string. -/
theorem receiver_operand_call {function body : Text} {value : Value}
    (isFunction : isName function = true)
    (noLiteral : function ≠ trueWord ∧ function ≠ falseWord)
    (read : operand alphabet environment (fuel + 5)
      (function ++ openParenthesis :: quote :: body) = some (value, rest)) :
    ∃ content behind, characters body = some (content, behind) ∧
      value.receiver = .result function (.string content) := by
  rw [operand_name isFunction (breaks_cons (by decide) _), reference_call noLiteral,
    argument_eq] at read
  split at read
  next argument behind isArgument =>
    split at isArgument
    next found after isExpression =>
      obtain ⟨content, isContent, rfl⟩ := expression_quote isExpression
      refine ⟨content, after, isContent, ?_⟩
      rw [Option.map_eq_some_iff] at isArgument
      obtain ⟨_, _, same⟩ := isArgument
      cases same
      split at read
      next => exact receiver_methods read
      next => cases read
    next => cases isArgument
  next => cases read

/-- A method that is called on a value that no method is called on. -/
theorem methods_method {name text : Text} (isName : isName name = true) (object : Value) :
    methods alphabet environment (fuel + 2) object
        (dot :: (name ++ openParenthesis :: text)) =
      match expression alphabet environment fuel text with
      | some (value, rest) =>
          match expect alphabet closeParenthesis rest with
          | some behind =>
              methods alphabet environment (fuel + 1) (.method object name value) behind
          | none => none
      | none => none := by
  rw [methods_call isName, argument_eq]
  cases expression alphabet environment fuel text with
  | none => rfl
  | some read =>
      dsimp only
      cases expect alphabet closeParenthesis read.2 <;> rfl

/-- The argument of the last method. -/
theorem expression_of_methods {name text : Text} {object value : Value}
    (isName : isName name = true)
    (read : methods alphabet environment (fuel + 2) object
      (dot :: (name ++ openParenthesis :: text)) = some (.method object name value, rest)) :
    ∃ behind, expression alphabet environment fuel text = some (value, behind) := by
  rw [methods_method isName] at read
  split at read
  next found after isExpression =>
    split at read
    next behind isClosed =>
      rcases depth_methods read with same | deeper
      · cases same
        exact ⟨after, isExpression⟩
      · exact absurd deeper (Nat.lt_irrefl _)
    next => cases read
  next => cases read

/-! ### Objects -/

theorem object_empty (fuel : Nat) (rest : Text) :
    object alphabet environment (fuel + 1) (closeBrace :: rest) =
      some (.object .none, rest) := by
  rw [object, expect_simple (by decide)]

theorem object_fields (body : Text) :
    object alphabet environment (fuel + 1) (quote :: body) =
      (fields alphabet environment fuel (quote :: body)).map
        fun read => (.object read.1, read.2) := by
  have noBrace : expect alphabet closeBrace (quote :: body) = none := by
    rw [expect, token_quote]
    cases characters body <;> rfl
  rw [object, noBrace]

theorem fields_field {body key text : Text}
    (read : characters body = some (key, colon :: text)) :
    fields alphabet environment (fuel + 1) (quote :: body) =
      match expression alphabet environment fuel text with
      | some (value, rest) =>
          match expect alphabet comma rest with
          | some rest =>
              (fields alphabet environment fuel rest).map
                fun read => (.field key value read.1, read.2)
          | none =>
              (expect alphabet closeBrace rest).map fun behind => (.field key value .none, behind)
      | none => none := by
  rw [fields, token_quote, read, Option.map_some]
  dsimp only
  rw [expect_simple (by decide), Option.bind_some]

theorem operand_object (text : Text) :
    operand alphabet environment (fuel + 1) (openBrace :: text) =
      object alphabet environment fuel text := by
  rw [operand, token_simple (by decide)]
  dsimp only
  rw [if_neg (by decide), if_pos rfl]

theorem fields_blank (fuel : Nat) (text : Text) :
    fields alphabet environment fuel (32 :: text) = fields alphabet environment fuel text := by
  cases fuel with
  | zero => rfl
  | succ fuel => rw [fields, fields, token_blank]

end

end Hooq.Library.Expression

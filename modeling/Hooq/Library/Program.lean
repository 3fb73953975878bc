import Mathlib.Tactic.SplitIfs
import Hooq.Library.Expression
import Hooq.Library.Separator

/-!
# Programs of calls

Programs whose statements are chains of calls, each call with one argument or none.  The
first function of a chain is one of the environment.  Other statements are outside of this
part of the language.
-/

namespace Hooq.Library.Expression

open Library.Separator Library.StringLiteral

/-- A call in a chain. -/
structure Call where
  name : Text
  argument : Option Value
  deriving DecidableEq

def semicolon : UInt16 := 59

section

variable (alphabet : Alphabet) (environment : Environment)

/-- The text behind a semicolon. -/
def behindSemicolon (text : Text) : Option Text :=
  match text.dropWhile alphabet.isSpace with
  | [] => none
  | unit :: rest => if unit = semicolon then some rest else none

/-- An argument in parentheses, or empty parentheses. -/
def arguments (fuel : Nat) (text : Text) : Option (Option Value × Text) :=
  match expect alphabet openParenthesis text with
  | some rest =>
      match expect alphabet closeParenthesis rest with
      | some behind => some (none, behind)
      | none =>
          match expression alphabet environment fuel rest with
          | some (value, rest) =>
              (expect alphabet closeParenthesis rest).map fun behind => (some value, behind)
          | none => none
  | none => none

/-- Calls with dots between them. -/
def chain : Nat → Text → Option (List Call × Text)
  | 0, _ => none
  | fuel + 1, text =>
      match word alphabet text with
      | some (name, rest) =>
          match arguments alphabet environment fuel rest with
          | some (argument, rest) =>
              match expect alphabet dot rest with
              | some behind =>
                  (chain fuel behind).map fun read => (⟨name, argument⟩ :: read.1, read.2)
              | none => some ([⟨name, argument⟩], rest)
          | none => none
      | none => none

/-- A chain of calls up to its semicolon. -/
def statement (fuel : Nat) (text : Text) : Option (List Call × Text) :=
  match chain alphabet environment fuel text with
  | some (calls, rest) =>
      if calls.head?.any (fun call => environment.isFunction call.name) then
        (behindSemicolon alphabet rest).map fun behind => (calls, behind)
      else
        none
  | none => none

/-- The statements of a text up to its end. -/
def program : Nat → Text → Option (List (List Call))
  | 0, _ => none
  | fuel + 1, text =>
      let begun := text.dropWhile alphabet.isSpace
      if begun = [] then
        some []
      else
        match statement alphabet environment (begun.length + 2) begun with
        | some (calls, rest) => (program fuel rest).map fun others => calls :: others
        | none => none

end

/-! ## Reading calls -/

section

variable {alphabet : Alphabet} {environment : Environment} {fuel : Nat} {rest : Text}

theorem behindSemicolon_semicolon (rest : Text) :
    behindSemicolon alphabet (semicolon :: rest) = some rest := by
  have solid : alphabet.isSpace semicolon = false := by
    rw [alphabet.isSpace_ascii (by decide)]
    rfl
  simp [behindSemicolon, solid]

/-- A semicolon is no token of an expression. -/
theorem expect_semicolon (unit : UInt16) (rest : Text) :
    expect alphabet unit (semicolon :: rest) = none := by
  have solid : alphabet.isSpace semicolon = false := by
    rw [alphabet.isSpace_ascii (by decide)]
    rfl
  have start : alphabet.isStart semicolon = false := by
    rw [alphabet.isStart_ascii (by decide)]
    rfl
  have other : isPunctuator semicolon rest.head? = false := by
    simp [isPunctuator, semicolon, comma, colon, openParenthesis, closeParenthesis, openBrace,
      closeBrace, dot, minus, bar]
  rw [expect, token_of_not_space solid, if_neg (by decide), if_neg (by decide), other, start]
  rfl

/-- No expression begins with a closing parenthesis. -/
theorem expect_of_expression {text : Text} {read : Value × Text}
    (isExpression : expression alphabet environment fuel text = some read) :
    expect alphabet closeParenthesis text = none := by
  cases fuel with
  | zero => cases isExpression
  | succ fuel =>
      cases found : expect alphabet closeParenthesis text with
      | none => rfl
      | some behind =>
          rw [expect] at found
          split at found
          next unit rest first =>
            split_ifs at found with closes
            subst closes
            have noOperand : operand alphabet environment fuel text = none := by
              cases fuel with
              | zero => rfl
              | succ fuel =>
                  rw [operand, first]
                  rfl
            rw [expression_of_operand_none noOperand] at isExpression
            cases isExpression
          next => cases found

theorem arguments_empty (fuel : Nat) (rest : Text) :
    arguments alphabet environment fuel (openParenthesis :: closeParenthesis :: rest) =
      some (none, rest) := by
  rw [arguments, expect_simple (by decide)]
  dsimp only
  rw [expect_simple (by decide)]

theorem arguments_of_expression {text : Text} {value : Value}
    (read : expression alphabet environment fuel text =
      some (value, closeParenthesis :: rest)) :
    arguments alphabet environment fuel (openParenthesis :: text) = some (some value, rest) := by
  rw [arguments, expect_simple (by decide)]
  dsimp only
  rw [expect_of_expression read, read]
  dsimp only
  rw [expect_simple (by decide), Option.map_some]

theorem expression_of_arguments {text : Text} {value : Value}
    (read : arguments alphabet environment fuel (openParenthesis :: text) =
      some (some value, rest)) :
    ∃ behind, expression alphabet environment fuel text = some (value, behind) := by
  rw [arguments, expect_simple (by decide)] at read
  dsimp only at read
  split at read
  next => cases read
  next =>
    split at read
    next found behind isExpression =>
      obtain ⟨after, -, same⟩ := Option.map_eq_some_iff.mp read
      cases same
      exact ⟨behind, isExpression⟩
    next => cases read

/-- The first call of a chain has the argument that stands behind its name. -/
theorem arguments_of_chain {name text : Text} {call : Call} {calls : List Call}
    (isName : isName name = true)
    (read : chain alphabet environment (fuel + 1) (name ++ openParenthesis :: text) =
      some (call :: calls, rest)) :
    call.name = name ∧ ∃ behind,
      arguments alphabet environment fuel (openParenthesis :: text) =
        some (call.argument, behind) := by
  rw [chain, word_name isName (breaks_cons (by decide) _)] at read
  dsimp only at read
  cases isArgument : arguments alphabet environment fuel (openParenthesis :: text) with
  | none =>
      rw [isArgument] at read
      cases read
  | some found =>
      rw [isArgument] at read
      dsimp only at read
      split at read
      next =>
        obtain ⟨others, -, same⟩ := Option.map_eq_some_iff.mp read
        cases same
        exact ⟨rfl, found.2, rfl⟩
      next =>
        cases read
        exact ⟨rfl, found.2, rfl⟩

theorem chain_last {name text : Text} {argument : Option Value} (isName : isName name = true)
    (read : arguments alphabet environment fuel (openParenthesis :: text) =
      some (argument, semicolon :: rest)) :
    chain alphabet environment (fuel + 1) (name ++ openParenthesis :: text) =
      some ([⟨name, argument⟩], semicolon :: rest) := by
  rw [chain, word_name isName (breaks_cons (by decide) _)]
  dsimp only
  rw [read]
  dsimp only
  rw [expect_semicolon]

theorem chain_cons {name next text : Text} {argument : Option Value}
    (isFirst : isName name = true) (isNext : isName next = true)
    (read : arguments alphabet environment fuel (openParenthesis :: text) =
      some (argument, dot :: (next ++ rest))) :
    chain alphabet environment (fuel + 1) (name ++ openParenthesis :: text) =
      (chain alphabet environment fuel (next ++ rest)).map
        fun read => (⟨name, argument⟩ :: read.1, read.2) := by
  rw [chain, word_name isFirst (breaks_cons (by decide) _)]
  dsimp only
  rw [read]
  dsimp only
  rw [expect_dot_name isNext]

/-- A name without parentheses is no call. -/
theorem chain_semicolon {name : Text} (isName : isName name = true) :
    chain alphabet environment (fuel + 1) (name ++ semicolon :: rest) = none := by
  have stops (unit : UInt16) (isFirst : (semicolon :: rest).head? = some unit) :
      alphabet.isPart unit = false := by
    cases isFirst
    rw [alphabet.isPart_ascii (by decide)]
    rfl
  rw [chain, word, token_word isName stops]
  dsimp only
  rw [arguments, expect_semicolon]

theorem statement_of_chain {text : Text} {call : Call} {calls : List Call}
    (known : environment.isFunction call.name = true)
    (read : chain alphabet environment fuel text = some (call :: calls, semicolon :: rest)) :
    statement alphabet environment fuel text = some (call :: calls, rest) := by
  rw [statement, read]
  dsimp only
  rw [if_pos (by simpa using known), behindSemicolon_semicolon, Option.map_some]

theorem chain_of_statement {text : Text} {calls : List Call}
    (read : statement alphabet environment fuel text = some (calls, rest)) :
    calls.head?.any (fun call => environment.isFunction call.name) = true ∧
      ∃ behind, chain alphabet environment fuel text = some (calls, behind) := by
  rw [statement] at read
  split at read
  next found behind isChain =>
    split_ifs at read with known
    obtain ⟨_, -, same⟩ := Option.map_eq_some_iff.mp read
    cases same
    exact ⟨known, behind, isChain⟩
  next => cases read

end

/-! ## One statement after the other -/

section

variable (alphabet : Alphabet) (environment : Environment) (allowed : UInt16 → Prop)

/-- In front of any other text of allowed units, a text is read as a statement exactly under
a condition. -/
structure IsStatement (text : Text) (calls : List Call) (condition : Prop) : Prop where
  begins : ∃ unit rest, text = unit :: rest ∧ alphabet.isSpace unit = false
  units : ∀ unit ∈ text, allowed unit
  complete : condition → ∀ fuel rest, text.length + 2 ≤ fuel → (∀ unit ∈ rest, allowed unit) →
    statement alphabet environment fuel (text ++ rest) = some (calls, rest)
  sound : ∀ fuel rest behind, text.length + 2 ≤ fuel → (∀ unit ∈ rest, allowed unit) →
    statement alphabet environment fuel (text ++ rest) = some (calls, behind) → condition

variable {alphabet environment allowed}

theorem program_blank {blank : Text} (isBlank : ∀ unit ∈ blank, alphabet.isSpace unit = true)
    (fuel : Nat) (text : Text) :
    program alphabet environment fuel (blank ++ text) =
      program alphabet environment fuel text := by
  cases fuel with
  | zero => rfl
  | succ fuel => rw [program, program, List.dropWhile_append_of_pos isBlank]

/-- A program goes on behind a statement exactly if the statement is read. -/
theorem IsStatement.program_iff {text : Text} {calls : List Call} {condition : Prop}
    (isStatement : IsStatement alphabet environment allowed text calls condition) (fuel : Nat)
    {rest : Text} (units : ∀ unit ∈ rest, allowed unit) (others : List (List Call)) :
    program alphabet environment (fuel + 1) (text ++ rest) = some (calls :: others) ↔
      condition ∧ program alphabet environment fuel rest = some others := by
  obtain ⟨unit, more, rfl, solid⟩ := isStatement.begins
  have begun : (unit :: more ++ rest).dropWhile alphabet.isSpace = unit :: more ++ rest := by
    rw [List.cons_append, List.dropWhile_cons, solid]
    rfl
  have enough : (unit :: more).length + 2 ≤ (unit :: more ++ rest).length + 2 := by
    rw [List.length_append]
    exact Nat.add_le_add_right (Nat.le_add_right _ _) 2
  have isMore : unit :: more ++ rest ≠ [] := List.cons_ne_nil _ _
  rw [program, begun, if_neg isMore]
  constructor
  · intro read
    split at read
    next found behind isFirst =>
      obtain ⟨later, isRest, same⟩ := Option.map_eq_some_iff.mp read
      cases same
      have holds := isStatement.sound _ rest behind enough units isFirst
      rw [isStatement.complete holds _ rest enough units] at isFirst
      cases isFirst
      exact ⟨holds, isRest⟩
    next => cases read
  · rintro ⟨holds, isRest⟩
    rw [isStatement.complete holds _ rest enough units]
    dsimp only
    rw [isRest, Option.map_some]

variable {Entry : Type} {text : Entry → Text} {calls : Entry → List Call}
  {condition : Entry → Prop} {blank : Text}

theorem units_join (units : ∀ unit ∈ blank, allowed unit) {entries : List Entry}
    (statements : ∀ entry ∈ entries,
      IsStatement alphabet environment allowed (text entry) (calls entry) (condition entry)) :
    ∀ unit ∈ join blank (entries.map text), allowed unit := by
  induction entries with
  | nil => exact List.forall_mem_nil _
  | cons first entries ih =>
      obtain ⟨isFirst, others⟩ := List.forall_mem_cons.mp statements
      cases entries with
      | nil => simpa [join] using isFirst.units
      | cons next entries =>
          intro unit member
          rw [List.map_cons, join_cons (by simp), List.mem_append, List.mem_append] at member
          rcases member with (here | between) | later
          · exact isFirst.units unit here
          · exact units unit between
          · exact ih others unit later

/-- Each statement has a text. -/
theorem length_le_join {entries : List Entry}
    (statements : ∀ entry ∈ entries,
      IsStatement alphabet environment allowed (text entry) (calls entry) (condition entry)) :
    entries.length ≤ (join blank (entries.map text)).length := by
  induction entries with
  | nil => exact Nat.le_refl 0
  | cons first entries ih =>
      obtain ⟨isFirst, others⟩ := List.forall_mem_cons.mp statements
      obtain ⟨unit, rest, shape, -⟩ := isFirst.begins
      have later := ih others
      cases entries with
      | nil => simp [join, shape]
      | cons next entries =>
          rw [List.map_cons, join_cons (by simp), shape]
          simp only [List.length_append, List.length_cons] at later ⊢
          omega

/-- Statements with blanks between them are read as a program exactly if each of them is
read. -/
theorem program_join_iff (isBlank : ∀ unit ∈ blank, alphabet.isSpace unit = true)
    (units : ∀ unit ∈ blank, allowed unit) (entries : List Entry)
    (statements : ∀ entry ∈ entries,
      IsStatement alphabet environment allowed (text entry) (calls entry) (condition entry))
    (fuel : Nat) (enough : entries.length < fuel) :
    program alphabet environment fuel (join blank (entries.map text)) =
        some (entries.map calls) ↔
      ∀ entry ∈ entries, condition entry := by
  induction entries generalizing fuel with
  | nil =>
      obtain ⟨fuel, rfl⟩ := Nat.exists_eq_add_of_lt enough
      exact iff_of_true rfl (List.forall_mem_nil _)
  | cons first entries ih =>
      obtain ⟨isFirst, others⟩ := List.forall_mem_cons.mp statements
      cases fuel with
      | zero => exact absurd enough (Nat.not_lt_zero _)
      | succ fuel =>
          have later := ih others fuel (Nat.lt_of_succ_lt_succ enough)
          have joined : ∃ behind, join blank ((first :: entries).map text) =
              text first ++ behind ∧ (∀ unit ∈ behind, allowed unit) ∧
                program alphabet environment fuel behind =
                  program alphabet environment fuel (join blank (entries.map text)) := by
            cases entries with
            | nil => exact ⟨[], by simp [join], List.forall_mem_nil _, rfl⟩
            | cons next entries =>
                refine ⟨blank ++ join blank ((next :: entries).map text), by simp [join], ?_,
                  program_blank isBlank fuel _⟩
                intro unit member
                rcases List.mem_append.mp member with between | behind
                · exact units unit between
                · exact units_join units others unit behind
          obtain ⟨behind, shape, allAllowed, same⟩ := joined
          rw [shape, List.map_cons, isFirst.program_iff fuel allAllowed, same, later,
            List.forall_mem_cons]

end

end Hooq.Library.Expression

import Mathlib.Data.List.Basic

/-!
# Comments and strings

Which parts of a text are comments and which are strings, where comments go up to the end
of a line or stand between brackets, and strings stand in either of two quotes.  Behind
an escape a symbol means nothing, in code and in comments as well as in strings: an escaped
star does not end a comment, and an escaped quote does not begin a string.  A text is read
from left to right, two symbols at a time where both belong together.
-/

namespace Hooq.Library.Comments

structure Marks (Symbol : Type) where
  slash : Symbol
  star : Symbol
  escape : Symbol
  quote : Symbol
  otherQuote : Symbol
  distinct : [slash, star, escape, quote, otherQuote].Nodup

/-- Where a text is read. -/
inductive Mode where
  | code
  | lineComment
  | blockComment
  | quoted
  | otherQuoted
  deriving DecidableEq, Repr

/-- What a symbol belongs to.  The quotes of a string belong to the code. -/
inductive Part where
  | code
  | comment
  | string
  deriving DecidableEq, Repr

namespace Mode

def part : Mode → Part
  | .code => .code
  | .lineComment | .blockComment => .comment
  | .quoted | .otherQuoted => .string

/-- Only a comment in brackets goes on behind the end of a line. -/
def carried : Mode → Mode
  | .blockComment => .blockComment
  | _ => .code

variable {Symbol : Type} [DecidableEq Symbol] (marks : Marks Symbol)

/-- The mode behind one symbol. -/
def enter (mode : Mode) (symbol : Symbol) : Mode :=
  match mode with
  | .code =>
      if symbol = marks.quote then .quoted
      else if symbol = marks.otherQuote then .otherQuoted
      else .code
  | .quoted => if symbol = marks.quote then .code else .quoted
  | .otherQuoted => if symbol = marks.otherQuote then .code else .otherQuoted
  | mode => mode

/-- The mode behind two symbols that belong together. -/
def enterPair (mode : Mode) (first second : Symbol) : Option Mode :=
  if first = marks.escape then
    some mode
  else
    match mode with
    | .code =>
        if first = marks.slash then
          if second = marks.star then some .blockComment
          else if second = marks.slash then some .lineComment
          else none
        else
          none
    | .blockComment =>
        if first = marks.star ∧ second = marks.slash then some .code else none
    | _ => none

/-- What one symbol belongs to.  A quote that begins or ends a string is code. -/
def partOf (mode : Mode) (symbol : Symbol) : Part :=
  if mode.enter marks symbol = mode then mode.part else .code

/-- What two symbols that belong together are part of. -/
def partOfPair (mode : Mode) (first : Symbol) : Part :=
  if first = marks.escape then mode.part else .comment

end Mode

section

variable {Symbol : Type} [DecidableEq Symbol] (marks : Marks Symbol)

/-- What each symbol of a line belongs to. -/
def parts : Mode → List Symbol → List Part
  | _, [] => []
  | mode, [last] => [mode.partOf marks last]
  | mode, first :: second :: rest =>
      match mode.enterPair marks first second with
      | some next =>
          mode.partOfPair marks first :: mode.partOfPair marks first :: parts next rest
      | none => mode.partOf marks first :: parts (mode.enter marks first) (second :: rest)

/-- The mode at the end of a line. -/
def after : Mode → List Symbol → Mode
  | mode, [] => mode
  | mode, [last] => mode.enter marks last
  | mode, first :: second :: rest =>
      match mode.enterPair marks first second with
      | some next => after next rest
      | none => after (mode.enter marks first) (second :: rest)

/-- What each symbol of each line of a document belongs to. -/
def documentParts : Mode → List (List Symbol) → List (List Part)
  | _, [] => []
  | mode, line :: lines =>
      parts marks mode line :: documentParts (after marks mode line).carried lines

variable {marks}

theorem length_parts (mode : Mode) (text : List Symbol) :
    (parts marks mode text).length = text.length := by
  induction mode, text using parts.induct marks with
  | case1 mode => rfl
  | case2 mode last => rfl
  | case3 mode first second rest next pair ih =>
      rw [parts, pair]
      simp only [List.length_cons, ih]
  | case4 mode first second rest pair ih =>
      rw [parts, pair]
      simp only [List.length_cons, ih]

theorem Mode.eq_of_enterPair {mode next : Mode} {first second : Symbol}
    (pair : mode.enterPair marks first second = some next) (plain : first ≠ marks.escape) :
    mode = .code ∧ first = marks.slash ∧ next.part = .comment ∨
      mode = .blockComment ∧ second = marks.slash ∧ next = .code := by
  cases mode with
  | code =>
      rw [enterPair, if_neg plain] at pair
      split at pair
      next isSlash =>
        refine .inl ⟨rfl, isSlash, ?_⟩
        split at pair
        · cases pair
          rfl
        · split at pair
          · cases pair
            rfl
          · cases pair
      next => cases pair
  | blockComment =>
      rw [enterPair, if_neg plain] at pair
      split at pair
      next closes =>
        cases pair
        exact .inr ⟨rfl, closes.2, rfl⟩
      next => cases pair
  | _ =>
      rw [enterPair.eq_def, if_neg plain] at pair
      cases pair

theorem Mode.enterPair_escape (mode : Mode) (second : Symbol) :
    mode.enterPair marks marks.escape second = some mode := by
  rw [enterPair.eq_def, if_pos rfl]

/-- A comment or a string is left for the code at its closing quote only, unless two
symbols close it. -/
theorem Mode.quote_of_partOf {mode : Mode} {symbol : Symbol} (inside : mode.part ≠ .code)
    (leaves : mode.partOf marks symbol = .code) :
    symbol = marks.quote ∨ symbol = marks.otherQuote := by
  rw [partOf] at leaves
  split at leaves
  next => exact absurd leaves inside
  next changes =>
    cases mode with
    | code => exact absurd rfl inside
    | lineComment => exact absurd rfl changes
    | blockComment => exact absurd rfl changes
    | quoted =>
        rw [enter] at changes
        split at changes
        next isQuote => exact .inl isQuote
        next => exact absurd rfl changes
    | otherQuoted =>
        rw [enter] at changes
        split at changes
        next isQuote => exact .inr isQuote
        next => exact absurd rfl changes

theorem head_parts {mode : Mode} {text : List Symbol} (inside : mode.part ≠ .code)
    (leaves : (parts marks mode text)[0]? = some .code) :
    text[0]? = some marks.quote ∨ text[0]? = some marks.otherQuote := by
  cases text with
  | nil => cases leaves
  | cons first rest =>
      have quoted (single : mode.partOf marks first = .code) :
          (first :: rest)[0]? = some marks.quote ∨ (first :: rest)[0]? = some marks.otherQuote :=
        (Mode.quote_of_partOf inside single).imp (congrArg some) (congrArg some)
      cases rest with
      | nil => exact quoted (Option.some.inj leaves)
      | cons second rest =>
          rw [parts] at leaves
          cases pair : mode.enterPair marks first second with
          | none =>
              rw [pair] at leaves
              exact quoted (Option.some.inj leaves)
          | some next =>
              rw [pair] at leaves
              have both : mode.partOfPair marks first = .code := Option.some.inj leaves
              rw [Mode.partOfPair] at both
              split at both
              · exact absurd both inside
              · cases both

/-- Between a comment or a string and the code behind it stands a mark: the slash of the
one or the quote of the other. -/
theorem mark_between {mode : Mode} {text : List Symbol} {position : Nat} {part : Part}
    (inside : part ≠ .code) (here : (parts marks mode text)[position]? = some part)
    (next : (parts marks mode text)[position + 1]? = some .code) :
    text[position]? = some marks.slash ∨ text[position + 1]? = some marks.quote ∨
      text[position + 1]? = some marks.otherQuote := by
  induction mode, text using parts.induct marks generalizing position with
  | case1 mode => cases here
  | case2 mode last => cases next
  | case3 mode first second rest entered pair ih =>
      rw [parts, pair] at here next
      cases position with
      | zero =>
          have same := (Option.some.inj here).symm.trans (Option.some.inj next)
          exact absurd same inside
      | succ position =>
          cases position with
          | zero =>
              have both : mode.partOfPair marks first = part := Option.some.inj here
              by_cases escaped : first = marks.escape
              · rw [escaped, Mode.enterPair_escape, Option.some.injEq] at pair
                rw [Mode.partOfPair, if_pos escaped] at both
                exact .inr (head_parts (pair ▸ both ▸ inside) next)
              · rcases Mode.eq_of_enterPair pair escaped with
                  ⟨-, -, comment⟩ | ⟨-, isSlash, -⟩
                · exact .inr (head_parts (by simp [comment]) next)
                · exact .inl (congrArg some isSlash)
          | succ position => exact ih here next
  | case4 mode first second rest pair ih =>
      rw [parts, pair] at here next
      cases position with
      | zero =>
          have single : mode.partOf marks first = part := Option.some.inj here
          rw [Mode.partOf] at single
          split at single
          next stays =>
            rw [stays] at next
            exact .inr (head_parts (single ▸ inside) next)
          next => exact absurd single.symm inside
      | succ position => exact ih here next

end

end Hooq.Library.Comments

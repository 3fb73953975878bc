import Mathlib.Data.List.Basic

/-!
# Matches in a text

Searching a text for a pattern and replacing its matches, from left to right and without
overlap.  What it means for an item of the pattern to fit a symbol of the text is open.
-/

namespace Hooq.Library.Matches

variable {α β : Type*} (fits : β → α → Bool)

/-- The text begins with a match. -/
def begins : List β → List α → Bool
  | [], _ => true
  | _ :: _, [] => false
  | item :: pattern, symbol :: text => fits item symbol && begins pattern text

/-- Where the first match is. -/
def first (pattern : List β) : List α → Option Nat
  | [] => none
  | symbol :: rest =>
      if begins fits pattern (symbol :: rest) then
        some 0
      else
        (first pattern rest).map (· + 1)

/-- Where the first match is whose neighbours are accepted.  The search goes on one symbol
behind a match that is not.  The first argument counts the symbols still to be skipped, and
the second one is the symbol in front of the text. -/
def firstFrom (accepts : Option α → Option α → Bool) (pattern : List β) :
    Nat → Option α → List α → Option Nat
  | _, _, [] => none
  | skipped + 1, _, symbol :: rest =>
      (firstFrom accepts pattern skipped (some symbol) rest).map (· + 1)
  | 0, before, symbol :: rest =>
      if begins fits pattern (symbol :: rest) then
        if accepts before ((symbol :: rest).drop pattern.length).head? then
          some 0
        else
          (firstFrom accepts pattern pattern.length (some symbol) rest).map (· + 1)
      else
        (firstFrom accepts pattern 0 (some symbol) rest).map (· + 1)

/-- Replace the matches.  The first argument counts the symbols of a match still to be
skipped. -/
def replaceFrom (pattern : List β) (replacement : List α) : Nat → List α → List α
  | _, [] => []
  | skipped + 1, _ :: rest => replaceFrom pattern replacement skipped rest
  | 0, symbol :: rest =>
      if begins fits pattern (symbol :: rest) then
        replacement ++ replaceFrom pattern replacement (pattern.length - 1) rest
      else
        symbol :: replaceFrom pattern replacement 0 rest

def replace (pattern : List β) (replacement text : List α) : List α :=
  replaceFrom fits pattern replacement 0 text

variable {fits} {pattern : List β}

theorem length_le_of_begins {text : List α} (matched : begins fits pattern text = true) :
    pattern.length ≤ text.length := by
  induction pattern generalizing text with
  | nil => exact Nat.zero_le _
  | cons item pattern ih =>
      cases text with
      | nil => cases matched
      | cons symbol text =>
          rw [begins, Bool.and_eq_true] at matched
          exact Nat.succ_le_succ (ih matched.2)

/-- A match is inside of the text. -/
theorem firstFrom_le {accepts : Option α → Option α → Bool} {skipped index : Nat}
    {before : Option α} {text : List α}
    (found : firstFrom fits accepts pattern skipped before text = some index) :
    index + pattern.length ≤ text.length := by
  have later {skipped index : Nat} {symbol : α} {rest : List α}
      (ih : ∀ {skipped index : Nat} {before : Option α},
        firstFrom fits accepts pattern skipped before rest = some index →
          index + pattern.length ≤ rest.length)
      (found : (firstFrom fits accepts pattern skipped (some symbol) rest).map (· + 1) =
        some index) : index + pattern.length ≤ (symbol :: rest).length := by
    rcases Option.map_eq_some_iff.mp found with ⟨behind, later, rfl⟩
    have inside := ih later
    rw [List.length_cons]
    omega
  induction text generalizing skipped index before with
  | nil => cases skipped <;> cases found
  | cons symbol rest ih =>
      cases skipped with
      | succ skipped => exact later ih found
      | zero =>
          rw [firstFrom] at found
          split at found
          next matched =>
            split at found
            next =>
              cases found
              rw [Nat.zero_add]
              exact length_le_of_begins matched
            next => exact later ih found
          next => exact later ih found

/-- Where all neighbours are accepted, the first match is found. -/
theorem firstFrom_eq_first {accepts : Option α → Option α → Bool}
    (all : ∀ before behind, accepts before behind = true) (before : Option α) (text : List α) :
    firstFrom fits accepts pattern 0 before text = first fits pattern text := by
  induction text generalizing before with
  | nil => rfl
  | cons symbol rest ih => rw [firstFrom, first, all, if_pos rfl, ih]

variable {replacement : List α}

theorem replaceFrom_skip (skipped : Nat) (text : List α) :
    replaceFrom fits pattern replacement skipped text =
      replace fits pattern replacement (text.drop skipped) := by
  induction text generalizing skipped with
  | nil => cases skipped <;> rfl
  | cons symbol rest ih =>
      cases skipped with
      | zero => rfl
      | succ skipped => exact ih skipped

theorem replace_of_begins (nonempty : pattern ≠ []) {text : List α}
    (matched : begins fits pattern text = true) :
    replace fits pattern replacement text =
      replacement ++ replace fits pattern replacement (text.drop pattern.length) := by
  have positive := List.length_pos_of_ne_nil nonempty
  cases text with
  | nil => exact absurd (length_le_of_begins matched) (Nat.not_le_of_lt positive)
  | cons symbol rest =>
      obtain ⟨length, isLength⟩ := Nat.exists_eq_succ_of_ne_zero (Nat.ne_of_gt positive)
      rw [replace, replaceFrom, if_pos matched, replaceFrom_skip, isLength]
      rfl

theorem replace_of_none {text : List α} (none : first fits pattern text = none) :
    replace fits pattern replacement text = text := by
  induction text with
  | nil => rfl
  | cons symbol rest ih =>
      rw [first] at none
      split at none
      next => cases none
      next unmatched =>
        rw [replace, replaceFrom, if_neg unmatched]
        exact congrArg (symbol :: ·) (ih (Option.map_eq_none_iff.mp none))

/-- The first match is replaced, and then those behind it. -/
theorem replace_of_first (nonempty : pattern ≠ []) {text : List α} {index : Nat}
    (found : first fits pattern text = some index) :
    replace fits pattern replacement text =
      text.take index ++
        (replacement ++ replace fits pattern replacement (text.drop (index + pattern.length))) := by
  induction text generalizing index with
  | nil => cases found
  | cons symbol rest ih =>
      rw [first] at found
      split at found
      next matched =>
        cases found
        rw [Nat.zero_add]
        exact replace_of_begins nonempty matched
      next unmatched =>
        rcases Option.map_eq_some_iff.mp found with ⟨behind, isFirst, rfl⟩
        have later := ih isFirst
        rw [replace, replaceFrom, if_neg unmatched, List.take_succ_cons, List.cons_append,
          Nat.add_right_comm, List.drop_succ_cons]
        exact congrArg (symbol :: ·) later

end Hooq.Library.Matches

import Mathlib.Data.List.Basic
import Mathlib.Data.List.Infix

/-!
# Joining, splitting and replacing with a separator

The three operations every textual path syntax is built from, over lists of an
arbitrary symbol type.  Searches are leftmost and non-overlapping, so a
separator of several symbols can straddle the border between a component and
the separator that follows it; `Guards` names the components for which that
does not happen.
-/

namespace Hooq.Library.Separator

variable {α : Type*} [DecidableEq α]

/-- Replace the occurrences of `before`, found from left to right without
overlap.  The first argument counts the symbols of a match still to be
skipped. -/
def replaceFrom (before after : List α) : Nat → List α → List α
  | _, [] => []
  | 0, symbol :: rest =>
      if before <+: symbol :: rest then
        after ++ replaceFrom before after (before.length - 1) rest
      else
        symbol :: replaceFrom before after 0 rest
  | skipped + 1, _ :: rest => replaceFrom before after skipped rest

def replace (before after text : List α) : List α :=
  replaceFrom before after 0 text

/-- Split at the occurrences of `separator`, found from left to right without
overlap.  The first argument counts the symbols of a match still to be
skipped. -/
def splitFrom (separator : List α) : Nat → List α → List (List α)
  | _, [] => [[]]
  | 0, symbol :: rest =>
      if separator <+: symbol :: rest then
        [] :: splitFrom separator (separator.length - 1) rest
      else
        (splitFrom separator 0 rest).modifyHead (symbol :: ·)
  | skipped + 1, _ :: rest => splitFrom separator skipped rest

def split (separator text : List α) : List (List α) :=
  splitFrom separator 0 text

omit [DecidableEq α] in
/-- Join components, with the separator between neighbours only. -/
def join (separator : List α) : List (List α) → List α
  | [] => []
  | [component] => component
  | component :: next :: rest => component ++ separator ++ join separator (next :: rest)

omit [DecidableEq α] in
theorem join_cons {separator component : List α} {rest : List (List α)} (nonempty : rest ≠ []) :
    join separator (component :: rest) = component ++ separator ++ join separator rest := by
  cases rest with
  | nil => exact absurd rfl nonempty
  | cons next rest => rfl

omit [DecidableEq α] in
theorem join_concat {separator last : List α} {front : List (List α)} (nonempty : front ≠ []) :
    join separator (front ++ [last]) = join separator front ++ separator ++ last := by
  induction front with
  | nil => exact absurd rfl nonempty
  | cons component front ih =>
      cases front with
      | nil => simp [join]
      | cons next front =>
          rw [List.cons_append, join_cons (by simp), join_cons (by simp), ih (by simp)]
          simp only [List.append_assoc]

theorem replaceFrom_skip (before after text : List α) (skipped : Nat) :
    replaceFrom before after skipped text = replace before after (text.drop skipped) := by
  induction text generalizing skipped with
  | nil => cases skipped <;> simp [replace, replaceFrom]
  | cons symbol rest ih =>
      cases skipped with
      | zero => rfl
      | succ skipped => simpa only [replaceFrom, List.drop_succ_cons] using ih skipped

theorem replace_append_self {before : List α} (nonempty : before ≠ []) (after rest : List α) :
    replace before after (before ++ rest) = after ++ replace before after rest := by
  cases before with
  | nil => exact absurd rfl nonempty
  | cons symbol tail =>
      have matched : symbol :: tail <+: symbol :: (tail ++ rest) := by simp
      rw [List.cons_append, replace, replaceFrom, if_pos matched, replaceFrom_skip]
      simp

theorem replace_cons_unmatched {before after : List α} {symbol : α} {rest : List α}
    (unmatched : ¬before <+: symbol :: rest) :
    replace before after (symbol :: rest) = symbol :: replace before after rest := by
  rw [replace, replaceFrom, if_neg unmatched, replace]

/-- Replacing a single symbol is done symbol by symbol. -/
theorem replace_singleton (symbol : α) (after text : List α) :
    replace [symbol] after text =
      text.flatMap fun other => if other = symbol then after else [other] := by
  induction text with
  | nil => rfl
  | cons first rest ih =>
      rw [List.flatMap_cons, ← ih]
      by_cases same : first = symbol
      · rw [if_pos same, same]
        exact replace_append_self (by simp) after rest
      · rw [if_neg same, replace_cons_unmatched]
        · rfl
        · rintro ⟨_, shape⟩
          cases shape
          exact same rfl

theorem splitFrom_ne_nil (separator : List α) (skipped : Nat) (text : List α) :
    splitFrom separator skipped text ≠ [] := by
  induction text generalizing skipped with
  | nil => cases skipped <;> simp [splitFrom]
  | cons symbol rest ih =>
      cases skipped with
      | zero =>
          simp only [splitFrom]
          split
          · simp
          · intro empty
            exact ih 0 (by simpa using congrArg List.length empty)
      | succ skipped => simpa only [splitFrom] using ih skipped

theorem split_ne_nil (separator text : List α) : split separator text ≠ [] :=
  splitFrom_ne_nil separator 0 text

theorem splitFrom_skip (separator text : List α) (skipped : Nat) :
    splitFrom separator skipped text = split separator (text.drop skipped) := by
  induction text generalizing skipped with
  | nil => cases skipped <;> simp [split, splitFrom]
  | cons symbol rest ih =>
      cases skipped with
      | zero => rfl
      | succ skipped => simpa only [splitFrom, List.drop_succ_cons] using ih skipped

section Split

variable {separator : List α}

/-- Induction along a leftmost scan: a text is empty, begins with the separator,
or begins with a symbol that no match starts at. -/
theorem scanInduction {motive : List α → Prop} (nonempty : separator ≠ [])
    (nil : motive [])
    (matched : ∀ rest, motive rest → motive (separator ++ rest))
    (unmatched : ∀ symbol rest, ¬separator <+: symbol :: rest → motive rest →
      motive (symbol :: rest))
    (text : List α) : motive text := by
  induction size : text.length using Nat.strong_induction_on generalizing text with
  | _ size ih =>
      subst size
      cases text with
      | nil => exact nil
      | cons symbol rest =>
          by_cases isPrefix : separator <+: symbol :: rest
          · obtain ⟨back, equal⟩ := isPrefix
            have shorter : back.length < (symbol :: rest).length := by
              rw [← equal, List.length_append]
              have := List.length_pos_of_ne_nil nonempty
              omega
            rw [← equal]
            exact matched back (ih back.length shorter back rfl)
          · exact unmatched symbol rest isPrefix (ih rest.length (by simp) rest rfl)

/-- A match at the front of the text closes an empty component. -/
theorem split_append_self (nonempty : separator ≠ []) (rest : List α) :
    split separator (separator ++ rest) = [] :: split separator rest := by
  cases separator with
  | nil => exact absurd rfl nonempty
  | cons symbol tail =>
      have matched : symbol :: tail <+: symbol :: (tail ++ rest) := by simp
      rw [List.cons_append, split, splitFrom, if_pos matched, splitFrom_skip]
      simp

theorem split_cons_unmatched {symbol : α} {rest : List α}
    (unmatched : ¬separator <+: symbol :: rest) :
    split separator (symbol :: rest) =
      (split separator rest).modifyHead (symbol :: ·) := by
  rw [split, splitFrom, if_neg unmatched, split]

/-- The separator does not begin inside `component` when it stands right behind
it, so that a leftmost search ends the component at its own end. -/
def Guards (separator component : List α) : Prop :=
  ∀ suffix, suffix <:+ component → suffix ≠ [] → ¬separator <+: suffix ++ separator

omit [DecidableEq α] in
theorem Guards.of_cons {symbol : α} {component : List α}
    (guards : Guards separator (symbol :: component)) : Guards separator component :=
  fun suffix isSuffix => guards suffix (isSuffix.trans (List.suffix_cons symbol component))

omit [DecidableEq α] in
/-- A guarded component does not contain the separator. -/
theorem Guards.separator_free {component : List α} (nonempty : separator ≠ [])
    (guards : Guards separator component) : ¬separator <:+: component := by
  rintro ⟨front, back, rfl⟩
  refine guards (separator ++ back) ⟨front, by simp⟩ (by simp [nonempty]) ?_
  exact ⟨back ++ separator, by simp⟩

omit [DecidableEq α] in
theorem prefix_append_of_length_le {front middle back : List α}
    (long : front.length ≤ middle.length) (isPrefix : front <+: middle ++ back) :
    front <+: middle :=
  List.prefix_of_prefix_length_le isPrefix (List.prefix_append middle back) long

/-- A guarded component is split off as it stands. -/
theorem split_append_separator (nonempty : separator ≠ []) {component : List α}
    (guards : Guards separator component) (rest : List α) :
    split separator (component ++ separator ++ rest) =
      component :: split separator rest := by
  induction component with
  | nil => exact split_append_self nonempty rest
  | cons symbol component ih =>
      have unmatched : ¬separator <+: symbol :: (component ++ separator ++ rest) := by
        intro isPrefix
        refine guards (symbol :: component) List.suffix_rfl (by simp) ?_
        have atFront : separator <+: (symbol :: component ++ separator) ++ rest := by
          simpa using isPrefix
        exact prefix_append_of_length_le (by simp; omega) atFront
      rw [List.cons_append, List.cons_append, split_cons_unmatched unmatched,
        ih guards.of_cons]
      rfl

theorem split_of_free {component : List α}
    (free : ¬separator <:+: component) : split separator component = [component] := by
  induction component with
  | nil => rfl
  | cons symbol component ih =>
      rw [split_cons_unmatched fun isPrefix => free isPrefix.isInfix,
        ih fun isInfix => free (isInfix.trans (List.suffix_cons symbol component).isInfix)]
      rfl

/-- Splitting undoes joining when every component but the last is guarded and
the last one does not contain the separator. -/
theorem split_join (nonempty : separator ≠ []) {front : List (List α)} {last : List α}
    (guarded : ∀ component ∈ front, Guards separator component)
    (free : ¬separator <:+: last) :
    split separator (join separator (front ++ [last])) = front ++ [last] := by
  induction front with
  | nil => exact split_of_free free
  | cons component front ih =>
      rw [List.cons_append, join_cons (by simp),
        split_append_separator nonempty (guarded component (by simp)),
        ih fun other member => guarded other (by simp [member])]

/-- Joining undoes splitting. -/
theorem join_split (nonempty : separator ≠ []) (text : List α) :
    join separator (split separator text) = text := by
  induction text using scanInduction nonempty with
  | nil => rfl
  | matched rest ih =>
      rw [split_append_self nonempty, join_cons (split_ne_nil separator rest), ih]
      rfl
  | unmatched symbol rest isPrefix ih =>
      rw [split_cons_unmatched isPrefix]
      cases parts : split separator rest with
      | nil => exact absurd parts (split_ne_nil separator rest)
      | cons head tail =>
          rw [parts] at ih
          cases tail <;> simpa [join] using ih

/-- Every component of a split but the last is guarded. -/
theorem split_guards (nonempty : separator ≠ []) (text : List α) :
    ∀ component ∈ (split separator text).dropLast, Guards separator component := by
  induction text using scanInduction nonempty with
  | nil => simp [split, splitFrom]
  | matched rest ih =>
      rw [split_append_self nonempty, List.dropLast_cons_of_ne_nil (split_ne_nil separator rest)]
      intro component member
      rcases List.mem_cons.mp member with rfl | member
      · intro suffix isSuffix suffixNonempty
        exact absurd (List.suffix_nil.mp isSuffix) suffixNonempty
      · exact ih component member
  | unmatched symbol rest isPrefix ih =>
      rw [split_cons_unmatched isPrefix]
      have recovered := join_split nonempty rest
      cases parts : split separator rest with
      | nil => exact absurd parts (split_ne_nil separator rest)
      | cons head tail =>
          rw [parts] at ih recovered
          cases tail with
          | nil => simp
          | cons next tail =>
              intro component member
              simp only [List.modifyHead_cons, List.dropLast_cons_cons,
                List.mem_cons] at member ih
              rcases member with rfl | member
              · intro suffix isSuffix suffixNonempty early
                rcases List.suffix_cons_iff.mp isSuffix with rfl | isSuffix
                · apply isPrefix
                  rw [← recovered, join_cons (by simp)]
                  exact early.trans ⟨join separator (next :: tail), by simp⟩
                · exact ih head (.inl rfl) suffix isSuffix suffixNonempty early
              · exact ih component (.inr member)

/-- No component of a split contains the separator. -/
theorem split_free (nonempty : separator ≠ []) (text : List α) :
    ∀ component ∈ split separator text, ¬separator <:+: component := by
  induction text using scanInduction nonempty with
  | nil => simpa [split, splitFrom] using nonempty
  | matched rest ih =>
      rw [split_append_self nonempty]
      intro component member
      rcases List.mem_cons.mp member with rfl | member
      · simpa using nonempty
      · exact ih component member
  | unmatched symbol rest isPrefix ih =>
      rw [split_cons_unmatched isPrefix]
      have recovered := join_split nonempty rest
      cases parts : split separator rest with
      | nil => exact absurd parts (split_ne_nil separator rest)
      | cons head tail =>
          rw [parts] at ih recovered
          have headPrefix : head <+: rest := by
            cases tail with
            | nil => exact recovered ▸ List.prefix_rfl
            | cons next tail =>
                rw [join_cons (by simp), List.append_assoc] at recovered
                exact ⟨_, recovered⟩
          intro component member
          rw [List.modifyHead_cons, List.mem_cons] at member
          rcases member with rfl | member
          · intro isInfix
            rcases List.infix_cons_iff.mp isInfix with early | isInfix
            · exact isPrefix (early.trans ((List.prefix_cons_inj symbol).mpr headPrefix))
            · exact ih head List.mem_cons_self isInfix
          · exact ih component (List.mem_cons_of_mem head member)

/-- Splitting undoes joining exactly if every component but the last is guarded and
none contains the separator. -/
theorem split_join_iff (nonempty : separator ≠ []) {components : List (List α)}
    (something : components ≠ []) :
    split separator (join separator components) = components ↔
      (∀ component ∈ components.dropLast, Guards separator component) ∧
        ∀ component ∈ components, ¬separator <:+: component := by
  constructor
  · intro back
    have guarded := split_guards nonempty (join separator components)
    have free := split_free nonempty (join separator components)
    rw [back] at guarded free
    exact ⟨guarded, free⟩
  · rintro ⟨guarded, free⟩
    obtain ⟨front, last, rfl⟩ := (List.eq_nil_or_concat' components).resolve_left something
    rw [List.dropLast_concat] at guarded
    exact split_join nonempty guarded (free last (by simp))

/-- Dropping the last component and joining the others again loses nothing:
they are split as before. -/
theorem split_join_dropLast (nonempty : separator ≠ []) (text : List α)
    (several : (split separator text).dropLast ≠ []) :
    split separator (join separator (split separator text).dropLast) =
      (split separator text).dropLast := by
  have guarded := split_guards nonempty text
  generalize (split separator text).dropLast = parts at several guarded
  obtain ⟨front, last, rfl⟩ := List.eq_nil_or_concat' parts |>.resolve_left several
  exact split_join nonempty (fun component member => guarded component (by simp [member]))
    ((guarded last (by simp)).separator_free nonempty)

theorem join_dropLast_length (nonempty : separator ≠ []) (text : List α)
    (several : (split separator text).dropLast ≠ []) :
    (join separator (split separator text).dropLast).length < text.length := by
  have recovered := join_split nonempty text
  rw [← List.dropLast_append_getLast (split_ne_nil separator text), join_concat several]
    at recovered
  have size := congrArg List.length recovered
  have := List.length_pos_of_ne_nil nonempty
  simp only [List.length_append] at size
  omega

end Split

/-! ## A doubled symbol as separator -/

section Doubled

variable {symbol filler : α}

omit [DecidableEq α] in
theorem guards_doubled {component : List α} (free : ¬[symbol, symbol] <:+: component)
    (ends : component.getLast? ≠ some symbol) : Guards [symbol, symbol] component := by
  intro suffix isSuffix nonempty early
  match suffix with
  | [] => exact nonempty rfl
  | [last] =>
      obtain ⟨front, rfl⟩ := isSuffix
      have : symbol = last := by simpa using early
      simp [this] at ends
  | first :: second :: rest =>
      have equal : symbol = first ∧ symbol = second := by simpa using early
      apply free
      refine List.IsInfix.trans ?_ isSuffix.isInfix
      rw [← equal.1, ← equal.2]
      exact ⟨[], rest, rfl⟩

/-- Putting `filler` between the two symbols of each separator. -/
theorem replace_doubled_head? (text : List α) :
    (replace [symbol, symbol] [symbol, filler, symbol] text).head? = text.head? := by
  induction text using scanInduction (show [symbol, symbol] ≠ [] by simp) with
  | nil => rfl
  | matched rest ih => rw [replace_append_self (by simp)]; rfl
  | unmatched first rest isPrefix ih => rw [replace_cons_unmatched isPrefix]; rfl

theorem replace_doubled_getLast? (text : List α) :
    (replace [symbol, symbol] [symbol, filler, symbol] text).getLast? = text.getLast? := by
  induction text using scanInduction (show [symbol, symbol] ≠ [] by simp) with
  | nil => rfl
  | matched rest ih =>
      rw [replace_append_self (by simp), List.getLast?_append, List.getLast?_append, ih]
      rfl
  | unmatched first rest isPrefix ih =>
      rw [replace_cons_unmatched isPrefix, List.getLast?_cons, List.getLast?_cons, ih]

/-- Without three symbols in a row the replaced text is free of the separator. -/
theorem replace_doubled_free (different : filler ≠ symbol) {text : List α}
    (noTriple : ¬[symbol, symbol, symbol] <:+: text) :
    ¬[symbol, symbol] <:+: replace [symbol, symbol] [symbol, filler, symbol] text := by
  have headOf : ∀ rest : List α,
      (replace [symbol, symbol] [symbol, filler, symbol] rest).head? = rest.head? :=
    replace_doubled_head?
  induction text using scanInduction (show [symbol, symbol] ≠ [] by simp) with
  | nil => simp [replace, replaceFrom]
  | matched rest ih =>
      have restFree := ih fun isInfix => noTriple (isInfix.trans ⟨[symbol, symbol], [], by simp⟩)
      have restHead : rest.head? ≠ some symbol := by
        intro isHead
        obtain ⟨tail, rfl⟩ := List.head?_eq_some_iff.mp isHead
        exact noTriple ⟨[], tail, rfl⟩
      rw [replace_append_self (by simp)]
      rw [← headOf rest] at restHead
      generalize replace [symbol, symbol] [symbol, filler, symbol] rest = replaced
        at restFree restHead
      intro isInfix
      rcases List.infix_cons_iff.mp isInfix with early | isInfix
      · exact different (by simpa using early : symbol = filler).symm
      rcases List.infix_cons_iff.mp isInfix with early | isInfix
      · exact different (by simpa using early : symbol = filler).symm
      rcases List.infix_cons_iff.mp isInfix with early | isInfix
      · cases replaced with
        | nil => simp at early
        | cons next tail =>
            apply restHead
            simpa [eq_comm] using early
      · exact restFree isInfix
  | unmatched first rest isPrefix ih =>
      have restFree := ih fun isInfix =>
        noTriple (isInfix.trans (List.suffix_cons first rest).isInfix)
      have restHead := headOf rest
      rw [replace_cons_unmatched isPrefix]
      generalize replace [symbol, symbol] [symbol, filler, symbol] rest = replaced
        at restFree restHead
      intro isInfix
      rcases List.infix_cons_iff.mp isInfix with early | isInfix
      · apply isPrefix
        cases replaced with
        | nil => simp at early
        | cons next tail =>
            obtain ⟨rest', rfl⟩ := List.head?_eq_some_iff.mp restHead.symm
            simpa using early
      · exact restFree isInfix

omit [DecidableEq α] in
theorem guards_doubled_iff {component : List α} :
    Guards [symbol, symbol] component ↔
      ¬[symbol, symbol] <:+: component ∧ component.getLast? ≠ some symbol := by
  refine ⟨fun guards => ⟨guards.separator_free (by simp), fun ends => ?_⟩,
    fun both => guards_doubled both.1 both.2⟩
  obtain ⟨front, shape⟩ := List.getLast?_eq_some_iff.mp ends
  exact guards [symbol] ⟨front, shape.symm⟩ (by simp) ⟨[symbol], rfl⟩

/-- Three symbols in a row leave a separator in the replaced text. -/
theorem infix_replace_doubled {text : List α} (triple : [symbol, symbol, symbol] <:+: text) :
    [symbol, symbol] <:+: replace [symbol, symbol] [symbol, filler, symbol] text := by
  induction text using scanInduction (show [symbol, symbol] ≠ [] by simp) with
  | nil => simp at triple
  | matched rest ih =>
      rw [replace_append_self (by simp)]
      have atBorder (begins : rest.head? = some symbol) :
          [symbol, symbol] <:+:
            [symbol, filler, symbol] ++ replace [symbol, symbol] [symbol, filler, symbol] rest := by
        rw [← @replace_doubled_head? α _ symbol filler] at begins
        obtain ⟨tail, shape⟩ := List.head?_eq_some_iff.mp begins
        exact ⟨[symbol, filler], tail, by rw [shape]; rfl⟩
      rcases List.infix_cons_iff.mp triple with early | triple
      · obtain ⟨back, shape⟩ := early
        have rest : symbol :: back = rest := (List.cons.inj (List.cons.inj shape).2).2
        exact atBorder (rest ▸ rfl)
      rcases List.infix_cons_iff.mp triple with early | triple
      · obtain ⟨back, shape⟩ := early
        have rest : symbol :: symbol :: back = rest := (List.cons.inj shape).2
        exact atBorder (rest ▸ rfl)
      · exact (ih triple).trans (List.suffix_append _ _).isInfix
  | unmatched first rest isPrefix ih =>
      rw [replace_cons_unmatched isPrefix]
      rcases List.infix_cons_iff.mp triple with early | triple
      · exact absurd (List.IsPrefix.trans ⟨[symbol], rfl⟩ early) isPrefix
      · exact (ih triple).trans (List.suffix_cons first _).isInfix

theorem replace_doubled_free_iff (different : filler ≠ symbol) {text : List α} :
    ¬[symbol, symbol] <:+: replace [symbol, symbol] [symbol, filler, symbol] text ↔
      ¬[symbol, symbol, symbol] <:+: text :=
  ⟨fun free triple => free (infix_replace_doubled triple), replace_doubled_free different⟩

end Doubled

end Hooq.Library.Separator

import Mathlib.Data.List.Basic
import Mathlib.Data.UInt
import Mathlib.Tactic.SplitIfs

/-!
# Words of a shell command

How a shell takes a command line apart into words, as far as the text alone settles it:
blanks, quotes, backslashes and comments.  A text with an expansion, or with an operator or
a pattern outside of quotes, has no words of its own.
-/

namespace Hooq.Library.ShellWords

/-- Texts are sequences of UTF-16 units. -/
abbrev Text := List UInt16

def newline : UInt16 := 10

def blank : UInt16 := 32

def quote : UInt16 := 34

def apostrophe : UInt16 := 39

def backslash : UInt16 := 92

/-- The dollar sign and the backquote begin an expansion, also between double quotes. -/
def expands (unit : UInt16) : Bool :=
  unit = 36 || unit = 96

/-- Outside of quotes these end the command, begin an expansion or make a pattern. -/
def isSpecial (unit : UInt16) : Bool :=
  expands unit || unit ∈ [newline, 38, 40, 41, 42, 59, 60, 62, 63, 91, 124]

/-- A hash sign begins a comment in front of a word. -/
def beginsComment (unit : UInt16) : Bool :=
  unit = 35

/-- A tilde in front of a word stands for a directory. -/
def beginsHome (unit : UInt16) : Bool :=
  unit = 126

/-! ## Reading -/

inductive Mode where
  | bare
  | escape
  | single
  | double
  | doubleEscape
  | comment
  deriving DecidableEq, Repr

/-- A command line that has been read in part: its words, and the one that goes on. -/
structure Reader where
  mode : Mode
  words : List Text
  word : Option Text
  deriving DecidableEq, Repr

/-- More units of a word. -/
def Reader.extend (reader : Reader) (mode : Mode) (units : Text) : Reader :=
  ⟨mode, reader.words, some (reader.word.getD [] ++ units)⟩

def step (reader : Reader) (unit : UInt16) : Option Reader :=
  match reader.mode with
  | .bare =>
      if unit = blank ∨ unit = 9 then
        some ⟨.bare, reader.words ++ reader.word.toList, none⟩
      else if unit = quote then
        some (reader.extend .double [])
      else if unit = apostrophe then
        some (reader.extend .single [])
      else if unit = backslash then
        some { reader with mode := .escape }
      else if reader.word = none ∧ beginsComment unit then
        some { reader with mode := .comment }
      else if isSpecial unit ∨ reader.word = none ∧ beginsHome unit then
        none
      else
        some (reader.extend .bare [unit])
  | .escape =>
      if unit = newline then
        some { reader with mode := .bare }
      else
        some (reader.extend .bare [unit])
  | .single =>
      if unit = apostrophe then
        some { reader with mode := .bare }
      else
        some (reader.extend .single [unit])
  | .double =>
      if unit = quote then
        some { reader with mode := .bare }
      else if unit = backslash then
        some { reader with mode := .doubleEscape }
      else if expands unit then
        none
      else
        some (reader.extend .double [unit])
  | .doubleEscape =>
      if unit = newline then
        some { reader with mode := .double }
      else if expands unit ∨ unit = quote ∨ unit = backslash then
        some (reader.extend .double [unit])
      else
        some (reader.extend .double [backslash, unit])
  | .comment =>
      if unit = newline then none else some reader

/-- The words at the end of the line, unless a quotation or an escape is still open. -/
def finish (reader : Reader) : Option (List Text) :=
  match reader.mode with
  | .bare | .comment => some (reader.words ++ reader.word.toList)
  | _ => none

def read (reader : Reader) (text : Text) : Option (List Text) :=
  (text.foldlM step reader).bind finish

/-- The words of a command line. -/
def words (text : Text) : Option (List Text) :=
  read ⟨.bare, [], none⟩ text

theorem read_cons (reader : Reader) (unit : UInt16) (text : Text) :
    read reader (unit :: text) = (step reader unit).bind fun next => read next text := by
  rw [read, List.foldlM_cons]
  exact Option.bind_assoc ..

theorem read_of_step {reader next : Reader} {unit : UInt16}
    (stepped : step reader unit = some next) (text : Text) :
    read reader (unit :: text) = read next text := by
  rw [read_cons, stepped, Option.bind_some]

theorem finish_spec {reader : Reader} {result : List Text}
    (finished : finish reader = some result) :
    result = reader.words ++ reader.word.toList := by
  rw [finish] at finished
  split at finished
  · exact (Option.some.inj finished).symm
  · exact (Option.some.inj finished).symm
  · cases finished

/-! ## Weights -/

/-- Backslashes count, and so do apostrophes. -/
def sourceWeight (heavy : Nat) (unit : UInt16) : Nat :=
  if unit = backslash then 1 else if unit = apostrophe then heavy else 0

/-- In a word the quotes count too. -/
def wordWeight (heavy : Nat) (unit : UInt16) : Nat :=
  if unit = quote then 1 else sourceWeight heavy unit

def weigh (weight : UInt16 → Nat) (text : Text) : Nat :=
  (text.map weight).sum

@[simp] theorem weigh_nil (weight : UInt16 → Nat) : weigh weight [] = 0 := rfl

@[simp] theorem weigh_cons (weight : UInt16 → Nat) (unit : UInt16) (text : Text) :
    weigh weight (unit :: text) = weight unit + weigh weight text :=
  List.sum_cons

@[simp] theorem weigh_append (weight : UInt16 → Nat) (front back : Text) :
    weigh weight (front ++ back) = weigh weight front + weigh weight back := by
  rw [weigh, List.map_append, List.sum_append]
  rfl

theorem wordWeight_le (heavy : Nat) (unit : UInt16) :
    wordWeight heavy unit ≤ sourceWeight heavy unit + 1 := by
  rw [wordWeight]
  split
  · exact Nat.le_add_left ..
  · exact Nat.le_add_right ..

theorem wordWeight_of_ne {heavy : Nat} {unit : UInt16} (other : unit ≠ quote) :
    wordWeight heavy unit = sourceWeight heavy unit :=
  if_neg other

@[simp] theorem sourceWeight_backslash (heavy : Nat) : sourceWeight heavy backslash = 1 := rfl

@[simp] theorem sourceWeight_quote (heavy : Nat) : sourceWeight heavy quote = 0 := rfl

@[simp] theorem sourceWeight_blank (heavy : Nat) : sourceWeight heavy blank = 0 := rfl

@[simp] theorem wordWeight_backslash (heavy : Nat) : wordWeight heavy backslash = 1 := rfl

@[simp] theorem wordWeight_quote (heavy : Nat) : wordWeight heavy quote = 1 := rfl

/-- What a mode can still add to the words when so much of the line is left. -/
def Mode.pending : Mode → Nat → Nat
  | .escape, _ => 1
  | .doubleEscape, _ => 1
  | .single, left => left
  | _, _ => 0

/-- All that has been read, without the borders between the words. -/
def Reader.text (reader : Reader) : Text :=
  reader.words.flatten ++ reader.word.getD []

@[simp] theorem Reader.mode_extend (reader : Reader) (mode : Mode) (units : Text) :
    (reader.extend mode units).mode = mode := rfl

@[simp] theorem Reader.text_extend (reader : Reader) (mode : Mode) (units : Text) :
    (reader.extend mode units).text = reader.text ++ units := by
  simp [Reader.text, Reader.extend]

@[simp] theorem Reader.text_mode (reader : Reader) (mode : Mode) :
    Reader.text { reader with mode := mode } = reader.text := rfl

theorem Reader.text_ended (reader : Reader) (mode : Mode) :
    Reader.text ⟨mode, reader.words ++ reader.word.toList, none⟩ = reader.text := by
  rcases reader with ⟨_, _, _ | word⟩ <;> simp [Reader.text]

/-! ## Steps -/

/-- The units that a step adds to the words are not heavier than the one that it takes from
the line, together with what was pending. -/
def Light (before after : Mode) (unit : UInt16) (units : Text) : Prop :=
  ∀ heavy left, left ≤ heavy →
    weigh (wordWeight heavy) units + after.pending left ≤
      before.pending (left + 1) + sourceWeight heavy unit

theorem light_nil {before after : Mode} {unit : UInt16}
    (pending : ∀ left, after.pending left ≤ before.pending (left + 1)) :
    Light before after unit [] := by
  intro heavy left _
  rw [weigh_nil, Nat.zero_add]
  exact Nat.le_add_right_of_le (pending left)

theorem light_unit {before after : Mode} {unit : UInt16} (other : unit ≠ quote)
    (pending : ∀ left, after.pending left ≤ before.pending (left + 1)) :
    Light before after unit [unit] := by
  intro heavy left _
  rw [weigh_cons, weigh_nil, wordWeight_of_ne other, Nat.add_zero, Nat.add_comm]
  exact Nat.add_le_add_right (pending left) _

/-- What is pending makes up for a quote. -/
theorem light_pending {before after : Mode} {unit : UInt16}
    (pending : ∀ left, after.pending left < before.pending (left + 1)) :
    Light before after unit [unit] := by
  intro heavy left _
  have bound := wordWeight_le heavy unit
  have lower := pending left
  rw [weigh_cons, weigh_nil]
  omega

theorem light_escape {before after : Mode} (pending : ∀ left, after.pending left = 1) :
    Light before after backslash [] := by
  intro heavy left _
  rw [pending, weigh_nil, Nat.zero_add]
  exact Nat.le_add_left ..

theorem light_single {before : Mode} : Light before .single apostrophe [] := by
  intro heavy left fits
  rw [weigh_nil, Nat.zero_add]
  exact Nat.le_add_left_of_le fits

/-- A step ends the word, changes the mode only, or adds to the word. -/
inductive Moves (reader : Reader) (unit : UInt16) : Reader → Prop where
  | ends : Moves reader unit ⟨.bare, reader.words ++ reader.word.toList, none⟩
  | changes (mode : Mode) (light : Light reader.mode mode unit []) :
      Moves reader unit { reader with mode := mode }
  | adds (mode : Mode) (units : Text) (light : Light reader.mode mode unit units) :
      Moves reader unit (reader.extend mode units)

theorem moves_of_step {reader next : Reader} {unit : UInt16}
    (stepped : step reader unit = some next) : Moves reader unit next := by
  have none (left : Nat) : 0 ≤ left := Nat.zero_le left
  rcases reader with ⟨mode, words, word⟩
  cases mode with
  | bare =>
      simp only [step] at stepped
      split_ifs at stepped with isBlank isQuote isApostrophe isBackslash <;> cases stepped
      · exact .ends
      · exact .adds _ _ (light_nil fun _ => none _)
      · exact .adds _ _ (isApostrophe ▸ light_single)
      · exact .changes _ (isBackslash ▸ light_escape fun _ => rfl)
      · exact .changes _ (light_nil fun _ => none _)
      · exact .adds _ _ (light_unit isQuote fun _ => none _)
  | escape =>
      simp only [step] at stepped
      split_ifs at stepped <;> cases stepped
      · exact .changes _ (light_nil fun _ => none _)
      · exact .adds _ _ (light_pending fun _ => Nat.one_pos)
  | single =>
      simp only [step] at stepped
      split_ifs at stepped <;> cases stepped
      · exact .changes _ (light_nil fun _ => none _)
      · exact .adds _ _ (light_pending fun left => Nat.lt_succ_self left)
  | double =>
      simp only [step] at stepped
      split_ifs at stepped with isQuote isBackslash <;> cases stepped
      · exact .changes _ (light_nil fun _ => none _)
      · exact .changes _ (isBackslash ▸ light_escape fun _ => rfl)
      · exact .adds _ _ (light_unit isQuote fun _ => none _)
  | doubleEscape =>
      simp only [step] at stepped
      split_ifs at stepped with isNewline taken <;> cases stepped
      · exact .changes _ (light_nil fun _ => none _)
      · exact .adds _ _ (light_pending fun _ => Nat.one_pos)
      · refine .adds _ _ ?_
        intro heavy left _
        simp only [not_or] at taken
        rw [weigh_cons, weigh_cons, weigh_nil, wordWeight_of_ne taken.2.1, wordWeight_backslash]
        exact Nat.le_refl _
  | comment =>
      simp only [step] at stepped
      split_ifs at stepped
      cases stepped
      exact .changes .comment (light_nil fun _ => none _)

/-- The words that have been read stay, and a word that goes on begins the next one. -/
theorem words_of_read {reader : Reader} {text : Text} {result : List Text}
    (found : read reader text = some result) :
    ∃ more, result = reader.words ++ more ∧
      ∀ word ∈ reader.word, ∃ rest others, more = (word ++ rest) :: others := by
  induction text generalizing reader with
  | nil =>
      refine ⟨reader.word.toList, finish_spec found, ?_⟩
      intro word isWord
      rw [Option.mem_def.mp isWord]
      exact ⟨[], [], by simp⟩
  | cons unit text ih =>
      rw [read_cons] at found
      rcases Option.bind_eq_some_iff.mp found with ⟨next, stepped, found⟩
      rcases ih found with ⟨more, rfl, goesOn⟩
      cases moves_of_step stepped with
      | ends =>
          refine ⟨reader.word.toList ++ more, List.append_assoc .., ?_⟩
          intro word isWord
          rw [Option.mem_def.mp isWord]
          exact ⟨[], more, by simp⟩
      | changes mode light => exact ⟨more, rfl, goesOn⟩
      | adds mode units light =>
          refine ⟨more, rfl, ?_⟩
          intro begun isWord
          rcases goesOn _ rfl with ⟨rest, others, rfl⟩
          rw [Option.mem_def.mp isWord, Option.getD_some]
          exact ⟨units ++ rest, others, by rw [List.append_assoc]⟩

/-- A step puts no more weight into the words than it takes from the line. -/
theorem weigh_step {heavy left : Nat} {reader next : Reader} {unit : UInt16}
    (stepped : step reader unit = some next) (fits : left ≤ heavy) :
    weigh (wordWeight heavy) next.text + next.mode.pending left ≤
      weigh (wordWeight heavy) reader.text + reader.mode.pending (left + 1) +
        sourceWeight heavy unit := by
  cases moves_of_step stepped with
  | ends =>
      rw [Reader.text_ended, Nat.add_assoc]
      exact Nat.le_add_right ..
  | changes mode light =>
      have bound := light heavy left fits
      rw [weigh_nil, Nat.zero_add] at bound
      rw [Reader.text_mode, Nat.add_assoc]
      exact Nat.add_le_add_left bound _
  | adds mode units light =>
      rw [Reader.text_extend, weigh_append, Nat.add_assoc, Nat.add_assoc]
      exact Nat.add_le_add_left (light heavy left fits) _

/-- Between double quotes a backslash is lost in front of these. -/
theorem weigh_step_lt {heavy left : Nat} {reader next : Reader} {unit : UInt16}
    (stepped : step reader unit = some next) (escapes : reader.mode = .doubleEscape)
    (taken : unit = backslash ∨ unit = newline ∨ expands unit = true) :
    weigh (wordWeight heavy) next.text + next.mode.pending left <
      weigh (wordWeight heavy) reader.text + reader.mode.pending (left + 1) +
        sourceWeight heavy unit := by
  simp only [step, escapes] at stepped
  split_ifs at stepped with isNewline special <;> cases stepped
  · simp [escapes, Mode.pending]
    omega
  · have noQuote : unit ≠ quote := by
      rintro rfl
      revert taken
      decide
    simp [wordWeight_of_ne noQuote, escapes, Mode.pending]
  · simp only [not_or] at special
    rcases taken with isBackslash | isNewline' | isExpansion
    · exact absurd isBackslash special.2.2
    · exact absurd isNewline' isNewline
    · exact absurd isExpansion special.1

theorem weigh_read {heavy : Nat} {reader : Reader} {text : Text} {result : List Text}
    (found : read reader text = some result) (fits : text.length ≤ heavy) :
    weigh (wordWeight heavy) result.flatten ≤
      weigh (wordWeight heavy) reader.text + reader.mode.pending text.length +
        weigh (sourceWeight heavy) text := by
  induction text generalizing reader with
  | nil =>
      have all : result.flatten = reader.text := by
        rw [finish_spec found, List.flatten_append, Reader.text]
        cases reader.word <;> simp
      rw [all, weigh_nil, Nat.add_zero]
      exact Nat.le_add_right ..
  | cons unit text ih =>
      rw [read_cons] at found
      rcases Option.bind_eq_some_iff.mp found with ⟨next, stepped, found⟩
      rw [List.length_cons] at fits ⊢
      have here := weigh_step stepped (Nat.le_of_succ_le fits)
      have later := ih found (Nat.le_of_succ_le fits)
      rw [weigh_cons]
      omega

/-! ## Quoted arguments -/

/-- An argument between double quotes in which only the double quotes are escaped. -/
def escaped (argument : Text) : Text :=
  argument.flatMap fun unit => if unit = quote then [backslash, quote] else [unit]

def commandLine (arguments : List Text) : Text :=
  arguments.flatMap fun argument => blank :: quote :: (escaped argument ++ [quote])

/-- Between double quotes a backslash stands for itself in front of these. -/
def keepsBackslash (unit : UInt16) : Bool :=
  !(expands unit || unit ∈ [quote, backslash, newline])

/-- The arguments that are read back as they are. -/
def survives : Text → Bool
  | [] => true
  | unit :: rest =>
      !expands unit && (unit ≠ backslash || rest.head?.any keepsBackslash) && survives rest

theorem keepsBackslash_iff {unit : UInt16} :
    keepsBackslash unit = true ↔
      unit ≠ quote ∧ ¬(unit = backslash ∨ unit = newline ∨ expands unit = true) := by
  simp [keepsBackslash]
  tauto

theorem survives_plain {unit : UInt16} (noBackslash : unit ≠ backslash) (rest : Text) :
    survives (unit :: rest) = true ↔ expands unit = false ∧ survives rest = true := by
  simp [survives, noBackslash]

theorem survives_pair (next : UInt16) (rest : Text) :
    survives (backslash :: next :: rest) = true ↔
      keepsBackslash next = true ∧ survives rest = true := by
  have shape : survives (backslash :: next :: rest) =
      (keepsBackslash next && survives (next :: rest)) := by
    simp [survives, expands, backslash]
  rw [shape, Bool.and_eq_true]
  refine and_congr_right fun keeps => ?_
  rcases keepsBackslash_iff.mp keeps with ⟨-, kept⟩
  simp only [not_or] at kept
  rw [survives_plain kept.1]
  exact and_iff_right (Bool.eq_false_iff.mpr kept.2.2)

@[simp] theorem escaped_nil : escaped [] = [] := rfl

@[simp] theorem escaped_quote (rest : Text) :
    escaped (quote :: rest) = backslash :: quote :: escaped rest := rfl

theorem escaped_cons {unit : UInt16} (other : unit ≠ quote) (rest : Text) :
    escaped (unit :: rest) = unit :: escaped rest := by
  rw [escaped, List.flatMap_cons, if_neg other]
  rfl

@[simp] theorem commandLine_nil : commandLine [] = [] := rfl

@[simp] theorem commandLine_cons (argument : Text) (arguments : List Text) :
    commandLine (argument :: arguments) =
      blank :: quote :: (escaped argument ++ quote :: commandLine arguments) := by
  simp [commandLine]

/-- Induction over a text in which a backslash goes with what it stands in front of. -/
theorem escape_induction {motive : Text → Prop} (nil : motive [])
    (plain : ∀ unit rest, unit ≠ backslash → motive rest → motive (unit :: rest))
    (last : motive [backslash])
    (pair : ∀ next rest, motive rest → motive (backslash :: next :: rest))
    (text : Text) : motive text := by
  induction size : text.length using Nat.strong_induction_on generalizing text with
  | _ size ih =>
      subst size
      cases text with
      | nil => exact nil
      | cons unit rest =>
          by_cases isBackslash : unit = backslash
          · subst isBackslash
            cases rest with
            | nil => exact last
            | cons next rest =>
                exact pair next rest (ih rest.length (Nat.lt_add_of_pos_right Nat.two_pos) rest rfl)
          · exact plain unit rest isBackslash (ih rest.length (by simp) rest rfl)

theorem weigh_escaped (heavy : Nat) (argument : Text) :
    weigh (sourceWeight heavy) (escaped argument) = weigh (wordWeight heavy) argument := by
  induction argument with
  | nil => rfl
  | cons unit rest ih =>
      by_cases isQuote : unit = quote
      · subst isQuote
        rw [escaped_quote, weigh_cons, weigh_cons, weigh_cons, ih, sourceWeight_backslash,
          sourceWeight_quote, wordWeight_quote, Nat.zero_add]
      · rw [escaped_cons isQuote, weigh_cons, weigh_cons, ih, wordWeight_of_ne isQuote]

theorem weigh_commandLine (heavy : Nat) (arguments : List Text) :
    weigh (sourceWeight heavy) (commandLine arguments) =
      weigh (wordWeight heavy) arguments.flatten := by
  induction arguments with
  | nil => rfl
  | cons argument arguments ih =>
      simp [weigh_escaped, ih]

section Double

variable {words : List Text} {word : Text} {result : List Text}

theorem step_double {unit : UInt16} (noQuote : unit ≠ quote) (noBackslash : unit ≠ backslash)
    (plain : expands unit = false) :
    step ⟨.double, words, some word⟩ unit = some ⟨.double, words, some (word ++ [unit])⟩ := by
  simp [step, noQuote, noBackslash, plain, Reader.extend]

theorem read_escape (unit : UInt16) (text : Text) :
    read ⟨.double, words, some word⟩ (backslash :: unit :: text) =
      read ⟨.doubleEscape, words, some word⟩ (unit :: text) :=
  read_of_step rfl _

theorem read_escape_quote (text : Text) :
    read ⟨.double, words, some word⟩ (backslash :: quote :: text) =
      read ⟨.double, words, some (word ++ [quote])⟩ text := by
  rw [read_escape]
  exact read_of_step rfl _

theorem read_escape_kept {unit : UInt16} (keeps : keepsBackslash unit = true) (text : Text) :
    read ⟨.double, words, some word⟩ (backslash :: unit :: text) =
      read ⟨.double, words, some (word ++ [backslash, unit])⟩ text := by
  rw [read_escape]
  apply read_of_step
  simp [keepsBackslash] at keeps
  simp [step, keeps, Reader.extend]

/-- A backslash that is lost is missing from the words. -/
theorem weigh_read_lost {heavy : Nat} {unit : UInt16} {text : Text}
    (found : read ⟨.double, words, some word⟩ (backslash :: unit :: text) = some result)
    (taken : unit = backslash ∨ unit = newline ∨ expands unit = true)
    (fits : text.length ≤ heavy) :
    weigh (wordWeight heavy) result.flatten <
      weigh (wordWeight heavy) (words.flatten ++ word) +
        weigh (sourceWeight heavy) (backslash :: unit :: text) := by
  rw [read_escape, read_cons] at found
  rcases Option.bind_eq_some_iff.mp found with ⟨next, stepped, found⟩
  have here := @weigh_step_lt heavy text.length _ _ _ stepped rfl taken
  have later := weigh_read found fits
  change _ < weigh (wordWeight heavy) (words.flatten ++ word) + 1 + _ at here
  rw [weigh_cons, weigh_cons, sourceWeight_backslash]
  omega

theorem read_escaped {argument : Text} (stays : survives argument = true) (text : Text) :
    read ⟨.double, words, some word⟩ (escaped argument ++ text) =
      read ⟨.double, words, some (word ++ argument)⟩ text := by
  induction argument using escape_induction generalizing word with
  | nil => rw [List.append_nil, escaped_nil, List.nil_append]
  | plain unit rest noBackslash ih =>
      rcases (survives_plain noBackslash rest).mp stays with ⟨plain, stays⟩
      by_cases isQuote : unit = quote
      · subst isQuote
        rw [escaped_quote, List.cons_append, List.cons_append, read_escape_quote, ih stays,
          List.append_assoc, List.singleton_append]
      · rw [escaped_cons isQuote, List.cons_append,
          read_of_step (step_double isQuote noBackslash plain), ih stays, List.append_assoc,
          List.singleton_append]
  | last => cases stays
  | pair next rest ih =>
      rcases (survives_pair next rest).mp stays with ⟨keeps, stays⟩
      have noQuote := (keepsBackslash_iff.mp keeps).1
      rw [escaped_cons (by decide), escaped_cons noQuote, List.cons_append, List.cons_append,
        read_escape_kept keeps, ih stays, List.append_assoc]
      rfl

/-- What is lost of a backslash does not come back later on the line. -/
theorem not_lost {argument : Text} {arguments : List Text} {unit : UInt16} {text : Text}
    (shape : escaped argument ++ quote :: commandLine arguments = backslash :: unit :: text)
    (found : read ⟨.double, words, some word⟩ (backslash :: unit :: text) =
      some (words ++ (word ++ argument) :: arguments)) :
    ¬(unit = backslash ∨ unit = newline ∨ expands unit = true) := by
  intro taken
  have lost := weigh_read_lost found taken (Nat.le_refl text.length)
  rw [← shape] at lost
  simp [weigh_escaped, weigh_commandLine] at lost
  omega

theorem survives_of_read {argument : Text} {arguments : List Text}
    (found : read ⟨.double, words, some word⟩
        (escaped argument ++ quote :: commandLine arguments) =
      some (words ++ (word ++ argument) :: arguments)) :
    survives argument = true := by
  induction argument using escape_induction generalizing word with
  | nil => rfl
  | plain unit rest noBackslash ih =>
      rw [← List.singleton_append, ← List.append_assoc word] at found
      by_cases isQuote : unit = quote
      · subst isQuote
        rw [List.singleton_append, escaped_quote, List.cons_append, List.cons_append,
          read_escape_quote] at found
        exact (survives_plain noBackslash rest).mpr ⟨rfl, ih found⟩
      · rw [List.singleton_append, escaped_cons isQuote, List.cons_append] at found
        cases plain : expands unit with
        | true =>
            rw [read_cons] at found
            simp [step, isQuote, noBackslash, plain] at found
        | false =>
            rw [read_of_step (step_double isQuote noBackslash plain)] at found
            exact (survives_plain noBackslash rest).mpr ⟨plain, ih found⟩
  | last =>
      -- The backslash escapes the quote that was to end the argument.
      change read _ (backslash :: quote :: commandLine arguments) = _ at found
      rw [read_escape_quote] at found
      rcases words_of_read found with ⟨more, same, goesOn⟩
      rcases goesOn _ rfl with ⟨rest, others, rfl⟩
      simp [quote, backslash] at same
  | pair next rest ih =>
      by_cases isQuote : next = quote
      · subst isQuote
        exact absurd (.inl rfl) (not_lost rfl found)
      · have shape : escaped (backslash :: next :: rest) =
            backslash :: next :: escaped rest := by
          rw [escaped_cons (by decide), escaped_cons isQuote]
        rw [shape] at found
        have keeps : keepsBackslash next = true :=
          keepsBackslash_iff.mpr ⟨isQuote, not_lost (by rw [shape]; rfl) found⟩
        have same : word ++ backslash :: next :: rest = word ++ [backslash, next] ++ rest := by
          simp
        rw [List.cons_append, List.cons_append, read_escape_kept keeps, same] at found
        exact (survives_pair next rest).mpr ⟨keeps, ih found⟩

end Double

/-- A line of quoted arguments is read back where each of them survives, and only there. -/
theorem read_commandLine_iff (words : List Text) (word : Option Text) (arguments : List Text) :
    read ⟨.bare, words, word⟩ (commandLine arguments) =
        some (words ++ word.toList ++ arguments) ↔
      ∀ argument ∈ arguments, survives argument = true := by
  induction arguments generalizing words word with
  | nil => simp [read, finish]
  | cons argument arguments ih =>
      have begun : read ⟨.bare, words, word⟩ (commandLine (argument :: arguments)) =
          read ⟨.double, words ++ word.toList, some []⟩
            (escaped argument ++ quote :: commandLine arguments) := by
        rw [commandLine_cons, read_of_step rfl]
        exact read_of_step rfl _
      have ended (stays : survives argument = true) :
          read ⟨.double, words ++ word.toList, some []⟩
              (escaped argument ++ quote :: commandLine arguments) =
            read ⟨.bare, words ++ word.toList, some argument⟩ (commandLine arguments) := by
        rw [read_escaped stays]
        exact read_of_step rfl _
      have rest := ih (words ++ word.toList) (some argument)
      rw [Option.toList_some, List.append_assoc, List.singleton_append] at rest
      rw [begun, List.forall_mem_cons]
      constructor
      · intro found
        have stays : survives argument = true := survives_of_read found
        rw [ended stays] at found
        exact ⟨stays, rest.mp found⟩
      · rintro ⟨stays, others⟩
        rw [ended stays]
        exact rest.mpr others

theorem words_commandLine_iff (arguments : List Text) :
    words (commandLine arguments) = some arguments ↔
      ∀ argument ∈ arguments, survives argument = true :=
  read_commandLine_iff [] none arguments

example : words (commandLine [[97, blank, 98], [], [quote, backslash, 98]]) =
    some [[97, blank, 98], [], [quote, backslash, 98]] := by
  decide

end Hooq.Library.ShellWords

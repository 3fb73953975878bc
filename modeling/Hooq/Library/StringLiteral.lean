import Mathlib.Data.List.Basic
import Mathlib.Data.UInt

/-!
# String literals

The string literals of ECMAScript 3 in double quotes, over UTF-16 code units: how
the characters behind the opening quote are read, and what a text that was never
meant for a literal becomes inside of one.
-/

namespace Hooq.Library.StringLiteral

def quote : UInt16 := 34

def backslash : UInt16 := 92

/-- `LineTerminator`. -/
def isLineTerminator (unit : UInt16) : Bool :=
  unit = 0x0A || unit = 0x0D || unit = 0x2028 || unit = 0x2029

/-- `DecimalDigit`. -/
def isDecimalDigit (unit : UInt16) : Bool :=
  48 ≤ unit && unit ≤ 57

/-- `HexDigit`, with its value. -/
def hexValue (unit : UInt16) : Option Nat :=
  if 48 ≤ unit ∧ unit ≤ 57 then some (unit.toNat - 48)
  else if 65 ≤ unit ∧ unit ≤ 70 then some (unit.toNat - 55)
  else if 97 ≤ unit ∧ unit ≤ 102 then some (unit.toNat - 87)
  else none

/-- `SingleEscapeCharacter`, with the character that it stands for. -/
def singleEscape (unit : UInt16) : Option UInt16 :=
  if unit = 34 ∨ unit = 39 ∨ unit = 92 then some unit
  else if unit = 98 then some 8
  else if unit = 102 then some 12
  else if unit = 110 then some 10
  else if unit = 114 then some 13
  else if unit = 116 then some 9
  else if unit = 118 then some 11
  else none

/-- The number in the next `count` hexadecimal digits. -/
def hexNumber : (count number : Nat) → List UInt16 → Option Nat
  | 0, number, _ => some number
  | _ + 1, _, [] => none
  | count + 1, number, unit :: rest =>
      match hexValue unit with
      | some digit => hexNumber count (16 * number + digit) rest
      | none => none

/-- `EscapeSequence`, behind the backslash: the character that it stands for and how many
units it takes. -/
def escapeSequence : List UInt16 → Option (UInt16 × Nat)
  | [] => none
  | unit :: rest =>
      match singleEscape unit with
      | some value => some (value, 1)
      | none =>
          if unit = 120 then
            (hexNumber 2 0 rest).map fun number => (number.toUInt16, 3)
          else if unit = 117 then
            (hexNumber 4 0 rest).map fun number => (number.toUInt16, 5)
          else if unit = 48 then
            if rest.head?.any isDecimalDigit then none else some (0, 1)
          else if isDecimalDigit unit || isLineTerminator unit then
            none
          else
            some (unit, 1)

def prepend (unit : UInt16) (read : List UInt16 × List UInt16) : List UInt16 × List UInt16 :=
  (unit :: read.1, read.2)

/-- `DoubleStringCharacters` up to the closing quote: their value, and the text behind the
quote.  The first argument counts the units of an escape sequence that are still to be
skipped. -/
def charactersFrom : Nat → List UInt16 → Option (List UInt16 × List UInt16)
  | _, [] => none
  | skipped + 1, _ :: rest => charactersFrom skipped rest
  | 0, unit :: rest =>
      if unit = quote then
        some ([], rest)
      else if unit = backslash then
        match escapeSequence rest with
        | some (value, taken) => (charactersFrom taken rest).map (prepend value)
        | none => none
      else if isLineTerminator unit then
        none
      else
        (charactersFrom 0 rest).map (prepend unit)

def characters (text : List UInt16) : Option (List UInt16 × List UInt16) :=
  charactersFrom 0 text

/-- The text is one literal, with the given value. -/
def IsLiteral (text value : List UInt16) : Prop :=
  ∃ body, text = quote :: body ∧ characters body = some (value, [])

theorem charactersFrom_skip (skipped : Nat) (text : List UInt16) :
    charactersFrom skipped text = characters (text.drop skipped) := by
  induction text generalizing skipped with
  | nil => cases skipped <;> rfl
  | cons unit rest ih =>
      cases skipped with
      | zero => rfl
      | succ skipped => exact ih skipped

theorem characters_quote (rest : List UInt16) : characters (quote :: rest) = some ([], rest) :=
  rfl

theorem characters_backslash {rest : List UInt16} {value : UInt16} {taken : Nat}
    (sequence : escapeSequence rest = some (value, taken)) :
    characters (backslash :: rest) = (characters (rest.drop taken)).map (prepend value) := by
  rw [← charactersFrom_skip]
  change (match escapeSequence rest with
    | some (value, taken) => (charactersFrom taken rest).map (prepend value)
    | none => none) = _
  rw [sequence]

theorem characters_malformed {rest : List UInt16} (malformed : escapeSequence rest = none) :
    characters (backslash :: rest) = none := by
  change (match escapeSequence rest with
    | some (value, taken) => (charactersFrom taken rest).map (prepend value)
    | none => none) = _
  rw [malformed]

theorem characters_single {unit value : UInt16} (single : singleEscape unit = some value)
    (rest : List UInt16) :
    characters (backslash :: unit :: rest) = (characters rest).map (prepend value) := by
  have sequence : escapeSequence (unit :: rest) = some (value, 1) := by
    rw [escapeSequence, single]
  exact characters_backslash sequence

/-- A character that stands for itself. -/
def isPlain (unit : UInt16) : Bool :=
  unit ≠ quote && unit ≠ backslash && !isLineTerminator unit

theorem characters_plain {unit : UInt16} (plain : isPlain unit = true) (rest : List UInt16) :
    characters (unit :: rest) = (characters rest).map (prepend unit) := by
  simp only [isPlain, Bool.and_eq_true, decide_eq_true_eq, Bool.not_eq_true'] at plain
  change (if unit = quote then _ else if unit = backslash then _
    else if isLineTerminator unit then _ else _) = _
  rw [if_neg plain.1.1, if_neg plain.1.2, if_neg (by simp [plain.2])]
  rfl

theorem characters_lineTerminator {unit : UInt16} (ends : isLineTerminator unit = true)
    (rest : List UInt16) : characters (unit :: rest) = none := by
  have other : unit ≠ quote ∧ unit ≠ backslash := by
    constructor <;>
      · rintro rfl
        exact absurd ends (by decide)
  change (if unit = quote then _ else if unit = backslash then _
    else if isLineTerminator unit then _ else _) = _
  rw [if_neg other.1, if_neg other.2, if_pos ends]

/-! ## Escape sequences -/

theorem hexNumber_append {count number found : Nat} {rest : List UInt16}
    (read : hexNumber count number rest = some found) (more : List UInt16) :
    hexNumber count number (rest ++ more) = some found := by
  induction count generalizing number rest with
  | zero => exact read
  | succ count ih =>
      cases rest with
      | nil => cases read
      | cons unit rest =>
          rw [hexNumber] at read
          rw [List.cons_append, hexNumber]
          cases digit : hexValue unit with
          | none => simp [digit] at read
          | some value =>
              rw [digit] at read
              exact ih read

theorem escapeSequence_append {rest : List UInt16} {value : UInt16} {taken : Nat}
    (sequence : escapeSequence rest = some (value, taken)) (inside : taken < rest.length)
    (more : List UInt16) : escapeSequence (rest ++ more) = some (value, taken) := by
  cases rest with
  | nil => cases sequence
  | cons unit rest =>
      rw [escapeSequence] at sequence
      rw [List.cons_append, escapeSequence]
      cases single : singleEscape unit with
      | some meant =>
          rw [single] at sequence
          exact sequence
      | none =>
          simp only [single] at sequence ⊢
          split at sequence
          next isX =>
            rcases Option.map_eq_some_iff.mp sequence with ⟨number, read, same⟩
            rw [if_pos isX, hexNumber_append read, Option.map_some, same]
          next notX =>
            rw [if_neg notX]
            split at sequence
            next isU =>
              rcases Option.map_eq_some_iff.mp sequence with ⟨number, read, same⟩
              rw [if_pos isU, hexNumber_append read, Option.map_some, same]
            next notU =>
              rw [if_neg notU]
              split at sequence
              next isZero =>
                rw [if_pos isZero]
                cases rest with
                | nil =>
                    cases sequence
                    exact absurd inside (Nat.lt_irrefl 1)
                | cons next rest => exact sequence
              next notZero =>
                rw [if_neg notZero]
                exact sequence

theorem hexNumber_spec {count number found : Nat} {rest : List UInt16}
    (read : hexNumber count number rest = some found) :
    count ≤ rest.length ∧ ∀ unit ∈ rest.take count, hexValue unit ≠ none := by
  induction count generalizing number rest with
  | zero => exact ⟨Nat.zero_le _, List.forall_mem_nil _⟩
  | succ count ih =>
      cases rest with
      | nil => cases read
      | cons unit rest =>
          rw [hexNumber] at read
          cases digit : hexValue unit with
          | none => simp [digit] at read
          | some value =>
              rw [digit] at read
              rcases ih read with ⟨long, digits⟩
              refine ⟨Nat.succ_le_succ long, List.forall_mem_cons.mpr ⟨?_, digits⟩⟩
              rw [digit]
              exact Option.some_ne_none value

/-- An escape sequence is a single unit, or one of two letters with hexadecimal digits. -/
theorem escapeSequence_spec {rest : List UInt16} {value : UInt16} {taken : Nat}
    (sequence : escapeSequence rest = some (value, taken)) :
    0 < taken ∧ taken ≤ rest.length ∧
      ∀ unit ∈ rest.take taken, (∃ further, rest = unit :: further ∧ taken = 1) ∨
        unit ∈ [120, 117] ∨ hexValue unit ≠ none := by
  cases rest with
  | nil => cases sequence
  | cons unit rest =>
      have alone : ∀ other ∈ (unit :: rest).take 1, (∃ further, unit :: rest = other :: further ∧
          1 = 1) ∨ other ∈ [120, 117] ∨ hexValue other ≠ none := by
        intro other member
        rw [List.take_succ_cons, List.take_zero, List.mem_singleton] at member
        exact .inl ⟨rest, by rw [member], rfl⟩
      have single : ∀ meant, some (meant, 1) = some (value, taken) → 0 < taken ∧
          taken ≤ (unit :: rest).length ∧ ∀ other ∈ (unit :: rest).take taken,
            (∃ further, unit :: rest = other :: further ∧ taken = 1) ∨
              other ∈ [120, 117] ∨ hexValue other ≠ none := by
        rintro meant ⟨⟩
        exact ⟨Nat.one_pos, Nat.le_add_left 1 _, alone⟩
      have hexadecimal : ∀ count, unit ∈ ([120, 117] : List UInt16) → (hexNumber count 0 rest).map
          (fun number => (number.toUInt16, count + 1)) = some (value, taken) → 0 < taken ∧
          taken ≤ (unit :: rest).length ∧ ∀ other ∈ (unit :: rest).take taken,
            (∃ further, unit :: rest = other :: further ∧ taken = 1) ∨
              other ∈ [120, 117] ∨ hexValue other ≠ none := by
        intro count isLetter read
        rcases Option.map_eq_some_iff.mp read with ⟨number, found, same⟩
        rcases hexNumber_spec found with ⟨long, digits⟩
        cases same
        refine ⟨Nat.succ_pos _, Nat.succ_le_succ long, ?_⟩
        intro other member
        rcases List.mem_cons.mp member with rfl | inDigits
        · exact .inr (.inl isLetter)
        · exact .inr (.inr (digits other inDigits))
      rw [escapeSequence] at sequence
      cases found : singleEscape unit with
      | some meant =>
          rw [found] at sequence
          exact single meant sequence
      | none =>
          simp only [found] at sequence
          split at sequence
          next isX => exact hexadecimal 2 (by simp [isX]) sequence
          next =>
            split at sequence
            next isU => exact hexadecimal 4 (by simp [isU]) sequence
            next =>
              split at sequence
              · split at sequence
                · cases sequence
                · exact single 0 sequence
              · split at sequence
                · cases sequence
                · exact single unit sequence

/-- A unit that is no part of a number is taken only as the whole of an escape sequence. -/
theorem eq_cons_of_mem_escapeSequence {rest : List UInt16} {value unit : UInt16} {taken : Nat}
    (sequence : escapeSequence rest = some (value, taken)) (noLetter : unit ∉ [120, 117])
    (noDigit : hexValue unit = none) (member : unit ∈ rest.take taken) :
    ∃ further, rest = unit :: further ∧ taken = 1 := by
  rcases (escapeSequence_spec sequence).2.2 unit member with alone | isLetter | isDigit
  · exact alone
  · exact absurd isLetter noLetter
  · exact absurd noDigit isDigit

/-! ## Reading unit by unit -/

/-- How `characters` comes to the closing quote. -/
inductive Reads : (text value behind : List UInt16) → Prop where
  | close (rest : List UInt16) : Reads (quote :: rest) [] rest
  | escape {taken rest value behind : List UInt16} {unit : UInt16} :
      escapeSequence (taken ++ rest) = some (unit, taken.length) → Reads rest value behind →
      Reads (backslash :: (taken ++ rest)) (unit :: value) behind
  | plain {unit : UInt16} {rest value behind : List UInt16} :
      isPlain unit = true → Reads rest value behind → Reads (unit :: rest) (unit :: value) behind

theorem reads_of_characters {text value behind : List UInt16}
    (read : characters text = some (value, behind)) : Reads text value behind := by
  induction size : text.length using Nat.strong_induction_on generalizing text value with
  | _ size ih =>
      subst size
      cases text with
      | nil => cases read
      | cons unit text =>
          by_cases isQuote : unit = quote
          · subst isQuote
            cases read
            exact .close _
          · by_cases isBackslash : unit = backslash
            · subst isBackslash
              cases sequence : escapeSequence text with
              | none => simp [characters_malformed sequence] at read
              | some found =>
                  rcases found with ⟨meant, count⟩
                  rw [characters_backslash sequence] at read
                  rcases Option.map_eq_some_iff.mp read with ⟨⟨later, further⟩, readsOn, same⟩
                  cases same
                  have long := (escapeSequence_spec sequence).2.1
                  have taken : (text.take count).length = count := List.length_take_of_le long
                  have whole := List.take_append_drop count text
                  have shorter : (text.drop count).length < (backslash :: text).length := by
                    rw [List.length_drop, List.length_cons]
                    omega
                  rw [← whole]
                  refine .escape ?_ (ih _ shorter readsOn rfl)
                  rw [whole, taken]
                  exact sequence
            · cases ends : isLineTerminator unit with
              | true => simp [characters_lineTerminator ends] at read
              | false =>
                  have plain : isPlain unit = true := by
                    simp [isPlain, isQuote, isBackslash, ends]
                  rw [characters_plain plain] at read
                  rcases Option.map_eq_some_iff.mp read with ⟨⟨later, further⟩, readsOn, same⟩
                  cases same
                  exact .plain plain (ih _ (Nat.lt_succ_self _) readsOn rfl)

theorem characters_of_reads {text value behind : List UInt16} (reads : Reads text value behind) :
    characters text = some (value, behind) := by
  induction reads with
  | close rest => exact characters_quote rest
  | escape sequence reads ih =>
      rw [characters_backslash sequence, List.drop_left, ih]
      rfl
  | plain plain reads ih =>
      rw [characters_plain plain, ih]
      rfl

theorem Reads.ne_nil {text value behind : List UInt16} (reads : Reads text value behind) :
    text ≠ [] := by
  cases reads with
  | close rest => exact List.cons_ne_nil _ _
  | escape sequence reads => exact List.cons_ne_nil _ _
  | plain plain reads => exact List.cons_ne_nil _ _

theorem Reads.append {text value behind : List UInt16} (reads : Reads text value behind)
    (more : List UInt16) : Reads (text ++ more) value (behind ++ more) := by
  induction reads with
  | close rest => exact .close (rest ++ more)
  | @escape taken rest value behind unit sequence reads ih =>
      have inside : taken.length < (taken ++ rest).length := by
        rw [List.length_append]
        exact Nat.lt_add_of_pos_right (List.length_pos_of_ne_nil reads.ne_nil)
      have further := escapeSequence_append sequence inside more
      rw [List.append_assoc] at further
      rw [List.cons_append, List.append_assoc]
      exact .escape further ih
  | plain plain reads ih => exact .plain plain ih

/-- A literal is read the same with any text behind it. -/
theorem characters_append {text value rest : List UInt16}
    (read : characters text = some (value, rest)) (more : List UInt16) :
    characters (text ++ more) = some (value, rest ++ more) :=
  characters_of_reads ((reads_of_characters read).append more)

/-! ## Writing literals -/

/-- The reader takes back each character that `encode` writes. -/
theorem characters_flatMap (encode : UInt16 → List UInt16) {text : List UInt16}
    (readsBack : ∀ unit ∈ text, ∀ rest,
      characters (encode unit ++ rest) = (characters rest).map (prepend unit))
    (rest : List UInt16) :
    characters (text.flatMap encode ++ rest) =
      (characters rest).map fun read => (text ++ read.1, read.2) := by
  induction text with
  | nil =>
      exact (congrFun Option.map_id (characters rest)).symm
  | cons unit text ih =>
      rw [List.flatMap_cons, List.append_assoc, readsBack unit List.mem_cons_self,
        ih fun other member => readsBack other (List.mem_cons_of_mem _ member), Option.map_map]
      rfl

/-- A text of plain characters is its own literal. -/
theorem characters_of_isPlain {text : List UInt16} (plain : ∀ unit ∈ text, isPlain unit = true)
    (rest : List UInt16) : characters (text ++ quote :: rest) = some (text, rest) := by
  have read := characters_flatMap (fun unit => [unit])
    (fun unit member rest => characters_plain (plain unit member) rest) (quote :: rest)
  rw [List.flatMap_singleton', characters_quote, Option.map_some, List.append_nil] at read
  exact read

/-! ## Texts that were not meant for a literal -/

/-- What is known of the value when the first quote in the text closes the literal. -/
structure Closed (body value : List UInt16) : Prop where
  length : value.length ≤ body.length
  escapeFree : value.length = body.length → value = body ∧ ∀ unit ∈ body, isPlain unit = true
  counts : value.count backslash < body.count backslash ∨
    quote ∉ value ∧ ∀ unit, value.count unit ≤ body.count unit

/-- What is known of the value when the first quote in the text is escaped. -/
def Escaped (body value : List UInt16) : Prop :=
  ∃ front decoded, body = front ++ [backslash] ∧ decoded ++ [quote] <+: value ∧
    decoded.count backslash ≤ front.count backslash

theorem Closed.plain {unit : UInt16} {body value : List UInt16} (plain : isPlain unit = true)
    (closed : Closed body value) : Closed (unit :: body) (unit :: value) := by
  have other : quote ≠ unit := by
    rintro rfl
    exact absurd plain (by decide)
  constructor
  · exact Nat.succ_le_succ closed.length
  · intro same
    rcases closed.escapeFree (Nat.succ_injective same) with ⟨rfl, free⟩
    exact ⟨rfl, List.forall_mem_cons.mpr ⟨plain, free⟩⟩
  · rcases closed.counts with fewer | ⟨free, counts⟩
    · left
      have noBackslash : unit ≠ backslash := by
        rintro rfl
        exact absurd plain (by decide)
      rw [List.count_cons_of_ne noBackslash, List.count_cons_of_ne noBackslash]
      exact fewer
    · right
      refine ⟨List.not_mem_cons_of_ne_of_not_mem other free, ?_⟩
      intro counted
      rw [List.count_cons, List.count_cons]
      exact Nat.add_le_add_right (counts counted) _

theorem Closed.sequence {taken : List UInt16} {unit : UInt16} {body value : List UInt16}
    (nonempty : taken ≠ []) (closed : Closed body value) :
    Closed (backslash :: taken ++ body) (unit :: value) := by
  have positive := List.length_pos_of_ne_nil nonempty
  constructor
  · have bound := closed.length
    simp only [List.length_cons, List.length_append]
    omega
  · intro same
    have bound := closed.length
    simp only [List.length_cons, List.length_append] at same
    omega
  · have atMost : value.count backslash ≤ body.count backslash := by
      rcases closed.counts with fewer | ⟨_, counts⟩
      · exact fewer.le
      · exact counts backslash
    by_cases isBackslash : unit = backslash
    · subst isBackslash
      rcases closed.counts with fewer | ⟨free, counts⟩
      · left
        simp only [List.count_cons_self, List.cons_append, List.count_append]
        omega
      · right
        refine ⟨List.not_mem_cons_of_ne_of_not_mem (by decide) free, ?_⟩
        intro counted
        have bound := counts counted
        simp only [List.count_cons, List.cons_append, List.count_append]
        omega
    · left
      simp only [List.count_cons_of_ne isBackslash, List.count_cons_self, List.cons_append,
        List.count_append]
      omega

theorem Escaped.plain {unit : UInt16} {body value : List UInt16} (escaped : Escaped body value) :
    Escaped (unit :: body) (unit :: value) := by
  rcases escaped with ⟨front, decoded, shape, isPrefix, counts⟩
  refine ⟨unit :: front, unit :: decoded, by rw [shape, List.cons_append], ?_, ?_⟩
  · exact List.cons_prefix_cons.mpr ⟨rfl, isPrefix⟩
  · rw [List.count_cons, List.count_cons]
    exact Nat.add_le_add_right counts _

theorem Escaped.sequence {taken : List UInt16} {unit : UInt16} {body value : List UInt16}
    (escaped : Escaped body value) : Escaped (backslash :: taken ++ body) (unit :: value) := by
  rcases escaped with ⟨front, decoded, shape, isPrefix, counts⟩
  refine ⟨backslash :: taken ++ front, unit :: decoded, by rw [shape, List.append_assoc], ?_, ?_⟩
  · exact List.cons_prefix_cons.mpr ⟨rfl, isPrefix⟩
  · rw [List.cons_append, List.count_cons_self, List.count_append, List.count_cons]
    split <;> omega

/-- A literal ends at the first quote in the text, or the first quote is escaped. -/
theorem closed_or_escaped {body value behind rest : List UInt16} (free : quote ∉ body)
    (read : characters (body ++ quote :: rest) = some (value, behind)) :
    behind = rest ∧ Closed body value ∨ Escaped body value := by
  have reads := reads_of_characters read
  clear read
  generalize shape : body ++ quote :: rest = text at reads
  induction reads generalizing body with
  | close further =>
      cases body with
      | nil =>
          left
          exact ⟨(List.cons.inj shape).2.symm, Nat.le_refl _,
            fun _ => ⟨rfl, List.forall_mem_nil _⟩,
            .inr ⟨List.not_mem_nil, fun _ => Nat.le_refl _⟩⟩
      | cons first body =>
          exact absurd (List.cons.inj shape).1.symm (List.ne_of_not_mem_cons free)
  | @escape taken further value behind unit sequence reads ih =>
      cases body with
      | nil => exact absurd (List.cons.inj shape).1 (by decide)
      | cons first body =>
          rcases List.cons.inj shape with ⟨rfl, inside⟩
          have nonempty : taken ≠ [] :=
            List.ne_nil_of_length_pos (escapeSequence_spec sequence).1
          have continues {between : List UInt16} (isBody : body = taken ++ between)
              (isRest : between ++ quote :: rest = further) :
              behind = rest ∧ Closed (backslash :: body) (unit :: value) ∨
                Escaped (backslash :: body) (unit :: value) := by
            rw [isBody] at free ⊢
            have betweenFree : quote ∉ between := fun member =>
              free (List.mem_cons_of_mem _ (List.mem_append_right _ member))
            rcases ih betweenFree isRest with ⟨same, closed⟩ | escaped
            · exact .inl ⟨same, closed.sequence nonempty⟩
            · exact .inr escaped.sequence
          rcases List.append_eq_append_iff.mp inside with
            ⟨between, isTaken, isBack⟩ | ⟨between, isBody, isRest⟩
          · cases between with
            | nil =>
                rw [List.append_nil] at isTaken
                exact continues (by rw [isTaken, List.append_nil]) isBack
            | cons symbol between =>
                -- The sequence takes the quote, so it is the quote alone.
                rcases List.cons.inj isBack with ⟨rfl, _⟩
                have member : quote ∈ (taken ++ further).take taken.length := by
                  rw [List.take_left, isTaken]
                  exact List.mem_append_right _ List.mem_cons_self
                rcases eq_cons_of_mem_escapeSequence sequence (by decide) rfl member with
                  ⟨later, isQuote, isOne⟩
                rw [isQuote, isOne] at sequence
                have meant : unit = quote := by
                  cases sequence
                  rfl
                rw [isTaken, List.length_append, List.length_cons] at isOne
                have empty : body = [] := List.eq_nil_of_length_eq_zero (by omega)
                rw [empty, meant]
                right
                exact ⟨[], [], rfl, ⟨value, rfl⟩, Nat.le_refl _⟩
          · exact continues isBody isRest.symm
  | @plain unit further value behind plain reads ih =>
      cases body with
      | nil =>
          cases shape
          cases plain
      | cons first body =>
          rcases List.cons.inj shape with ⟨rfl, inside⟩
          rcases ih (List.not_mem_of_not_mem_cons free) inside with ⟨same, closed⟩ | escaped
          · exact .inl ⟨same, closed.plain plain⟩
          · exact .inr escaped.plain

/-! ## Where a literal ends -/

/-- The closing quote is the last unit of a text that is read to its end. -/
theorem Reads.exists_body {text value : List UInt16} (reads : Reads text value []) :
    ∃ body, text = body ++ [quote] := by
  generalize isEnd : ([] : List UInt16) = behind at reads
  induction reads with
  | close rest => exact ⟨[], by rw [← isEnd]; rfl⟩
  | @escape taken rest value behind unit sequence reads ih =>
      rcases ih isEnd with ⟨body, rfl⟩
      exact ⟨backslash :: (taken ++ body), by simp⟩
  | @plain unit rest value behind plain reads ih =>
      rcases ih isEnd with ⟨body, rfl⟩
      exact ⟨unit :: body, rfl⟩

/-- A text that is read weighs no less than its value, and no more only where it has no
escape sequences. -/
theorem Reads.plain_or_lighter {weight : UInt16 → Nat} (positive : ∀ unit, 0 < weight unit)
    (heaviest : ∀ unit, weight unit ≤ weight backslash) {text value behind : List UInt16}
    (reads : Reads text value behind) :
    text = value ++ quote :: behind ∧ (∀ unit ∈ value, isPlain unit = true) ∨
      ((value ++ quote :: behind).map weight).sum < (text.map weight).sum := by
  induction reads with
  | close rest => exact .inl ⟨rfl, List.forall_mem_nil _⟩
  | @escape taken rest value behind unit sequence reads ih =>
      right
      have atMost : ((value ++ quote :: behind).map weight).sum ≤ (rest.map weight).sum := by
        rcases ih with ⟨same, _⟩ | lighter
        · rw [same]
        · exact lighter.le
      have takes : 0 < (taken.map weight).sum := by
        cases taken with
        | nil => exact absurd (escapeSequence_spec sequence).1 (Nat.lt_irrefl 0)
        | cons first taken =>
            rw [List.map_cons, List.sum_cons]
            exact Nat.add_pos_left (positive first) _
      have bound := heaviest unit
      simp only [List.cons_append, List.map_cons, List.map_append, List.sum_cons,
        List.sum_append] at atMost ⊢
      omega
  | @plain unit rest value behind plain reads ih =>
      rcases ih with ⟨same, plains⟩ | lighter
      · exact .inl ⟨congrArg (unit :: ·) same, List.forall_mem_cons.mpr ⟨plain, plains⟩⟩
      · right
        simpa only [List.cons_append, List.map_cons, List.sum_cons, Nat.add_lt_add_iff_left]
          using lighter

theorem Reads.count_backslash {text value behind : List UInt16} (reads : Reads text value behind) :
    value.count backslash + behind.count backslash ≤ text.count backslash := by
  induction reads with
  | close rest =>
      rw [List.count_nil, Nat.zero_add]
      exact (List.sublist_cons_self quote rest).count_le _
  | @escape taken rest value behind unit sequence reads ih =>
      simp only [List.count_cons, List.count_append, beq_self_eq_true, if_true]
      split <;> omega
  | @plain unit rest value behind plain reads ih =>
      rw [List.count_cons, List.count_cons]
      omega

/-- A quote in a text that is read: either the literal is closed by then, or the quote is
escaped and reading goes on behind it. -/
theorem Reads.at_quote {front back value behind : List UInt16}
    (reads : Reads (front ++ quote :: back) value behind) :
    back.length ≤ behind.length ∨
      front.getLast? = some backslash ∧ ∃ later, Reads back later behind := by
  generalize shape : front ++ quote :: back = text at reads
  induction reads generalizing front with
  | close rest =>
      left
      cases front with
      | nil =>
          cases shape
          exact Nat.le_refl _
      | cons first front =>
          have inside : front ++ quote :: back = rest := (List.cons.inj shape).2
          rw [← inside, List.length_append, List.length_cons]
          omega
  | @escape taken rest value behind unit sequence reads ih =>
      cases front with
      | nil => exact absurd (List.cons.inj shape).1 (by decide)
      | cons first front =>
          rcases List.cons.inj shape with ⟨rfl, inside⟩
          rcases List.append_eq_append_iff.mp inside with
            ⟨between, isTaken, isBack⟩ | ⟨between, rfl, isRest⟩
          · cases between with
            | nil =>
                rw [List.append_nil] at isTaken
                rcases @ih [] isBack with shorter | ⟨impossible, _⟩
                · exact .inl shorter
                · cases impossible
            | cons unit between =>
                cases isBack
                have member : quote ∈ (taken ++ rest).take taken.length := by
                  rw [List.take_left, isTaken]
                  exact List.mem_append_right _ List.mem_cons_self
                rcases eq_cons_of_mem_escapeSequence sequence (by decide) rfl member with
                  ⟨_, _, isOne⟩
                rw [isTaken, List.length_append, List.length_cons] at isOne
                have noFront : front = [] := List.eq_nil_of_length_eq_zero (by omega)
                have noBetween : between = [] := List.eq_nil_of_length_eq_zero (by omega)
                right
                rw [noFront, noBetween]
                exact ⟨rfl, value, reads⟩
          · rcases ih isRest.symm with shorter | ⟨escaped, readsOn⟩
            · exact .inl shorter
            · right
              refine ⟨?_, readsOn⟩
              rw [← List.cons_append, List.getLast?_append, escaped]
              rfl
  | @plain unit rest value behind plain reads ih =>
      cases front with
      | nil =>
          cases shape
          cases plain
      | cons first front =>
          rcases List.cons.inj shape with ⟨rfl, inside⟩
          rcases ih inside with shorter | ⟨escaped, readsOn⟩
          · exact .inl shorter
          · right
            refine ⟨?_, readsOn⟩
            rw [List.getLast?_cons, escaped]
            rfl

/-- A quote that is not escaped ends the literal, if it goes on that far. -/
theorem Reads.length_le {front back value behind : List UInt16}
    (reads : Reads (front ++ quote :: back) value behind)
    (unescaped : front.getLast? ≠ some backslash) : back.length ≤ behind.length := by
  rcases reads.at_quote with shorter | ⟨escaped, _⟩
  · exact shorter
  · exact absurd escaped unescaped

/-- Where a value has no fewer backslashes than its text, each escape sequence stands for one
and has no other.  The last one tells the text from the value. -/
theorem Reads.last_backslash {text value behind : List UInt16} (reads : Reads text value behind)
    (many : text.count backslash ≤ value.count backslash + behind.count backslash) :
    backslash ∉ value ∧ text = value ++ quote :: behind ∨
      ∃ front escape decoded back,
        text = front ++ backslash :: (escape ++ (back ++ quote :: behind)) ∧
        value = decoded ++ backslash :: back ∧ escape ≠ [] ∧ backslash ∉ back ∧
        ∀ unit ∈ escape, unit ≠ backslash ∧ unit ≠ 0x25 := by
  induction reads with
  | close rest => exact .inl ⟨List.not_mem_nil, rfl⟩
  | @escape taken rest value behind unit sequence reads ih =>
      have least := reads.count_backslash
      simp only [List.count_cons, List.count_append, beq_self_eq_true, if_true] at many
      have isBackslash : unit = backslash := by
        by_contra other
        rw [if_neg (by simpa using other)] at many
        omega
      rw [if_pos (by simpa using isBackslash)] at many
      subst isBackslash
      have takenFree : backslash ∉ taken := List.count_eq_zero.mp (by omega)
      rcases ih (by omega) with ⟨valueFree, same⟩ | ⟨front, escape, decoded, back, isText, isValue,
        others⟩
      · right
        refine ⟨[], taken, [], value, by rw [same]; rfl, rfl, ?_, valueFree, ?_⟩
        · rintro rfl
          exact absurd (escapeSequence_spec sequence).1 (Nat.lt_irrefl 0)
        · intro symbol member
          refine ⟨fun same => takenFree (same ▸ member), ?_⟩
          rintro rfl
          have within : taken = (taken ++ rest).take taken.length := List.take_left.symm
          rw [within] at member
          rcases eq_cons_of_mem_escapeSequence sequence (by decide) rfl member with
            ⟨further, isPercent, isOne⟩
          rw [isPercent, isOne] at sequence
          exact absurd (congrArg (Option.map Prod.fst) sequence)
            (show some (0x25 : UInt16) ≠ some backslash by decide)
      · right
        refine ⟨backslash :: (taken ++ front), escape, backslash :: decoded, back, ?_, ?_, others⟩
        · rw [isText]
          simp only [List.cons_append, List.append_assoc]
        · rw [isValue, List.cons_append]
  | @plain unit rest value behind plain reads ih =>
      rw [List.count_cons, List.count_cons] at many
      rcases ih (by omega) with ⟨valueFree, same⟩ | ⟨front, escape, decoded, back, isText, isValue,
        others⟩
      · left
        refine ⟨?_, congrArg (unit :: ·) same⟩
        apply List.not_mem_cons_of_ne_of_not_mem _ valueFree
        rintro rfl
        cases plain
      · right
        exact ⟨unit :: front, escape, unit :: decoded, back, by rw [isText]; rfl,
          by rw [isValue]; rfl, others⟩

/-- Two literals that end a text begin at the same quote, if neither begins behind a backslash:
one of them is read to its end, and in the other one all quotes but the last are escaped. -/
theorem Reads.unique {front other text body value : List UInt16} (reads : Reads body value [])
    (shape : front ++ quote :: text = other ++ quote :: body) (nonempty : text ≠ [])
    (frontUnescaped : front.getLast? ≠ some backslash)
    (otherUnescaped : other.getLast? ≠ some backslash)
    (escaped : ∀ before after, text = before ++ quote :: after →
      before.getLast? = some backslash ∨ after = []) :
    front = other ∧ text = body := by
  rcases List.append_eq_append_iff.mp shape with ⟨between, isOther, same⟩ | ⟨between, isFront, same⟩
  · cases between with
    | nil => exact ⟨by simpa using isOther.symm, by simpa using same⟩
    | cons first between =>
        exfalso
        rcases List.cons.inj same with ⟨rfl, isText⟩
        rcases escaped between body isText with isEscaped | isEmpty
        · apply otherUnescaped
          rw [isOther, List.getLast?_append, List.getLast?_cons, isEscaped]
          rfl
        · rcases reads.exists_body with ⟨rest, isBody⟩
          rw [isEmpty] at isBody
          simp at isBody
  · cases between with
    | nil => exact ⟨by simpa using isFront, by simpa using same.symm⟩
    | cons first between =>
        exfalso
        rcases List.cons.inj same with ⟨rfl, rfl⟩
        apply nonempty
        apply List.eq_nil_of_length_eq_zero
        apply Nat.le_zero.mp
        apply reads.length_le
        intro isEscaped
        apply frontUnescaped
        rw [isFront, List.getLast?_append, List.getLast?_cons, isEscaped]
        rfl

end Hooq.Library.StringLiteral

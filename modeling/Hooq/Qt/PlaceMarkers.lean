import Hooq.Qt.Unicode

/-!
# Place markers

`QString::arg` replaces all occurrences of the place marker with the lowest number.  A
marker is a percent sign, perhaps an `L`, and one or two digits.  What is inserted is
text like any other to the next call.
-/

namespace Hooq

namespace CharacterTables

variable (tables : CharacterTables)

/-- The number at the front of a text, from one or two digits, and its length. -/
def markerNumber : QString → Option (Nat × Nat)
  | [] => none
  | first :: rest =>
      match tables.digitValue first with
      | none => none
      | some digit =>
          match rest.head?.bind tables.digitValue with
          | none => some (digit, 1)
          | some next => some (10 * digit + next, 2)

/-- What follows the percent sign of a marker. -/
def markerBody : QString → Option (Nat × Nat)
  | [] => none
  | first :: rest =>
      if first = 0x4C then
        (tables.markerNumber rest).map fun found => (found.1, found.2 + 1)
      else
        tables.markerNumber (first :: rest)

/-- The place marker at the front of a text: its number and its length. -/
def marker : QString → Option (Nat × Nat)
  | [] => none
  | first :: rest =>
      if first = 0x25 then
        (tables.markerBody rest).map fun found => (found.1, found.2 + 1)
      else
        none

/-- The numbers of the markers in a text. -/
def markers : QString → List Nat
  | [] => []
  | character :: rest =>
      ((tables.marker (character :: rest)).map Prod.fst).toList ++ markers rest

/-- Replace the markers with one number.  The first argument counts the characters of a
marker still to be skipped. -/
def fillFrom (number : Nat) (inserted : QString) : Nat → QString → QString
  | _, [] => []
  | skipped + 1, _ :: rest => fillFrom number inserted skipped rest
  | 0, character :: rest =>
      match tables.marker (character :: rest) with
      | none => character :: fillFrom number inserted 0 rest
      | some (found, length) =>
          if found = number then
            inserted ++ fillFrom number inserted (length - 1) rest
          else
            character :: fillFrom number inserted 0 rest

def fill (number : Nat) (inserted text : QString) : QString :=
  tables.fillFrom number inserted 0 text

/-- `QString::arg`. -/
def arg (text inserted : QString) : QString :=
  match (tables.markers text).min? with
  | none => text
  | some number => tables.fill number inserted text

/-! ## Markers in longer texts -/

theorem marker_of_ne {first : QChar} (other : first ≠ 0x25) (rest : QString) :
    tables.marker (first :: rest) = none :=
  if_neg other

theorem fillFrom_skip (number : Nat) (inserted text : QString) (skipped : Nat) :
    tables.fillFrom number inserted skipped text =
      tables.fill number inserted (text.drop skipped) := by
  induction text generalizing skipped with
  | nil => cases skipped <;> rfl
  | cons character rest ih =>
      cases skipped with
      | zero => rfl
      | succ skipped => exact ih skipped

theorem fill_unmarked {number : Nat} {inserted rest : QString} {character : QChar}
    (unmarked : ∀ found ∈ tables.marker (character :: rest), found.1 ≠ number) :
    tables.fill number inserted (character :: rest) =
      character :: tables.fill number inserted rest := by
  rw [fill, fillFrom]
  cases marked : tables.marker (character :: rest) with
  | none => rfl
  | some found => exact if_neg (unmarked found marked)

theorem fill_marked {number length : Nat} {inserted rest : QString} {character : QChar}
    (marked : tables.marker (character :: rest) = some (number, length)) :
    tables.fill number inserted (character :: rest) =
      inserted ++ tables.fill number inserted (rest.drop (length - 1)) := by
  rw [fill, fillFrom, marked, ← fillFrom_skip]
  exact if_pos rfl

/-- What a marker consists of. -/
structure IsMarker (text : QString) (length : Nat) : Prop where
  positive : 1 < length
  fits : length ≤ text.length
  percent : text.head? = some 0x25
  unquoted : (34 : QChar) ∉ text.take length

theorem digitValue_quote : tables.digitValue 34 = none := by
  rw [tables.digitValue_ascii (by decide)]
  rfl

theorem markerNumber_spec {text : QString} {number length : Nat}
    (found : tables.markerNumber text = some (number, length)) :
    0 < length ∧ length ≤ text.length ∧ (34 : QChar) ∉ text.take length := by
  cases text with
  | nil => cases found
  | cons first rest =>
      rw [markerNumber] at found
      cases digit : tables.digitValue first with
      | none => simp [digit] at found
      | some value =>
          have firstOther : (34 : QChar) ≠ first := by
            rintro rfl
            simp [tables.digitValue_quote] at digit
          simp only [digit] at found
          cases next : rest.head?.bind tables.digitValue with
          | none =>
              simp only [next, Option.some.injEq, Prod.mk.injEq] at found
              rcases found with ⟨_, rfl⟩
              exact ⟨Nat.one_pos, Nat.le_add_left 1 _, by simpa using firstOther⟩
          | some second =>
              simp only [next, Option.some.injEq, Prod.mk.injEq] at found
              rcases found with ⟨_, rfl⟩
              cases rest with
              | nil => cases next
              | cons character rest =>
                  have secondOther : (34 : QChar) ≠ character := by
                    rintro rfl
                    simp [tables.digitValue_quote] at next
                  exact ⟨Nat.two_pos, by simp, by simp [firstOther, secondOther]⟩

theorem markerBody_spec {text : QString} {number length : Nat}
    (found : tables.markerBody text = some (number, length)) :
    0 < length ∧ length ≤ text.length ∧ (34 : QChar) ∉ text.take length := by
  cases text with
  | nil => cases found
  | cons first rest =>
      rw [markerBody] at found
      split at found
      next isL =>
        subst isL
        rcases Option.map_eq_some_iff.mp found with ⟨⟨value, taken⟩, read, same⟩
        rcases tables.markerNumber_spec read with ⟨positive, fits, unquoted⟩
        cases same
        exact ⟨Nat.succ_pos _, Nat.succ_le_succ fits, by simpa using unquoted⟩
      next => exact tables.markerNumber_spec found

theorem marker_spec {text : QString} {number length : Nat}
    (found : tables.marker text = some (number, length)) : IsMarker text length := by
  cases text with
  | nil => cases found
  | cons first rest =>
      rw [marker] at found
      split at found
      next percent =>
        subst percent
        rcases Option.map_eq_some_iff.mp found with ⟨⟨value, taken⟩, read, same⟩
        rcases tables.markerBody_spec read with ⟨positive, fits, unquoted⟩
        cases same
        exact ⟨Nat.succ_lt_succ positive, Nat.succ_le_succ fits, rfl, by simpa using unquoted⟩
      next => cases found

theorem fill_of_not_mem {number : Nat} {text : QString} (absent : number ∉ tables.markers text)
    (inserted : QString) : tables.fill number inserted text = text := by
  induction text with
  | nil => rfl
  | cons character rest ih =>
      rw [markers, List.mem_append, not_or] at absent
      rw [fill_unmarked, ih absent.2]
      rintro found marked rfl
      apply absent.1
      rw [Option.mem_def.mp marked]
      exact List.mem_singleton_self _

/-- A character that no marker goes on with. -/
structure Stops (character : QChar) : Prop where
  noDigit : tables.digitValue character = none
  noL : character ≠ 0x4C

section Stops

variable {tables} {stop : QChar} (stops : tables.Stops stop)
include stops

theorem Stops.markerNumber (text rest : QString) :
    tables.markerNumber (text ++ stop :: rest) = tables.markerNumber text := by
  cases text with
  | nil =>
      change (match tables.digitValue stop with
        | none => none
        | some digit => _) = none
      rw [stops.noDigit]
  | cons first text =>
      rw [List.cons_append, CharacterTables.markerNumber, CharacterTables.markerNumber]
      cases text with
      | nil =>
          rw [List.nil_append, List.head?_cons, Option.bind_some, stops.noDigit]
          rfl
      | cons second text => rfl

theorem Stops.markerBody (text rest : QString) :
    tables.markerBody (text ++ stop :: rest) = tables.markerBody text := by
  cases text with
  | nil =>
      have nothing := stops.markerNumber [] rest
      exact (if_neg stops.noL).trans nothing
  | cons first text =>
      have whole := stops.markerNumber (first :: text) rest
      rw [List.cons_append] at whole ⊢
      rw [CharacterTables.markerBody, CharacterTables.markerBody, stops.markerNumber, whole]

theorem Stops.marker {text : QString} (nonempty : text ≠ []) (rest : QString) :
    tables.marker (text ++ stop :: rest) = tables.marker text := by
  cases text with
  | nil => exact absurd rfl nonempty
  | cons first text =>
      rw [List.cons_append, CharacterTables.marker, CharacterTables.marker, stops.markerBody]

theorem Stops.markers (text rest : QString) :
    tables.markers (text ++ stop :: rest) =
      tables.markers text ++ tables.markers (stop :: rest) := by
  induction text with
  | nil => rfl
  | cons character text ih =>
      have same := stops.marker (List.cons_ne_nil character text) rest
      rw [List.cons_append] at same
      rw [List.cons_append, CharacterTables.markers.eq_2, same, ih,
        CharacterTables.markers.eq_2 tables character text, List.append_assoc]

theorem Stops.fill (number : Nat) (inserted text rest : QString) :
    tables.fill number inserted (text ++ stop :: rest) =
      tables.fill number inserted text ++ tables.fill number inserted (stop :: rest) := by
  induction size : text.length using Nat.strong_induction_on generalizing text with
  | _ size ih =>
      subst size
      cases text with
      | nil => rfl
      | cons character text =>
          have same := stops.marker (List.cons_ne_nil character text) rest
          rw [List.cons_append] at same ⊢
          by_cases marked : ∃ length, tables.marker (character :: text) = some (number, length)
          · rcases marked with ⟨length, marked⟩
            have fits := (tables.marker_spec marked).fits
            have inside : length - 1 ≤ text.length := by
              rw [List.length_cons] at fits
              omega
            have shorter : (text.drop (length - 1)).length < (character :: text).length := by
              rw [List.length_drop, List.length_cons]
              omega
            rw [tables.fill_marked marked, tables.fill_marked (same.trans marked),
              List.drop_append_of_le_length inside, ih _ shorter _ rfl, List.append_assoc]
          · have unmarked : ∀ found ∈ tables.marker (character :: text), found.1 ≠ number := by
              rintro ⟨other, length⟩ isMarked rfl
              exact marked ⟨length, isMarked⟩
            rw [tables.fill_unmarked unmarked, tables.fill_unmarked (by rw [same]; exact unmarked),
              ih text.length (Nat.lt_succ_self _) text rfl, List.cons_append]

end Stops

/-! ## Templates -/

theorem markers_cons_of_ne {first : QChar} (other : first ≠ 0x25) (rest : QString) :
    tables.markers (first :: rest) = tables.markers rest := by
  rw [markers, tables.marker_of_ne other]
  rfl

theorem markers_inert {front : QString} (inert : 0x25 ∉ front) (text : QString) :
    tables.markers (front ++ text) = tables.markers text := by
  induction front with
  | nil => rfl
  | cons first front ih =>
      have other : first ≠ 0x25 := Ne.symm (List.ne_of_not_mem_cons inert)
      rw [List.cons_append, tables.markers_cons_of_ne other,
        ih (List.not_mem_of_not_mem_cons inert)]

theorem fill_cons_of_ne {first : QChar} (other : first ≠ 0x25) (number : Nat)
    (inserted rest : QString) :
    tables.fill number inserted (first :: rest) = first :: tables.fill number inserted rest := by
  apply tables.fill_unmarked
  intro found marked
  rw [tables.marker_of_ne other] at marked
  cases marked

theorem fill_inert {front : QString} (inert : 0x25 ∉ front) (number : Nat)
    (inserted text : QString) :
    tables.fill number inserted (front ++ text) = front ++ tables.fill number inserted text := by
  induction front with
  | nil => rfl
  | cons first front ih =>
      have other : first ≠ 0x25 := Ne.symm (List.ne_of_not_mem_cons inert)
      rw [List.cons_append, tables.fill_cons_of_ne other,
        ih (List.not_mem_of_not_mem_cons inert), List.cons_append]

/-- The marker with a number of one digit. -/
def place (digit : Nat) : QString := [0x25, QString.digitOf digit]

theorem digitOf_ne {digit : Nat} (small : digit < 10) :
    QString.digitOf digit ≠ 0x25 ∧ QString.digitOf digit ≠ 0x4C ∧ QString.digitOf digit < 0x80 := by
  revert digit
  decide

section Place

variable {tables} {stop : QChar} (stops : tables.Stops stop) {digit : Nat} (small : digit < 10)
include stops small

theorem Stops.marker_place (rest : QString) :
    tables.marker (place digit ++ stop :: rest) = some (digit, 2) := by
  have spec := QString.digitOf_spec small
  have value : tables.digitValue (QString.digitOf digit) = some digit := by
    rw [tables.digitValue_ascii (digitOf_ne small).2.2, if_pos spec.1, spec.2.2.1]
  have number : tables.markerNumber [QString.digitOf digit] = some (digit, 1) := by
    rw [CharacterTables.markerNumber, value]
    rfl
  have body : tables.markerBody [QString.digitOf digit] = some (digit, 1) := by
    rw [CharacterTables.markerBody, if_neg (digitOf_ne small).2.1, number]
  have nonempty : place digit ≠ [] := List.cons_ne_nil _ _
  rw [stops.marker nonempty, place, CharacterTables.marker, if_pos rfl, body]
  rfl

theorem Stops.markers_place (rest : QString) :
    tables.markers (place digit ++ stop :: rest) = digit :: tables.markers (stop :: rest) := by
  have found := stops.marker_place small rest
  change ((tables.marker (place digit ++ stop :: rest)).map Prod.fst).toList ++
    tables.markers (QString.digitOf digit :: stop :: rest) = _
  rw [found, tables.markers_cons_of_ne (digitOf_ne small).1]
  rfl

theorem Stops.fill_place_self (inserted rest : QString) :
    tables.fill digit inserted (place digit ++ stop :: rest) =
      inserted ++ tables.fill digit inserted (stop :: rest) :=
  tables.fill_marked (stops.marker_place small rest)

theorem Stops.fill_place_of_ne {number : Nat} (other : digit ≠ number) (inserted rest : QString) :
    tables.fill number inserted (place digit ++ stop :: rest) =
      place digit ++ tables.fill number inserted (stop :: rest) := by
  have found := stops.marker_place small rest
  have unmarked : ∀ marked ∈ tables.marker (0x25 :: QString.digitOf digit :: stop :: rest),
      marked.1 ≠ number := by
    intro marked isMarked
    cases Option.mem_unique isMarked found
    exact other
  change tables.fill number inserted (0x25 :: QString.digitOf digit :: stop :: rest) = _
  rw [tables.fill_unmarked unmarked, tables.fill_cons_of_ne (digitOf_ne small).1]
  rfl

end Place

theorem arg_eq_fill {text : QString} {number : Nat} (member : number ∈ tables.markers text)
    (least : ∀ other ∈ tables.markers text, number ≤ other) (inserted : QString) :
    tables.arg text inserted = tables.fill number inserted text := by
  have lowest : (tables.markers text).min? = some number :=
    List.min?_eq_some_iff.mpr ⟨member, least⟩
  rw [arg, lowest]

/-- An ASCII character other than a digit and `L` ends a marker. -/
theorem stops_ascii {character : QChar} (ascii : character < 0x80)
    (noDigit : QString.isDigit character = false) (noL : character ≠ 0x4C) :
    tables.Stops character where
  noDigit := by
    rw [tables.digitValue_ascii ascii, noDigit]
    rfl
  noL := noL

theorem stops_percent : tables.Stops 0x25 :=
  tables.stops_ascii (by decide) rfl (by decide)

/-- The call replaces the marker with the lowest number, wherever it is. -/
theorem arg_place {stop : QChar} (stops : tables.Stops stop) {digit : Nat} (small : digit < 10)
    {front back : QString} (higherFront : ∀ number ∈ tables.markers front, digit < number)
    (higherBack : ∀ number ∈ tables.markers (stop :: back), digit < number)
    (inserted : QString) :
    tables.arg (front ++ (place digit ++ stop :: back)) inserted =
      front ++ (inserted ++ stop :: back) := by
  have numbers : tables.markers (front ++ (place digit ++ stop :: back)) =
      tables.markers front ++ digit :: tables.markers (stop :: back) := by
    rw [← stops.markers_place small]
    exact tables.stops_percent.markers front _
  have least : ∀ number ∈ tables.markers (front ++ (place digit ++ stop :: back)),
      digit ≤ number := by
    intro number member
    rw [numbers, List.mem_append, List.mem_cons] at member
    rcases member with inFront | rfl | inBack
    · exact Nat.le_of_lt (higherFront number inFront)
    · exact Nat.le_refl number
    · exact Nat.le_of_lt (higherBack number inBack)
  have frontFree : digit ∉ tables.markers front :=
    fun member => Nat.lt_irrefl digit (higherFront digit member)
  have backFree : digit ∉ tables.markers (stop :: back) :=
    fun member => Nat.lt_irrefl digit (higherBack digit member)
  have split : tables.fill digit inserted (front ++ (place digit ++ stop :: back)) =
      tables.fill digit inserted front ++
        tables.fill digit inserted (place digit ++ stop :: back) :=
    tables.stops_percent.fill digit inserted front _
  rw [tables.arg_eq_fill (by rw [numbers]; simp) least, split,
    tables.fill_of_not_mem frontFree, stops.fill_place_self small,
    tables.fill_of_not_mem backFree]

/-- The number that a call replaces in a text with markers. -/
theorem exists_lowest {text : QString} {number : Nat} (member : number ∈ tables.markers text) :
    ∃ lowest ∈ tables.markers text, ∀ other ∈ tables.markers text, lowest ≤ other := by
  cases found : (tables.markers text).min? with
  | none =>
      rw [List.min?_eq_none_iff] at found
      rw [found] at member
      cases member
  | some lowest =>
      rcases List.min?_eq_some_iff.mp found with ⟨isMember, least⟩
      exact ⟨lowest, isMember, least⟩

end CharacterTables

end Hooq

import Hooq.Qt.PlaceMarkers

/-!
# Insertions into insertions

What one call of `QString::arg` has inserted may have markers for the next call, alone or
together with the text around it.  This module says when two insertions one after the other
can leave a text as it was.
-/

namespace Hooq

namespace CharacterTables

variable (tables : CharacterTables)

/-! ## Markers and where they are -/

theorem mem_markers_append {front text : QString} {number : Nat}
    (member : number ∈ tables.markers text) : number ∈ tables.markers (front ++ text) := by
  induction front with
  | nil => exact member
  | cons first front ih =>
      rw [List.cons_append, markers, List.mem_append]
      exact .inr ih

theorem mem_markers_of_marker {text : QString} {number length : Nat}
    (marked : tables.marker text = some (number, length)) : number ∈ tables.markers text := by
  cases text with
  | nil => cases marked
  | cons first rest =>
      rw [markers, marked]
      exact List.mem_cons_self

theorem markers_of_unmarked {character : QChar} {rest : QString} {number : Nat}
    (unmarked : ∀ found ∈ tables.marker (character :: rest), found.1 ≠ number)
    (member : number ∈ tables.markers (character :: rest)) : number ∈ tables.markers rest := by
  rw [markers, List.mem_append] at member
  rcases member with here | later
  · cases marked : tables.marker (character :: rest) with
    | none => simp [marked] at here
    | some found =>
        rw [marked] at here
        exact absurd (List.mem_singleton.mp here).symm (unmarked found marked)
  · exact later

/-- A text is scanned for the markers of a number: a marker at the front is taken as a whole,
and other text character by character. -/
theorem fill_induction {motive : QString → Prop} (number : Nat) (nil : motive [])
    (marked : ∀ mark back, tables.marker (mark ++ back) = some (number, mark.length) →
      motive back → motive (mark ++ back))
    (unmarked : ∀ character rest,
      (∀ found ∈ tables.marker (character :: rest), found.1 ≠ number) →
      motive rest → motive (character :: rest))
    (text : QString) : motive text := by
  induction size : text.length using Nat.strong_induction_on generalizing text with
  | _ size ih =>
      subst size
      cases text with
      | nil => exact nil
      | cons character rest =>
          by_cases isMarked : ∃ length, tables.marker (character :: rest) = some (number, length)
          · rcases isMarked with ⟨length, isMarked⟩
            have spec := tables.marker_spec isMarked
            have taken : ((character :: rest).take length).length = length :=
              List.length_take_of_le spec.fits
            have whole := List.take_append_drop length (character :: rest)
            have shorter :
                ((character :: rest).drop length).length < (character :: rest).length := by
              have positive := spec.positive
              rw [List.length_drop, List.length_cons]
              omega
            rw [← whole]
            refine marked _ _ ?_ (ih _ shorter _ rfl)
            rw [whole, taken]
            exact isMarked
          · refine unmarked character rest ?_ (ih _ (Nat.lt_succ_self _) rest rfl)
            rintro ⟨other, length⟩ found rfl
            exact isMarked ⟨length, found⟩

theorem percent_of_marked {number : Nat} {mark back : QString}
    (marked : tables.marker (mark ++ back) = some (number, mark.length)) :
    ∃ tail, mark = 0x25 :: tail := by
  have spec := tables.marker_spec marked
  cases mark with
  | nil => exact absurd spec.positive (by decide)
  | cons first tail => exact ⟨tail, congrArg (· :: tail) (Option.some.inj spec.percent)⟩

theorem fill_mark {number : Nat} {mark back : QString}
    (marked : tables.marker (mark ++ back) = some (number, mark.length)) (inserted : QString) :
    tables.fill number inserted (mark ++ back) =
      inserted ++ tables.fill number inserted back := by
  rcases tables.percent_of_marked marked with ⟨tail, rfl⟩
  rw [List.cons_append] at marked ⊢
  rw [tables.fill_marked marked, List.length_cons, Nat.add_sub_cancel, List.drop_left]

/-! ## What a marker is made of -/

theorem digitValue_percent : tables.digitValue 0x25 = none := by
  rw [tables.digitValue_ascii (by decide)]
  rfl

/-- A marker with a number of one digit ends in this digit. -/
structure EndsIn (mark : QString) (digit : Nat) : Prop where
  free : 0x25 ∉ mark
  last : mark.getLast?.bind tables.digitValue = some digit

theorem endsIn_of_markerNumber {text : QString} {number length : Nat} (small : number < 10)
    (found : tables.markerNumber text = some (number, length)) :
    tables.EndsIn (text.take length) number := by
  have ne_percent : ∀ {character value}, tables.digitValue character = some value →
      0x25 ≠ character := by
    rintro character value digit rfl
    rw [digitValue_percent] at digit
    cases digit
  cases text with
  | nil => cases found
  | cons first rest =>
      rw [markerNumber] at found
      cases digit : tables.digitValue first with
      | none => simp [digit] at found
      | some value =>
          simp only [digit] at found
          cases next : rest.head?.bind tables.digitValue with
          | none =>
              simp only [next, Option.some.injEq, Prod.mk.injEq] at found
              rcases found with ⟨rfl, rfl⟩
              exact ⟨by simpa using ne_percent digit, digit⟩
          | some units =>
              simp only [next, Option.some.injEq, Prod.mk.injEq] at found
              rcases found with ⟨rfl, rfl⟩
              cases rest with
              | nil => cases next
              | cons second rest =>
                  rw [List.head?_cons, Option.bind_some] at next
                  have isUnits : 10 * value + units = units := by omega
                  rw [isUnits]
                  exact ⟨by simp [ne_percent digit, ne_percent next], next⟩

variable {tables} in
theorem EndsIn.last_cons {mark : QString} {digit : Nat} (ends : tables.EndsIn mark digit)
    (first : QChar) : (first :: mark).getLast?.bind tables.digitValue = some digit := by
  have last := ends.last
  cases shape : mark.getLast? with
  | none =>
      rw [shape] at last
      cases last
  | some character =>
      rw [shape] at last
      rw [List.getLast?_cons, shape]
      exact last

variable {tables} in
theorem EndsIn.cons {mark : QString} {digit : Nat} (ends : tables.EndsIn mark digit)
    {first : QChar} (other : 0x25 ≠ first) : tables.EndsIn (first :: mark) digit where
  free := List.not_mem_cons_of_ne_of_not_mem other ends.free
  last := ends.last_cons first

theorem endsIn_of_markerBody {text : QString} {number length : Nat} (small : number < 10)
    (found : tables.markerBody text = some (number, length)) :
    tables.EndsIn (text.take length) number := by
  cases text with
  | nil => cases found
  | cons first rest =>
      rw [markerBody] at found
      split at found
      next isL =>
        rcases Option.map_eq_some_iff.mp found with ⟨⟨value, taken⟩, read, same⟩
        cases same
        rw [List.take_succ_cons, isL]
        exact (tables.endsIn_of_markerNumber small read).cons (by decide)
      next => exact tables.endsIn_of_markerNumber small found

/-- A marker begins with its only percent sign. -/
theorem mark_shape {mark back : QString} {number : Nat} (small : number < 10)
    (marked : tables.marker (mark ++ back) = some (number, mark.length)) :
    ∃ body, mark = 0x25 :: body ∧ tables.EndsIn body number := by
  have positive := (tables.marker_spec marked).positive
  have percent := (tables.marker_spec marked).percent
  cases mark with
  | nil => exact absurd positive (by simp)
  | cons first body =>
      have isPercent : first = 0x25 := Option.some.inj percent
      subst isPercent
      refine ⟨body, rfl, ?_⟩
      rw [List.cons_append, marker, if_pos rfl, Option.map_eq_some_iff] at marked
      rcases marked with ⟨⟨value, taken⟩, found, same⟩
      simp only [Prod.mk.injEq, List.length_cons, Nat.add_right_cancel_iff] at same
      rcases same with ⟨rfl, rfl⟩
      have ends := tables.endsIn_of_markerBody small found
      rw [List.take_left] at ends
      exact ends

/-! ### Markers at the front of a shorter text -/

theorem markerNumber_of_prefix {text shorter : QString} {found : Nat × Nat}
    (begins : shorter <+: text) (isNumber : tables.markerNumber text = some found)
    (inside : found.2 ≤ shorter.length) : tables.markerNumber shorter = some found := by
  cases shorter with
  | nil =>
      have positive := (tables.markerNumber_spec isNumber).1
      exact absurd inside (Nat.not_le_of_lt positive)
  | cons first shorter =>
      rcases begins with ⟨back, rfl⟩
      rw [List.cons_append, markerNumber] at isNumber
      rw [markerNumber]
      cases digit : tables.digitValue first with
      | none => simp [digit] at isNumber
      | some value =>
          simp only [digit] at isNumber ⊢
          cases shorter with
          | cons second shorter => exact isNumber
          | nil =>
              cases next : ([] ++ back).head?.bind tables.digitValue with
              | none =>
                  rw [next] at isNumber
                  exact isNumber
              | some units =>
                  rw [next] at isNumber
                  cases isNumber
                  exact absurd inside (by simp)

theorem marker_of_prefix {text shorter : QString} {found : Nat × Nat} (begins : shorter <+: text)
    (marked : tables.marker text = some found) (inside : found.2 ≤ shorter.length) :
    tables.marker shorter = some found := by
  have positive := (tables.marker_spec marked).positive
  cases shorter with
  | nil => exact absurd inside (by simp only [List.length_nil]; omega)
  | cons first shorter =>
      rcases begins with ⟨back, rfl⟩
      rw [List.cons_append, marker] at marked
      rw [marker]
      split at marked
      next isPercent =>
        rw [if_pos isPercent]
        rcases Option.map_eq_some_iff.mp marked with ⟨⟨value, taken⟩, isBody, rfl⟩
        have bodyInside : taken ≤ shorter.length := Nat.le_of_succ_le_succ inside
        have body : tables.markerBody shorter = some (value, taken) := by
          cases shorter with
          | nil =>
              have taken := (tables.markerBody_spec isBody).1
              exact absurd bodyInside (Nat.not_le_of_lt taken)
          | cons second shorter =>
              rw [List.cons_append, markerBody] at isBody
              rw [markerBody]
              split at isBody
              next isL =>
                rw [if_pos isL]
                rcases Option.map_eq_some_iff.mp isBody with ⟨⟨digits, count⟩, isNumber, same⟩
                cases same
                rw [tables.markerNumber_of_prefix (List.prefix_append shorter back) isNumber
                  (Nat.le_of_succ_le_succ bodyInside)]
                rfl
              next notL =>
                rw [if_neg notL]
                exact tables.markerNumber_of_prefix (List.prefix_append (second :: shorter) back)
                  isBody bodyInside
        rw [body]
        rfl
      next => cases marked

/-- The last marker with a number: behind it there is no other one. -/
theorem exists_last_mark {text : QString} {number : Nat} (member : number ∈ tables.markers text)
    (inserted : QString) :
    ∃ front mark back filled, text = front ++ (mark ++ back) ∧
      tables.marker (mark ++ back) = some (number, mark.length) ∧
      tables.fill number inserted text = filled ++ (inserted ++ back) := by
  induction text using tables.fill_induction number with
  | nil => cases member
  | marked mark back marked ih =>
      rw [tables.fill_mark marked]
      by_cases later : number ∈ tables.markers back
      · rcases ih later with ⟨front, last, rest, filled, shape, isMark, same⟩
        refine ⟨mark ++ front, last, rest, inserted ++ filled, ?_, isMark, ?_⟩
        · rw [List.append_assoc, ← shape]
        · rw [same, List.append_assoc]
      · refine ⟨[], mark, back, [], rfl, marked, ?_⟩
        rw [tables.fill_of_not_mem later]
        rfl
  | unmarked character rest unmarked ih =>
      rcases ih (tables.markers_of_unmarked unmarked member) with
        ⟨front, mark, back, filled, shape, isMark, same⟩
      rw [tables.fill_unmarked unmarked]
      exact ⟨character :: front, mark, back, character :: filled, congrArg (character :: ·) shape,
        isMark, congrArg (character :: ·) same⟩

/-! ## What an insertion weighs -/

/-- An insertion no heavier than a percent sign makes no text heavier. -/
theorem weight_fill_le {weight : QChar → Nat} {inserted : QString}
    (light : (inserted.map weight).sum ≤ weight 0x25) (number : Nat) (text : QString) :
    ((tables.fill number inserted text).map weight).sum ≤ (text.map weight).sum := by
  induction text using tables.fill_induction number with
  | nil => exact Nat.le_refl _
  | marked mark back marked ih =>
      rw [tables.fill_mark marked]
      rcases tables.percent_of_marked marked with ⟨tail, rfl⟩
      simp only [List.map_append, List.sum_append, List.map_cons, List.sum_cons]
      omega
  | unmarked character rest unmarked ih =>
      rw [tables.fill_unmarked unmarked, List.map_cons, List.map_cons, List.sum_cons,
        List.sum_cons]
      exact Nat.add_le_add_left ih _

/-- An insertion lighter than a percent sign makes a text with a place for it lighter. -/
theorem weight_fill_lt {weight : QChar → Nat} {inserted : QString}
    (light : (inserted.map weight).sum < weight 0x25) {number : Nat} {text : QString}
    (member : number ∈ tables.markers text) :
    ((tables.fill number inserted text).map weight).sum < (text.map weight).sum := by
  induction text using tables.fill_induction number with
  | nil => cases member
  | marked mark back marked ih =>
      have bound := tables.weight_fill_le light.le number back
      rw [tables.fill_mark marked]
      rcases tables.percent_of_marked marked with ⟨tail, rfl⟩
      simp only [List.map_append, List.sum_append, List.map_cons, List.sum_cons]
      omega
  | unmarked character rest unmarked ih =>
      rw [tables.fill_unmarked unmarked, List.map_cons, List.map_cons, List.sum_cons,
        List.sum_cons]
      exact Nat.add_lt_add_left (ih (tables.markers_of_unmarked unmarked member)) _

/-- The weight by which the occurrences of a symbol are counted. -/
def tally (symbol character : QChar) : Nat :=
  if character = symbol then 1 else 0

theorem tally_eq_count (symbol : QChar) (text : QString) :
    (text.map (tally symbol)).sum = text.count symbol := by
  induction text with
  | nil => rfl
  | cons first rest ih =>
      rw [List.map_cons, List.sum_cons, ih, List.count_cons, Nat.add_comm, tally]
      simp only [beq_iff_eq]

theorem tally_eq_zero {symbol : QChar} {text : QString} (free : symbol ∉ text) :
    (text.map (tally symbol)).sum = 0 := by
  rw [tally_eq_count]
  exact List.count_eq_zero.mpr free

/-- An insertion adds no symbol that it does not have. -/
theorem count_fill_le {symbol : QChar} {inserted : QString} (free : symbol ∉ inserted)
    (number : Nat) (text : QString) :
    (tables.fill number inserted text).count symbol ≤ text.count symbol := by
  rw [← tally_eq_count, ← tally_eq_count]
  apply tables.weight_fill_le
  rw [tally_eq_zero free]
  exact Nat.zero_le _

theorem mem_fill {number : Nat} {inserted text : QString} {character : QChar}
    (member : character ∈ tables.fill number inserted text) :
    character ∈ inserted ∨ character ∈ text := by
  induction text using tables.fill_induction number with
  | nil => cases member
  | marked mark back marked ih =>
      rw [tables.fill_mark marked, List.mem_append] at member
      rcases member with inInserted | behind
      · exact .inl inInserted
      · rcases ih behind with inInserted | inBack
        · exact .inl inInserted
        · exact .inr (List.mem_append_right mark inBack)
  | unmarked first rest unmarked ih =>
      rw [tables.fill_unmarked unmarked, List.mem_cons] at member
      rcases member with rfl | behind
      · exact .inr List.mem_cons_self
      · rcases ih behind with inInserted | inRest
        · exact .inl inInserted
        · exact .inr (List.mem_cons_of_mem first inRest)

/-! ## A place alone -/

section Place

variable {digit : Nat} (small : digit < 10)
include small

theorem markers_place : tables.markers (place digit) = [digit] := by
  have followed := tables.stops_percent.marker_place small []
  have marked : tables.marker (place digit) = some (digit, 2) :=
    tables.marker_of_prefix (List.prefix_append _ _) followed (Nat.le_refl 2)
  change ((tables.marker (place digit)).map Prod.fst).toList ++
    tables.markers [QString.digitOf digit] = _
  rw [marked, tables.markers_cons_of_ne (digitOf_ne small).1]
  rfl

theorem fill_place_self (inserted : QString) :
    tables.fill digit inserted (place digit) = inserted := by
  have followed := tables.stops_percent.marker_place small []
  have marked : tables.marker (place digit ++ []) = some (digit, 2) := by
    rw [List.append_nil]
    exact tables.marker_of_prefix (List.prefix_append _ _) followed (Nat.le_refl 2)
  have filled := tables.fill_mark marked inserted
  rw [List.append_nil] at filled
  exact filled.trans (List.append_nil inserted)

theorem fill_place_of_ne {number : Nat} (other : number ≠ digit) (inserted : QString) :
    tables.fill number inserted (place digit) = place digit := by
  apply tables.fill_of_not_mem
  rw [tables.markers_place small, List.mem_singleton]
  exact other

end Place

/-! ## Markers that come up -/

/-- The text begins with the digits of a number. -/
def Begins (text : QString) (number : Nat) : Prop :=
  (tables.markerNumber text).map Prod.fst = some number

section Created

variable {number low : Nat} {inserted : QString} (lower : low < number)
  (noL : inserted.head? ≠ some 0x4C) (nonempty : inserted ≠ [])
include lower

theorem begins_of_markerNumber_fill {text : QString}
    (high : ∀ found ∈ tables.markerNumber text, number ≤ found.1)
    (created : tables.Begins (tables.fill number inserted text) low) :
    ∃ rest, tables.fill number inserted text = inserted ++ rest := by
  cases text with
  | nil => cases created
  | cons first rest =>
      by_cases isMarked : ∃ length, tables.marker (first :: rest) = some (number, length)
      · rcases isMarked with ⟨length, isMarked⟩
        exact ⟨_, tables.fill_marked isMarked⟩
      · exfalso
        have unmarked : ∀ found ∈ tables.marker (first :: rest), found.1 ≠ number := by
          rintro ⟨other, length⟩ found rfl
          exact isMarked ⟨length, found⟩
        rw [Begins, tables.fill_unmarked unmarked, markerNumber] at created
        rw [markerNumber] at high
        cases digit : tables.digitValue first with
        | none => simp [digit] at created
        | some value =>
            simp only [digit] at created high
            have atMost : value ≤ low := by
              cases next : (tables.fill number inserted rest).head?.bind tables.digitValue <;>
                · simp only [next, Option.map_some, Option.some.injEq] at created
                  omega
            cases rest with
            | nil =>
                have bound := high (value, 1) rfl
                omega
            | cons second rest =>
                cases next : tables.digitValue second with
                | none =>
                    rw [List.head?_cons, Option.bind_some, next] at high
                    have bound := high (value, 1) rfl
                    omega
                | some units =>
                    have other : second ≠ 0x25 := by
                      rintro rfl
                      rw [digitValue_percent] at next
                      cases next
                    rw [tables.fill_cons_of_ne other] at created
                    rw [List.head?_cons, Option.bind_some, next] at high created
                    have bound := high (10 * value + units, 2) rfl
                    have same : 10 * value + units = low := Option.some.inj created
                    omega

include noL nonempty

theorem begins_of_markerBody_fill {text : QString}
    (high : ∀ found ∈ tables.markerBody text, number ≤ found.1)
    (created : (tables.markerBody (tables.fill number inserted text)).map Prod.fst = some low) :
    ∃ rest, tables.Begins (inserted ++ rest) low := by
  have body_inserted : ∀ rest, tables.markerBody (inserted ++ rest) =
      tables.markerNumber (inserted ++ rest) := by
    intro rest
    cases inserted with
    | nil => exact absurd rfl nonempty
    | cons first inserted => exact if_neg fun isL => noL (congrArg some isL)
  cases text with
  | nil => cases created
  | cons first rest =>
      by_cases isMarked : ∃ length, tables.marker (first :: rest) = some (number, length)
      · rcases isMarked with ⟨length, isMarked⟩
        rw [tables.fill_marked isMarked, body_inserted] at created
        exact ⟨_, created⟩
      · have unmarked : ∀ found ∈ tables.marker (first :: rest), found.1 ≠ number := by
          rintro ⟨other, length⟩ found rfl
          exact isMarked ⟨length, found⟩
        by_cases isL : first = 0x4C
        · rw [tables.fill_unmarked unmarked, markerBody, if_pos isL, Option.map_map] at created
          rw [markerBody, if_pos isL] at high
          have numberHigh : ∀ found ∈ tables.markerNumber rest, number ≤ found.1 := by
            intro found isNumber
            exact high (found.1, found.2 + 1) (Option.map_eq_some_iff.mpr ⟨found, isNumber, rfl⟩)
          have begins : tables.Begins (tables.fill number inserted rest) low := created
          rcases tables.begins_of_markerNumber_fill lower numberHigh begins with ⟨behind, shape⟩
          exact ⟨behind, shape ▸ begins⟩
        · rw [markerBody, if_neg isL] at high
          have begins : tables.Begins (tables.fill number inserted (first :: rest)) low := by
            rw [tables.fill_unmarked unmarked, markerBody, if_neg isL] at created
            rw [Begins, tables.fill_unmarked unmarked]
            exact created
          rcases tables.begins_of_markerNumber_fill lower high begins with ⟨behind, shape⟩
          exact ⟨behind, shape ▸ begins⟩

/-- Where an insertion makes up a marker lower than all that were there, the inserted text
begins with its digits. -/
theorem begins_of_mem_markers_fill (inert : 0x25 ∉ inserted) {text : QString}
    (high : ∀ found ∈ tables.markers text, number ≤ found)
    (created : low ∈ tables.markers (tables.fill number inserted text)) :
    ∃ rest, tables.Begins (inserted ++ rest) low := by
  induction text using tables.fill_induction number with
  | nil => cases created
  | marked mark back marked ih =>
      rw [tables.fill_mark marked, tables.markers_inert inert] at created
      exact ih (fun found member => high found (tables.mem_markers_append member)) created
  | unmarked character rest unmarked ih =>
      rw [tables.fill_unmarked unmarked, markers, List.mem_append] at created
      rcases created with here | later
      · have isMarker : (tables.marker (character ::
            tables.fill number inserted rest)).map Prod.fst = some low :=
          Option.mem_toList.mp here
        by_cases percent : character = 0x25
        · rw [marker, if_pos percent, Option.map_map] at isMarker
          refine tables.begins_of_markerBody_fill lower noL nonempty ?_ isMarker
          intro found isBody
          apply high
          apply tables.mem_markers_of_marker
          rw [marker, if_pos percent, Option.mem_def.mp isBody]
          rfl
        · rw [tables.marker_of_ne percent] at isMarker
          cases isMarker
      · refine ih ?_ later
        intro found member
        apply high
        rw [markers]
        exact List.mem_append_right _ member

end Created

/-! ## Two insertions -/

/-- A text whose last marker is the one with a given number. -/
theorem mem_markers_of_mark {front mark back : QString} {number : Nat}
    (marked : tables.marker (mark ++ back) = some (number, mark.length)) :
    number ∈ tables.markers (front ++ mark) := by
  apply tables.mem_markers_append
  exact tables.mem_markers_of_marker
    (tables.marker_of_prefix (List.prefix_append mark back) marked (Nat.le_refl _))

/-- Among the ends of a text there are few that have a symbol with nothing of it behind. -/
theorem suffix_cases {α : Type} {symbol : α} {name mark second between : List α}
    (markFree : symbol ∉ mark) (secondFree : symbol ∉ second)
    (ends : name <:+ symbol :: second ++ between)
    (ordered : symbol :: mark <:+ between ∨ between <:+ symbol :: mark) :
    symbol :: second ++ between <:+ name ∨ symbol :: mark <:+ name ∨ symbol ∉ name := by
  have free_of_suffix : ∀ {shorter longer : List α}, shorter <:+ longer → symbol ∉ longer →
      symbol ∉ shorter := fun isSuffix free member => free (isSuffix.mem member)
  have of_mark : symbol :: mark <:+ between → name <:+ second ++ between →
      symbol :: mark <:+ name ∨ symbol ∉ name := by
    intro inBetween inside
    rcases List.suffix_or_suffix_of_suffix (inBetween.trans (List.suffix_append second between))
      inside with marked | inMark
    · exact .inl marked
    · rcases List.suffix_cons_iff.mp inMark with same | inBody
      · exact .inl (same ▸ List.suffix_rfl)
      · exact .inr (free_of_suffix inBody markFree)
  rcases List.suffix_cons_iff.mp ends with same | inside
  · exact .inl (same ▸ List.suffix_rfl)
  · right
    rcases ordered with inBetween | inMark
    · exact of_mark inBetween inside
    · rcases List.suffix_cons_iff.mp inMark with same | inBody
      · exact of_mark (same ▸ List.suffix_rfl) inside
      · right
        intro member
        rcases List.mem_append.mp (inside.mem member) with inSecond | inBetween
        · exact secondFree inSecond
        · exact free_of_suffix inBody markFree inBetween

section Refill

variable {name inserted lead text : QString}

/-- The last marker of the second insertion is not behind that of the first one. -/
theorem exists_between {front mark back filled before second behind refilled : QString}
    (ends : second.getLast?.bind tables.digitValue = some 3)
    (noLast : inserted.getLast?.bind tables.digitValue ≠ some 3) (nonempty : inserted ≠ [])
    (isFilled : filled ++ (name ++ back) = before ++ (second ++ behind))
    (isRefilled : lead ++ (front ++ (mark ++ back)) = refilled ++ (inserted ++ behind)) :
    ∃ between, filled ++ name = before ++ (second ++ between) ∧ behind = between ++ back ∧
      lead ++ (front ++ mark) = refilled ++ (inserted ++ between) := by
  simp only [← List.append_assoc] at isFilled isRefilled ⊢
  have cancel : ∀ between, behind = between ++ back →
      lead ++ front ++ mark = refilled ++ inserted ++ between := by
    intro between same
    rw [same, ← List.append_assoc] at isRefilled
    exact List.append_cancel_right isRefilled
  rcases List.append_eq_append_iff.mp isFilled with ⟨between, shape, same⟩ | ⟨between, shape, same⟩
  · cases between with
    | nil => exact ⟨[], by simpa using shape.symm, by simpa using same.symm,
        cancel [] (by simpa using same.symm)⟩
    | cons first rest =>
        exfalso
        rw [same, ← List.append_assoc] at isRefilled
        have lasts := congrArg List.getLast? (List.append_cancel_right isRefilled)
        have others := congrArg List.getLast? shape
        have lastSecond : second ≠ [] := by
          rintro rfl
          cases ends
        rw [List.getLast?_append_of_ne_nil _ (List.cons_ne_nil first rest),
          List.getLast?_append_of_ne_nil _ nonempty] at lasts
        rw [List.getLast?_append_of_ne_nil _ lastSecond,
          List.getLast?_append_of_ne_nil _ (List.cons_ne_nil first rest)] at others
        rw [← lasts, ← others] at noLast
        exact noLast ends
  · exact ⟨between, shape, same, cancel between same⟩

/-- Two insertions give back the text, with another text in front, only if there was nothing
to insert: the second one inserts no percent sign and no other digit three, and neither the
first one nor the text around it has a marker that the second could take for its own. -/
theorem not_mem_markers_of_refill
    (nameHigh : ∀ number ∈ tables.markers name, 3 < number)
    (inert : 0x25 ∉ inserted) (noL : inserted.head? ≠ some 0x4C) (nonempty : inserted ≠ [])
    (noThree : ∀ rest, tables.Begins (inserted ++ rest) 2 →
      inserted.getLast?.bind tables.digitValue ≠ some 3)
    (leadInert : 0x25 ∉ lead)
    (high : ∀ number ∈ tables.markers (tables.fill 2 name text), 3 ≤ number)
    (same : tables.fill 3 inserted (tables.fill 2 name text) = lead ++ text) :
    2 ∉ tables.markers text ∧ 3 ∉ tables.markers text := by
  have light : (inserted.map (tally 0x25)).sum < tally 0x25 0x25 := by
    rw [tally_eq_zero inert]
    decide
  by_cases two : 2 ∈ tables.markers text
  · exfalso
    have named : 0x25 ∈ name := by
      by_contra free
      have nameLight : (name.map (tally 0x25)).sum < tally 0x25 0x25 := by
        rw [tally_eq_zero free]
        decide
      have first := tables.weight_fill_lt nameLight two
      have second := tables.weight_fill_le light.le 3 (tables.fill 2 name text)
      rw [same, List.map_append, List.sum_append, tally_eq_zero leadInert] at second
      omega
    have createdTwo : 2 ∈ tables.markers (tables.fill 3 inserted (tables.fill 2 name text)) := by
      rw [same]
      exact tables.mem_markers_append two
    have three : 3 ∈ tables.markers (tables.fill 2 name text) := by
      by_contra absent
      rw [tables.fill_of_not_mem absent] at createdTwo
      exact absurd (high 2 createdTwo) (by decide)
    rcases tables.begins_of_mem_markers_fill (by decide) noL nonempty inert high createdTwo with
      ⟨digits, begins⟩
    rcases tables.exists_last_mark two name with
      ⟨front, mark, back, filled, shape, marked, isFilled⟩
    rcases tables.exists_last_mark three inserted with
      ⟨before, second, behind, refilled, secondShape, secondMarked, isRefilled⟩
    rcases tables.mark_shape (by decide) marked with ⟨body, rfl, ends⟩
    rcases tables.mark_shape (by decide) secondMarked with ⟨secondBody, rfl, secondEnds⟩
    rw [isFilled] at secondShape
    rw [same, shape] at isRefilled
    rcases tables.exists_between (secondEnds.last_cons 0x25) (noThree digits begins) nonempty
      secondShape isRefilled with ⟨between, isName, rfl, isLead⟩
    have noSecond : ¬0x25 :: secondBody ++ between <:+ name := by
      rintro ⟨rest, rfl⟩
      have begun : 0x25 :: secondBody ++ between <+: 0x25 :: secondBody ++ (between ++ back) :=
        (List.prefix_append_right_inj _).mpr (List.prefix_append between back)
      have isMarker := tables.marker_of_prefix begun secondMarked (by simp)
      have member : 3 ∈ tables.markers (rest ++ (0x25 :: secondBody ++ between)) :=
        tables.mem_markers_append (tables.mem_markers_of_marker isMarker)
      exact absurd (nameHigh 3 member) (by decide)
    have noMark : ¬0x25 :: body <:+ name := by
      rintro ⟨rest, rfl⟩
      exact absurd (nameHigh 2 (tables.mem_markers_of_mark marked)) (by decide)
    have nameInside : name <:+ 0x25 :: secondBody ++ between := by
      have both : name <:+ filled ++ name := List.suffix_append filled name
      rcases List.suffix_or_suffix_of_suffix both ⟨before, isName.symm⟩ with inside | longer
      · exact inside
      · exact absurd longer noSecond
    have ordered : 0x25 :: body <:+ between ∨ between <:+ 0x25 :: body := by
      have marks : 0x25 :: body <:+ lead ++ (front ++ 0x25 :: body) :=
        (List.suffix_append front _).trans (List.suffix_append lead _)
      have betweens : between <:+ lead ++ (front ++ 0x25 :: body) := by
        rw [isLead]
        exact (List.suffix_append inserted between).trans (List.suffix_append refilled _)
      exact List.suffix_or_suffix_of_suffix marks betweens
    rcases suffix_cases ends.free secondEnds.free nameInside ordered with long | long | free
    · exact noSecond long
    · exact noMark long
    · exact free named
  · refine ⟨two, fun three => ?_⟩
    rw [tables.fill_of_not_mem two] at same
    have lighter := tables.weight_fill_lt light three
    rw [same, List.map_append, List.sum_append, tally_eq_zero leadInert] at lighter
    omega

end Refill

end CharacterTables

end Hooq

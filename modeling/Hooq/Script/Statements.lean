import Mathlib.Tactic.SplitIfs
import Hooq.Qt.Refills
import Hooq.Script.Literals
import Hooq.Script.Parse
import Hooq.Script.Recording
import Hooq.Script.Serialize

/-!
# Paths in statements

A statement for the object at a path is put together by place markers, and the path is
not escaped.  This module says which paths come out of the statement as they went in.
-/

namespace Hooq

open Library.StringLiteral

/-! ## Up to the first quote -/

/-- The text up to the first quote. -/
def front (text : QString) : QString :=
  text.takeWhile fun character => character ≠ quote

theorem quote_not_mem_front (text : QString) : quote ∉ front text := by
  intro member
  have free := List.all_eq_true.mp List.all_takeWhile quote member
  simp at free

theorem front_append_of_not_mem {text : QString} (free : quote ∉ text) (rest : QString) :
    front (text ++ rest) = text ++ front rest := by
  apply List.takeWhile_append_of_pos
  intro character member
  simp only [ne_eq, decide_eq_true_eq]
  rintro rfl
  exact free member

theorem front_of_not_mem {text : QString} (free : quote ∉ text) : front text = text := by
  have whole := front_append_of_not_mem free []
  rw [List.append_nil] at whole
  exact whole.trans (List.append_nil _)

theorem front_append_of_mem {text : QString} (quoted : quote ∈ text) (rest : QString) :
    front (text ++ rest) = front text := by
  induction text with
  | nil => cases quoted
  | cons character text ih =>
      rw [List.cons_append, front, front, List.takeWhile_cons, List.takeWhile_cons]
      split
      next other =>
        congr 1
        apply ih
        rcases List.mem_cons.mp quoted with isQuote | later
        · rw [isQuote] at other
          simp at other
        · exact later
      next => rfl

/-- A text with a quote behind it, cut at its first quote. -/
theorem exists_front (text rest : QString) :
    ∃ back, text ++ quote :: rest = front text ++ quote :: back := by
  induction text with
  | nil => exact ⟨rest, rfl⟩
  | cons character text ih =>
      rw [front, List.takeWhile_cons]
      by_cases isQuote : character = quote
      · rw [if_neg (by simpa using isQuote), isQuote]
        exact ⟨text ++ quote :: rest, rfl⟩
      · rcases ih with ⟨back, shape⟩
        rw [if_pos (by simpa using isQuote)]
        exact ⟨back, congrArg (character :: ·) shape⟩

/-! ## What an insertion does to a path -/

/-- Neither a percent sign nor a backslash stands before the first quote. -/
def Tame (text : QString) : Prop :=
  ∀ character ∈ front text, character ≠ 0x25 ∧ character ≠ backslash

theorem Tame.counts {text : QString} (tame : Tame text) :
    (front text).count 0x25 = 0 ∧ (front text).count backslash = 0 := by
  constructor
  · exact List.count_eq_zero.mpr fun member => (tame _ member).1 rfl
  · exact List.count_eq_zero.mpr fun member => (tame _ member).2 rfl

section Fill

variable (tables : CharacterTables) {inserted : QString} (tame : Tame inserted) (number : Nat)
include tame

/-- Before the first quote an insertion adds no percent sign and no backslash. -/
theorem count_front_fill (text : QString) (symbol : QChar)
    (special : symbol = 0x25 ∨ symbol = backslash) :
    (front (tables.fill number inserted text)).count symbol ≤ (front text).count symbol := by
  have clean : (front inserted).count symbol = 0 := by
    rcases special with rfl | rfl
    · exact tame.counts.1
    · exact tame.counts.2
  induction text using tables.fill_induction number with
  | nil => exact Nat.le_refl _
  | marked mark back marked ih =>
      rw [tables.fill_mark marked]
      by_cases quoted : quote ∈ inserted
      · rw [front_append_of_mem quoted, clean]
        exact Nat.zero_le _
      · have unquoted := (tables.marker_spec marked).unquoted
        rw [List.take_left] at unquoted
        rw [front_of_not_mem quoted] at clean
        rw [front_append_of_not_mem quoted, front_append_of_not_mem unquoted, List.count_append,
          List.count_append, clean]
        omega
  | unmarked character rest unmarked ih =>
      rw [tables.fill_unmarked unmarked, front, front, List.takeWhile_cons, List.takeWhile_cons]
      split
      · rw [List.count_cons, List.count_cons]
        exact Nat.add_le_add_right ih _
      · exact Nat.le_refl _

/-- An insertion removes a percent sign. -/
theorem count_front_fill_lt {text : QString} (free : quote ∉ text)
    (member : number ∈ tables.markers text) :
    (front (tables.fill number inserted text)).count 0x25 < text.count 0x25 := by
  induction text using tables.fill_induction number with
  | nil => cases member
  | marked mark back marked ih =>
      have removed : 0 < mark.count 0x25 := by
        rcases tables.percent_of_marked marked with ⟨tail, rfl⟩
        exact List.count_pos_iff.mpr List.mem_cons_self
      have later := count_front_fill tables tame number back 0x25 (.inl rfl)
      have before : (front back).count 0x25 ≤ back.count 0x25 :=
        (List.takeWhile_sublist _).count_le _
      have clean := tame.counts.1
      rw [tables.fill_mark marked, List.count_append]
      by_cases quoted : quote ∈ inserted
      · rw [front_append_of_mem quoted, clean]
        exact Nat.add_pos_left removed _
      · rw [front_of_not_mem quoted] at clean
        rw [front_append_of_not_mem quoted, List.count_append, clean]
        omega
  | unmarked character rest unmarked ih =>
      have restFree := List.not_mem_of_not_mem_cons free
      have other : character ≠ quote := Ne.symm (List.ne_of_not_mem_cons free)
      have later := tables.markers_of_unmarked unmarked member
      rw [tables.fill_unmarked unmarked, front, List.takeWhile_cons,
        if_pos (by simpa using other), List.count_cons, List.count_cons]
      exact Nat.add_lt_add_right (ih restFree later) _

end Fill

/-! ## The chain of insertions -/

namespace CharacterTables

variable (tables : CharacterTables)

theorem stops_quote : tables.Stops quote :=
  tables.stops_ascii (by decide) (by decide) (by decide)

theorem stops_open : tables.Stops 40 :=
  tables.stops_ascii (by decide) (by decide) (by decide)

theorem stops_close : tables.Stops 41 :=
  tables.stops_ascii (by decide) (by decide) (by decide)

/-- What stands in front of a path. -/
def opening : QString := "objectFromPath(\""

/-- What stands behind a path, with the places for the method and the parameters. -/
def slots (method parameters : QString) : QString :=
  [41, 46] ++ (method ++ 40 :: (parameters ++ [41]))

theorem opening_inert : (0x25 : QChar) ∉ opening := by
  decide

theorem template_eq : QString.ofString "objectFromPath(\"%1\").%2(%3)" =
    opening ++ (place 1 ++ quote :: slots (place 2) (place 3)) := by
  decide

theorem markers_slots (method : QString) :
    tables.markers (slots method (place 3)) = tables.markers method ++ [3] := by
  rw [slots, tables.markers_inert (by decide), tables.stops_open.markers,
    tables.markers_cons_of_ne (by decide), tables.stops_close.markers_place (by decide)]
  rfl

theorem fill_slots_two (inserted : QString) :
    tables.fill 2 inserted (slots (place 2) (place 3)) = slots inserted (place 3) := by
  rw [slots, tables.fill_inert (by decide), tables.stops_open.fill_place_self (by decide),
    tables.fill_cons_of_ne (by decide), tables.stops_close.fill_place_of_ne (by decide) (by decide),
    tables.fill_cons_of_ne (by decide)]
  rfl

theorem fill_slots_three {method : QString} (absent : 3 ∉ tables.markers method)
    (inserted : QString) :
    tables.fill 3 inserted (slots method (place 3)) = slots method inserted := by
  rw [slots, tables.fill_inert (by decide), tables.stops_open.fill,
    tables.fill_of_not_mem absent, tables.fill_cons_of_ne (by decide),
    tables.stops_close.fill_place_self (by decide), tables.fill_cons_of_ne (by decide)]
  rfl

theorem markers_opening (path back : QString) :
    tables.markers (opening ++ (path ++ quote :: back)) =
      tables.markers path ++ tables.markers back := by
  rw [tables.markers_inert opening_inert, tables.stops_quote.markers,
    tables.markers_cons_of_ne (by decide)]

theorem fill_opening (number : Nat) (inserted path back : QString) :
    tables.fill number inserted (opening ++ (path ++ quote :: back)) =
      opening ++ (tables.fill number inserted path ++
        quote :: tables.fill number inserted back) := by
  rw [tables.fill_inert opening_inert, tables.stops_quote.fill, tables.fill_cons_of_ne (by decide)]

/-- A call of `arg` replaces the markers with one number, the lowest if there is any. -/
theorem arg_cases (text inserted : QString) :
    ∃ number, tables.arg text inserted = tables.fill number inserted text ∧
      ∀ other ∈ tables.markers text, number ∈ tables.markers text ∧ number ≤ other := by
  cases found : tables.markers text with
  | nil =>
      refine ⟨0, ?_, fun other member => nomatch member⟩
      rw [tables.fill_of_not_mem (by rw [found]; exact List.not_mem_nil), arg, found]
      rfl
  | cons first rest =>
      have isFirst : first ∈ tables.markers text := by
        rw [found]
        exact List.mem_cons_self
      rcases tables.exists_lowest isFirst with ⟨lowest, member, least⟩
      refine ⟨lowest, tables.arg_eq_fill member least inserted, ?_⟩
      rw [← found]
      exact fun other isOther => ⟨member, least other isOther⟩

theorem arg_template (path : QString) :
    tables.arg (QString.ofString "objectFromPath(\"%1\").%2(%3)") path =
      opening ++ (path ++ quote :: slots (place 2) (place 3)) := by
  have numbers : tables.markers (QString.ofString "objectFromPath(\"%1\").%2(%3)") = [1, 2, 3] := by
    rw [template_eq, tables.markers_inert opening_inert,
      tables.stops_quote.markers_place (by decide), tables.markers_cons_of_ne (by decide),
      markers_slots, tables.markers_place (by decide)]
    rfl
  have unfilled : tables.fill 1 path (slots (place 2) (place 3)) = slots (place 2) (place 3) := by
    apply tables.fill_of_not_mem
    rw [markers_slots, tables.markers_place (by decide)]
    decide
  have lowest : tables.arg (QString.ofString "objectFromPath(\"%1\").%2(%3)") path =
      tables.fill 1 path (QString.ofString "objectFromPath(\"%1\").%2(%3)") := by
    apply tables.arg_eq_fill
    · rw [numbers]
      decide
    · rw [numbers]
      decide
  rw [lowest, template_eq, tables.fill_inert opening_inert,
    tables.stops_quote.fill_place_self (by decide), tables.fill_cons_of_ne (by decide), unfilled]

/-- The three insertions of a statement for the object at a path. -/
def insertions (path method parameters : QString) : QString :=
  tables.arg (tables.arg (tables.arg "objectFromPath(\"%1\").%2(%3)" path) method) parameters

/-- Markers with higher numbers than those of the template are left alone. -/
theorem insertions_of_high {path method : QString}
    (pathHigh : ∀ number ∈ tables.markers path, 3 < number)
    (methodHigh : ∀ number ∈ tables.markers method, 3 < number) (parameters : QString) :
    tables.insertions path method parameters =
      opening ++ (path ++ quote :: slots method parameters) := by
  have first : tables.markers (opening ++ (path ++ quote :: slots (place 2) (place 3))) =
      tables.markers path ++ [2, 3] := by
    rw [markers_opening, markers_slots, tables.markers_place (by decide)]
    rfl
  have second : tables.markers (opening ++ (path ++ quote :: slots method (place 3))) =
      tables.markers path ++ (tables.markers method ++ [3]) := by
    rw [markers_opening, markers_slots]
  have noTwo : 2 ∉ tables.markers path := fun member => absurd (pathHigh 2 member) (by decide)
  have noThree : 3 ∉ tables.markers path := fun member => absurd (pathHigh 3 member) (by decide)
  have bare : 3 ∉ tables.markers method := fun member => absurd (methodHigh 3 member) (by decide)
  have fillsTwo : tables.arg (opening ++ (path ++ quote :: slots (place 2) (place 3))) method =
      opening ++ (path ++ quote :: slots method (place 3)) := by
    rw [tables.arg_eq_fill (show 2 ∈ _ by rw [first]; simp), fill_opening,
      tables.fill_of_not_mem noTwo, fill_slots_two]
    rw [first]
    intro other member
    rcases List.mem_append.mp member with inPath | behind
    · have high := pathHigh other inPath
      omega
    · simp only [List.mem_cons, List.not_mem_nil, or_false] at behind
      omega
  have fillsThree : tables.arg (opening ++ (path ++ quote :: slots method (place 3))) parameters =
      opening ++ (path ++ quote :: slots method parameters) := by
    rw [tables.arg_eq_fill (show 3 ∈ _ by rw [second]; simp), fill_opening,
      tables.fill_of_not_mem noThree, tables.fill_slots_three bare]
    rw [second]
    intro other member
    rcases List.mem_append.mp member with inPath | behind
    · exact (pathHigh other inPath).le
    · rcases List.mem_append.mp behind with inMethod | isThree
      · exact (methodHigh other inMethod).le
      · rw [List.mem_singleton.mp isThree]
  rw [insertions, arg_template, fillsTwo, fillsThree]

theorem three_mem_fill_slots {number : Nat} (low : number ≤ 2) {method : QString} :
    3 ∈ tables.markers (tables.fill number method (slots (place 2) (place 3))) := by
  by_cases isTwo : number = 2
  · rw [isTwo, fill_slots_two, markers_slots]
    exact List.mem_append_right _ List.mem_cons_self
  · rw [tables.fill_of_not_mem, markers_slots]
    · exact List.mem_append_right _ List.mem_cons_self
    · rw [markers_slots, tables.markers_place (by decide)]
      intro member
      simp only [List.cons_append, List.nil_append, List.mem_cons, List.not_mem_nil,
        or_false] at member
      omega

/-- Whatever the markers in a path are, it goes through the insertions of the method and of
the parameters, and one of them fills a marker that the template might have. -/
theorem insertions_eq {method : QString} (noMarker : 0x25 ∉ method) (path parameters : QString) :
    ∃ first second back,
      tables.insertions path method parameters =
        opening ++ (tables.fill second parameters (tables.fill first method path) ++
          quote :: back) ∧
      first ≤ 3 ∧ second ≤ 3 ∧
      ∀ number ∈ tables.markers path, number ≤ 3 →
        first ∈ tables.markers path ∨
          first ∉ tables.markers path ∧ second ∈ tables.markers path := by
  rcases tables.arg_cases (opening ++ (path ++ quote :: slots (place 2) (place 3))) method with
    ⟨first, filled, lowest⟩
  have numbers : tables.markers (opening ++ (path ++ quote :: slots (place 2) (place 3))) =
      tables.markers path ++ [2, 3] := by
    rw [markers_opening, markers_slots, tables.markers_place (by decide)]
    rfl
  rw [numbers] at lowest
  rw [fill_opening] at filled
  have low : first ≤ 2 := (lowest 2 (List.mem_append_right _ List.mem_cons_self)).2
  rcases tables.arg_cases (opening ++ (tables.fill first method path ++
    quote :: tables.fill first method (slots (place 2) (place 3)))) parameters with
    ⟨second, refilled, least⟩
  refine ⟨first, second, tables.fill second parameters
    (tables.fill first method (slots (place 2) (place 3))), ?_, low.trans (by decide), ?_, ?_⟩
  · rw [insertions, arg_template, filled, refilled, fill_opening]
  · rw [markers_opening] at least
    exact (least 3 (List.mem_append_right _ (tables.three_mem_fill_slots low))).2
  · intro number member low
    by_cases inPath : first ∈ tables.markers path
    · exact .inl inPath
    · right
      refine ⟨inPath, ?_⟩
      have isTwo : first = 2 := by
        rcases lowest 2 (List.mem_append_right _ List.mem_cons_self) with ⟨found, bound⟩
        rcases List.mem_append.mp found with here | here
        · exact absurd here inPath
        · simp only [List.mem_cons, List.not_mem_nil, or_false] at here
          omega
      subst isTwo
      have noneInMethod : tables.markers method = [] := by
        have whole := tables.markers_inert noMarker []
        rw [List.append_nil] at whole
        exact whole
      have isThree : number = 3 := by
        have bound := (lowest number (List.mem_append_left _ member)).2
        have different : number ≠ 2 := by
          rintro rfl
          exact inPath member
        omega
      subst isThree
      rw [fill_slots_two, tables.fill_of_not_mem inPath, markers_opening, markers_slots,
        noneInMethod, List.nil_append] at least
      rcases List.mem_append.mp (least 3 (List.mem_append_left _ member)).1 with here | here
      · exact here
      · rw [List.mem_singleton.mp here]
        exact member

/-! ## Paths that are read back -/

/-- A character that a literal can hold without an escape. -/
def isVerbatim (character : QChar) : Bool :=
  isPlain character && !tables.isFormat character

theorem keeps_of_isVerbatim {character : QChar}
    (verbatim : tables.isVerbatim character = true) : tables.keeps character = true := by
  rw [isVerbatim, Bool.and_eq_true] at verbatim
  have plain := verbatim.1
  simp only [isPlain, isLineTerminator, Bool.and_eq_true, Bool.not_eq_true',
    Bool.or_eq_false_iff, decide_eq_false_iff_not] at plain
  rw [keeps, verbatim.2]
  simp [plain]

theorem isLiteral_of_isVerbatim {path : QString}
    (verbatim : ∀ character ∈ path, tables.isVerbatim character = true) :
    tables.IsLiteral (quote :: (path ++ [quote])) path := by
  have parts : ∀ character ∈ path,
      isPlain character = true ∧ tables.isFormat character = false := by
    intro character member
    have kept := verbatim character member
    rw [isVerbatim, Bool.and_eq_true, Bool.not_eq_true'] at kept
    exact kept
  have whole : tables.sourceText path = path := by
    apply List.filter_eq_self.mpr
    intro character member
    rw [(parts character member).2]
    rfl
  have source : tables.sourceText (quote :: (path ++ [quote])) = quote :: (path ++ [quote]) := by
    rw [tables.sourceText_cons (by decide), tables.sourceText_append, whole,
      tables.sourceText_cons (by decide)]
    rfl
  rw [IsLiteral, source]
  exact ⟨_, rfl, characters_of_isPlain (fun character member => (parts character member).1) []⟩

theorem count_sourceText (text : QString) {symbol : QChar} (ascii : symbol < 0x80) :
    (tables.sourceText text).count symbol = text.count symbol := by
  apply List.count_filter
  rw [tables.isFormat_ascii ascii]
  rfl

/-- A path that comes out of the insertions as it went in had nothing to insert into and
nothing to escape. -/
theorem of_read {method parameters path behind back : QString} {first second : Nat}
    (methodTame : Tame method) (parametersTame : Tame parameters)
    (firstLow : first ≤ 3) (secondLow : second ≤ 3)
    (filled : ∀ number ∈ tables.markers path, number ≤ 3 → first ∈ tables.markers path ∨
      first ∉ tables.markers path ∧ second ∈ tables.markers path)
    (read : characters (tables.sourceText
      (tables.fill second parameters (tables.fill first method path) ++ quote :: back)) =
        some (path, behind)) :
    (∀ character ∈ path, tables.isVerbatim character = true) ∧
      ∀ number ∈ tables.markers path, 3 < number := by
  generalize shown : tables.fill second parameters (tables.fill first method path) = image at read
  have backslashes : (front image).count backslash ≤ (front path).count backslash := by
    rw [← shown]
    exact (count_front_fill tables parametersTame second _ backslash (.inr rfl)).trans
      (count_front_fill tables methodTame first path backslash (.inr rfl))
  have percents : quote ∉ path → (∃ number ∈ tables.markers path, number ≤ 3) →
      (front image).count 0x25 < path.count 0x25 := by
    rintro free ⟨number, member, low⟩
    rw [← shown]
    rcases filled number member low with inPath | ⟨notFirst, inPath⟩
    · exact (count_front_fill tables parametersTame second _ 0x25 (.inl rfl)).trans_lt
        (count_front_fill_lt tables methodTame first free inPath)
    · rw [tables.fill_of_not_mem notFirst]
      exact count_front_fill_lt tables parametersTame second free inPath
  rcases exists_front image back with ⟨rest, shape⟩
  have free : quote ∉ tables.sourceText (front image) := fun member =>
    quote_not_mem_front image (List.mem_of_mem_filter member)
  have pathFront : (front path).count backslash ≤ path.count backslash :=
    (List.takeWhile_sublist _).count_le _
  rw [shape, tables.sourceText_append, tables.sourceText_cons (by decide)] at read
  rcases closed_or_escaped free read with ⟨_, closed⟩ | escaped
  · have same : (tables.sourceText (front image)).count backslash =
        (front image).count backslash := tables.count_sourceText _ (by decide)
    rcases closed.counts with fewer | ⟨pathFree, counts⟩
    · omega
    · have high : ∀ number ∈ tables.markers path, 3 < number := by
        by_contra low
        push Not at low
        have fewer := percents pathFree low
        have bound := counts 0x25
        rw [tables.count_sourceText _ (by decide)] at bound
        omega
      have unfilled : image = path := by
        have notFirst : first ∉ tables.markers path := fun member =>
          absurd (high first member) (Nat.not_lt_of_le firstLow)
        have notSecond : second ∉ tables.markers path := fun member =>
          absurd (high second member) (Nat.not_lt_of_le secondLow)
        rw [← shown, tables.fill_of_not_mem notFirst, tables.fill_of_not_mem notSecond]
      rw [unfilled, front_of_not_mem pathFree] at closed
      have sublist : (tables.sourceText path).Sublist path := List.filter_sublist
      have whole : tables.sourceText path = path := sublist.eq_of_length_le closed.length
      rw [whole] at closed
      refine ⟨?_, high⟩
      intro character member
      have visible := List.filter_eq_self.mp whole character member
      rw [isVerbatim, (closed.escapeFree rfl).2 character member, visible]
      rfl
  · rcases escaped with ⟨before, decoded, isBefore, ⟨after, isPath⟩, counts⟩
    have inDecoded : (front path).count backslash ≤ decoded.count backslash := by
      rw [← isPath, List.append_assoc]
      by_cases quoted : quote ∈ decoded
      · rw [front_append_of_mem quoted]
        exact (List.takeWhile_sublist _).count_le _
      · rw [front_append_of_not_mem quoted]
        exact (List.append_nil decoded).symm ▸ Nat.le_refl _
    have more : (front image).count backslash = before.count backslash + 1 := by
      rw [← tables.count_sourceText (front image) (show backslash < 0x80 by decide), isBefore,
        List.count_append, List.count_singleton_self]
    omega

end CharacterTables

/-! ## Statements -/

namespace XmlToQtScript

section

variable (tables : CharacterTables) (keyName : Int32 → Option QString) (isStatement : Bool)

/-- The statement calls the method on the object at the path: what stands for the path is
one string literal with the path as its value, and the other texts are there as they are. -/
def CallsPath (statement path method parameters suffix : QString) : Prop :=
  ∃ literal, statement =
      QString.ofString "objectFromPath(" ++
        (literal ++ (CharacterTables.slots method parameters ++ suffix)) ∧
    tables.IsLiteral literal path

/-- Nothing in the path has to be escaped, and neither the path nor the method has a place
marker that the template might have. -/
structure IsCopied (path method : QString) : Prop where
  verbatim : ∀ character ∈ path, tables.isVerbatim character = true
  path_high : ∀ number ∈ tables.markers path, 3 < number
  method_high : ∀ number ∈ tables.markers method, 3 < number

/-- A method and a text of parameters as the compiler makes them. -/
structure IsOrdinary (method parameters : QString) : Prop where
  noPercent : 0x25 ∉ method
  noBackslash : backslash ∉ method
  tame : Tame parameters

theorem IsOrdinary.methodTame {method parameters : QString}
    (ordinary : IsOrdinary method parameters) : Tame method := by
  intro character member
  have inMethod := (List.takeWhile_sublist _).mem member
  constructor
  · rintro rfl
    exact ordinary.noPercent inMethod
  · rintro rfl
    exact ordinary.noBackslash inMethod

/-- The text behind the statement of an item. -/
def suffix : QString :=
  if isStatement then ";" else []

theorem serializeItem_path {item : Item} {path : QString} (target : item.target = .path path)
    {text : QString} (serialized : serializeItem tables keyName isStatement item = some text) :
    text = tables.insertions path item.method (parametersString tables keyName item.parameters) ++
      suffix isStatement := by
  rw [serializeItem, statement.eq_def, target] at serialized
  split at serialized
  · cases serialized
  · cases serialized
    rfl

theorem callsPath_of_isCopied {path method : QString} (copied : IsCopied tables path method)
    (parameters suffix : QString) :
    CallsPath tables (tables.insertions path method parameters ++ suffix) path method parameters
      suffix := by
  refine ⟨quote :: (path ++ [quote]), ?_, tables.isLiteral_of_isVerbatim copied.verbatim⟩
  rw [tables.insertions_of_high copied.path_high copied.method_high]
  have opened : CharacterTables.opening = QString.ofString "objectFromPath(" ++ [quote] := by
    decide
  rw [opened]
  simp only [List.append_assoc, List.cons_append, List.nil_append]

theorem isCopied_of_callsPath {path method parameters suffix : QString}
    (ordinary : IsOrdinary method parameters)
    (calls : CallsPath tables (tables.insertions path method parameters ++ suffix) path method
      parameters suffix) : IsCopied tables path method := by
  rcases calls with ⟨literal, shape, body, isSource, read⟩
  rcases tables.insertions_eq ordinary.noPercent path parameters with
    ⟨first, second, back, inserted, firstLow, secondLow, filled⟩
  have opened : CharacterTables.opening = QString.ofString "objectFromPath(" ++ [quote] := by
    decide
  rw [inserted, opened] at shape
  simp only [List.append_assoc, List.cons_append, List.nil_append] at shape
  have behind := List.append_cancel_left shape
  have sources := congrArg tables.sourceText behind
  rw [tables.sourceText_cons (by decide), tables.sourceText_append literal, isSource,
    List.cons_append, List.cons.injEq] at sources
  have whole := characters_append read
    (tables.sourceText (CharacterTables.slots method parameters ++ suffix))
  rw [← sources.2] at whole
  rcases tables.of_read ordinary.methodTame ordinary.tame firstLow secondLow filled whole with
    ⟨verbatim, high⟩
  refine ⟨verbatim, high, ?_⟩
  have none := tables.markers_inert ordinary.noPercent []
  rw [List.append_nil] at none
  rw [none]
  exact fun number member => nomatch member

/-- A path that needs no escapes and has no low place markers comes out as it is, also in
the declaration of a variable for it.  For the methods and parameters that the compiler makes
no other path does. -/
theorem callsPath_iff {item : Item} {path : QString} (target : item.target = .path path)
    {text : QString} (serialized : serializeItem tables keyName isStatement item = some text) :
    let parameters := parametersString tables keyName item.parameters
    let calls := CallsPath tables text path item.method parameters (suffix isStatement)
    (IsCopied tables path item.method → calls ∧ tables.IsLiteral (literal path) path) ∧
      (IsOrdinary item.method parameters → calls → IsCopied tables path item.method) := by
  intro parameters calls
  have shape := serializeItem_path tables keyName isStatement target serialized
  constructor
  · intro copied
    constructor
    · change CallsPath _ text _ _ _ _
      rw [shape]
      exact callsPath_of_isCopied tables copied _ _
    · exact isLiteral_literal tables fun character member =>
        tables.keeps_of_isVerbatim (copied.verbatim character member)
  · intro ordinary called
    change CallsPath _ text _ _ _ _ at called
    rw [shape] at called
    exact isCopied_of_callsPath tables ordinary called

/-! ## Methods and parameters -/

theorem tame_of_quote {text : QString} (rest : QString) (shape : text = quote :: rest) :
    Tame text := by
  subst shape
  intro character member
  cases member

theorem arg_quote (rest inserted : QString) :
    ∃ more, tables.arg (quote :: rest) inserted = quote :: more := by
  rcases tables.arg_cases (quote :: rest) inserted with ⟨number, filled, _⟩
  exact ⟨_, filled.trans (tables.fill_cons_of_ne (by decide) number inserted rest)⟩

/-- A map is printed as a brace and a quote, or as two braces. -/
theorem tame_map (map : QVariantMap) : Tame (parametersString tables keyName (.map map)) := by
  rw [parametersString]
  cases map with
  | empty =>
      intro character member
      have inside : character ∈ [123, 125] := (List.takeWhile_sublist _).mem member
      simp only [List.mem_cons, List.not_mem_nil, or_false] at inside
      rcases inside with rfl | rfl <;> decide
  | entry key value rest =>
      rcases arg_quote tables _ (escapeString key) with ⟨keyed, first⟩
      rcases arg_quote tables keyed (parametersString tables keyName value) with ⟨more, second⟩
      have joined : ∃ behind, Library.Separator.join (QString.ofString ", ")
          (entryStrings tables keyName (.entry key value rest)) = quote :: behind := by
        have template : QString.ofString "\"%1\": %2" =
            quote :: QString.ofString "%1\": %2" := by decide
        rw [entryStrings, template, first, second]
        cases entryStrings tables keyName rest with
        | nil => exact ⟨more, rfl⟩
        | cons next others => exact ⟨_, rfl⟩
      rcases joined with ⟨behind, shape⟩
      rw [shape]
      intro character member
      rcases List.mem_cons.mp member with isBrace | inside
      · rw [isBrace]
        decide
      · cases inside

theorem tame_number (value : Int) : Tame (QString.number value) := by
  have digits : ∀ digit < 10, QString.digitOf digit ≠ 0x25 ∧ QString.digitOf digit ≠ backslash := by
    decide
  have inDigits : ∀ character ∈ (Library.Decimal.digits value.natAbs).map QString.digitOf,
      character ≠ 0x25 ∧ character ≠ backslash := by
    intro character member
    rcases List.mem_map.mp member with ⟨digit, isDigit, rfl⟩
    exact digits digit (Library.Decimal.digits_lt_ten isDigit)
  intro character member
  have inside := (List.takeWhile_sublist _).mem member
  rw [QString.number] at inside
  split at inside
  · rcases List.mem_cons.mp inside with isMinus | inside
    · rw [isMinus]
      decide
    · exact inDigits character inside
  · exact inDigits character inside

/-- What the parse functions leave as the parameters of an item, and the text that typing is
merged into. -/
def isRecorded : QVariant → Bool
  | .invalid => true
  | .int _ => true
  | .string _ => true
  | .map _ => true
  | _ => false

theorem tame_parametersString {parameters : QVariant} (recorded : isRecorded parameters = true) :
    Tame (parametersString tables keyName parameters) := by
  cases parameters with
  | invalid =>
      intro character member
      cases member
  | int value => exact tame_number value.toInt
  | string value => exact tame_of_quote _ rfl
  | map value => exact tame_map tables keyName value
  | _ => cases recorded

theorem isOrdinary_of_isScripted {item : Item} (scripted : item.IsScripted)
    (recorded : isRecorded item.parameters = true) :
    IsOrdinary item.method (parametersString tables keyName item.parameters) := by
  have plain : ∀ method ∈ frameMethods ++ passingMethods,
      (0x25 : QChar) ∉ method ∧ backslash ∉ method := by decide
  rcases plain item.method scripted with ⟨noPercent, noBackslash⟩
  exact ⟨noPercent, noBackslash, tame_parametersString tables keyName recorded⟩

def IsWord (text : QString) : Prop :=
  (0x25 : QChar) ∉ text ∧ backslash ∉ text

instance (text : QString) : Decidable (IsWord text) :=
  inferInstanceAs (Decidable (_ ∧ _))

theorem IsWord.ite {condition : Prop} [Decidable condition] {first second : QString}
    (isFirst : IsWord first) (isSecond : IsWord second) :
    IsWord (if condition then first else second) := by
  split
  · exact isFirst
  · exact isSecond

/-- What the compiler reads from a file is ordinary. -/
theorem isOrdinary_parse {element : Element} {item : Item}
    (parsed : parseElement element = some item) :
    IsOrdinary item.method (parametersString tables keyName item.parameters) := by
  have parses := parses_of_parseElement parsed
  have recorded : isRecorded item.parameters = true := by cases parses <;> rfl
  have plain : IsWord item.method := by
    cases parses with
    | msec => exact (by decide : IsWord "msleep")
    | windowClosed => exact (by decide : IsWord "close")
    | focusChanged => exact (by decide : IsWord "setFocus")
    | key => exact .ite (by decide) (.ite (by decide) (by decide))
    | mouse =>
        exact .ite (by decide) (.ite (by decide) (.ite (by decide) (.ite (by decide) (by decide))))
    | mouseWheel => exact (by decide : IsWord "mouseWheel")
    | shortcut => exact (by decide : IsWord "shortcut")
    | contextMenu => exact (by decide : IsWord "contextMenu")
    | dragAndDrop => exact (by decide : IsWord "drop")
  exact ⟨plain.1, plain.2, tame_parametersString tables keyName recorded⟩

end

/-! ## A path with a quote -/

def closeItem (path : QString) : Item :=
  ⟨.path path, [], "close", .invalid⟩

theorem window_callsPath :
    CallsPath separatorTables "objectFromPath(\"window\").close();" "window" "close" [] ";" :=
  have target : (closeItem "window").target = .path "window" := rfl
  have serialized : serializeItem separatorTables (fun _ => none) true (closeItem "window") =
      some "objectFromPath(\"window\").close();" := by decide
  have copied : IsCopied separatorTables "window" "close" :=
    ⟨List.all_eq_true.mp (by decide), by decide, by decide⟩
  ((callsPath_iff separatorTables (fun _ => none) true target serialized).1 copied).1

/-- The path ends at its own quote. -/
theorem quoted_not_callsPath :
    ¬∀ (tables : CharacterTables) (keyName : Int32 → Option QString) (item : Item)
      (path text : QString), item.target = .path path →
      serializeItem tables keyName true item = some text →
      CallsPath tables text path item.method (parametersString tables keyName item.parameters)
        ";" := by
  intro every
  have calls := every separatorTables (fun _ => none) (closeItem "a\"b") "a\"b" _ rfl rfl
  have ordinary : IsOrdinary "close" [] :=
    ⟨by decide, by decide, fun character member => nomatch member⟩
  have copied := isCopied_of_callsPath separatorTables ordinary calls
  have quoted := copied.verbatim quote (by decide)
  exact absurd quoted (by decide)

end XmlToQtScript

end Hooq

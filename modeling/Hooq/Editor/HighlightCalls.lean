import Mathlib.Data.List.Induction
import Mathlib.Data.List.TakeWhile
import Hooq.Editor.Highlighter
import Hooq.Library.Comments

/-!
# What the calls of the highlighter say

The last call that covers a character counts.  A call is fair if it says of no character
that it is a comment or a string when it is not, and if it stays in the line.
-/

namespace Hooq

namespace QScriptHighlighter

open Library.Comments

def marks : Marks QChar where
  slash := 47
  star := 42
  escape := 92
  quote := 34
  otherQuote := 39
  distinct := by decide

/-- What a format says about a character. -/
def partOf : Option Format → Part
  | some .comment => .comment
  | some .string => .string
  | _ => .code

/-- The call says of no character what it is not. -/
def Call.IsHonest (whole : List Part) (call : Call) : Prop :=
  ∀ position part, call.Covers position → whole[position]? = some part →
    part = partOf call.format

/-! ## The last call counts -/

theorem length_foldl_setFormat (calls : List Call) (formats : List (Option Format)) :
    (calls.foldl setFormat formats).length = formats.length := by
  induction calls generalizing formats with
  | nil => rfl
  | cons call calls ih => rw [List.foldl_cons, ih, setFormat, List.length_mapIdx]

/-- The format of a position is that of a call that covers it, if there is one. -/
theorem format_cases (calls : List Call) (length position : Nat) {format : Option Format}
    (found : (calls.foldl setFormat (unset length))[position]? = some format) :
    (∃ call ∈ calls, call.Covers position ∧ call.format = format) ∨
      (∀ call ∈ calls, ¬call.Covers position) ∧ format = none := by
  induction calls using List.reverseRecOn generalizing format with
  | nil =>
      rw [List.foldl_nil, unset, List.getElem?_replicate] at found
      split at found
      · exact .inr ⟨List.forall_mem_nil _, (Option.some.inj found).symm⟩
      · cases found
  | append_singleton calls last ih =>
      rw [List.foldl_append, List.foldl_cons, List.foldl_nil, setFormat, List.getElem?_mapIdx,
        Option.map_eq_some_iff] at found
      obtain ⟨before, earlier, rfl⟩ := found
      by_cases covers : last.Covers position
      · rw [if_pos covers]
        exact .inl ⟨last, List.mem_append_right _ List.mem_cons_self, covers, rfl⟩
      · rw [if_neg covers]
        rcases ih earlier with ⟨call, member, covered, same⟩ | ⟨none, unset⟩
        · exact .inl ⟨call, List.mem_append_left _ member, covered, same⟩
        · refine .inr ⟨fun call member => ?_, unset⟩
          rcases List.mem_append.mp member with old | isLast
          · exact none call old
          · rwa [List.mem_singleton.mp isLast]

/-- Honest calls that reach all comments and strings show them as they are. -/
theorem parts_of_honest {calls : List Call} {whole : List Part}
    (honest : ∀ call ∈ calls, call.IsHonest whole)
    (reached : ∀ position part, whole[position]? = some part → part ≠ .code →
      ∃ call ∈ calls, call.Covers position) :
    (calls.foldl setFormat (unset whole.length)).map partOf = whole := by
  apply List.ext_getElem?
  intro position
  rw [List.getElem?_map]
  cases here : whole[position]? with
  | none =>
      have outside := List.getElem?_eq_none_iff.mp here
      rw [List.getElem?_eq_none, Option.map_none]
      rwa [length_foldl_setFormat, unset, List.length_replicate]
  | some part =>
      have inside : position < whole.length := (List.getElem?_eq_some_iff.mp here).1
      have within : position < (calls.foldl setFormat (unset whole.length)).length := by
        rwa [length_foldl_setFormat, unset, List.length_replicate]
      have found := List.getElem?_eq_getElem within
      rw [found, Option.map_some]
      rcases format_cases calls whole.length position found with
        ⟨call, member, covers, same⟩ | ⟨none, unset⟩
      · rw [← same, honest call member position part covers here]
      · rw [unset]
        by_contra differs
        obtain ⟨call, member, covers⟩ :=
          reached position part here fun isCode => differs (by rw [isCode]; rfl)
        exact none call member covers

/-! ## Calls that are fair -/

section

variable (text : QString) (whole : List Part)

/-- The call stays in the line. -/
structure Call.IsInside (call : Call) : Prop where
  start : 0 ≤ call.start
  count : 0 ≤ call.count
  inside : call.start + call.count ≤ text.length

/-- The call is as it should be in a line with certain parts. -/
structure Call.IsFair (call : Call) : Prop where
  honest : call.IsHonest whole
  inside : call.IsInside text

variable {tables : CharacterTables} {duiEnabled : Bool} {text : QString} {whole : List Part}

/-- A call for the character at a position. -/
theorem isFair_single {position : Nat} (inside : position < text.length)
    {format : Option Format} (here : whole[position]? = some (partOf format)) :
    Call.IsFair text whole ⟨position, 1, format⟩ := by
  refine ⟨fun other part covers found => ?_, ?_⟩
  · have same : other = position := by
      simp only [Call.Covers] at covers
      omega
    rw [same, here] at found
    exact (Option.some.inj found).symm
  · exact ⟨Int.natCast_nonneg _, by simp, by simp only; omega⟩

theorem isFair_lastStandard {scan : Scan} {position : Nat} (inside : position < text.length)
    (before : scan.makeLastStandard = true →
      position ≠ 0 ∧ whole[position - 1]? = some .code) :
    ∀ call ∈ lastStandard scan position, call.IsFair text whole := by
  intro call member
  rw [lastStandard] at member
  split at member
  next pending =>
    obtain ⟨behind, isCode⟩ := before pending
    have fair : Call.IsFair text whole ⟨(position - 1 : Nat), 1, none⟩ :=
      isFair_single (by omega) isCode
    rw [List.mem_singleton.mp member]
    rwa [Int.natCast_sub (Nat.pos_of_ne_zero behind)] at fair
  next => cases member

/-- The two characters that begin a comment. -/
theorem isFair_opening {position : Nat} (inside : position < text.length)
    (behind : position ≠ 0) (before : whole[position - 1]? = some .comment)
    (here : whole[position]? = some .comment) :
    Call.IsFair text whole ⟨position - 1, 2, some .comment⟩ := by
  refine ⟨fun other part covers found => ?_, ?_⟩
  · have either : other = position - 1 ∨ other = position := by
      simp only [Call.Covers] at covers
      omega
    rcases either with rfl | rfl
    · rw [before] at found
      exact (Option.some.inj found).symm
    · rw [here] at found
      exact (Option.some.inj found).symm
  · exact ⟨by simp only; omega, by simp, by simp only; omega⟩

theorem highlightKeyword_cases {position : Nat} {buffer : QString} {call : Call}
    (found : highlightKeyword tables duiEnabled position buffer = some call) :
    buffer ≠ [] ∧ ∃ format, call = ⟨position - buffer.length, buffer.length, some format⟩ ∧
      (format = .type ∧ (∃ first, buffer.head? = some first ∧
          (duiEnabled = true ∧ isUpper tables first = true ∨ ¬duiEnabled = true ∧ first = 81)) ∨
        format = .keyword ∧ buffer ∈ qscriptKeywords) := by
  cases buffer with
  | nil => cases found
  | cons first rest =>
      refine ⟨List.cons_ne_nil _ _, ?_⟩
      rw [highlightKeyword] at found
      split at found
      next isType =>
        cases found
        exact ⟨.type, rfl, .inl ⟨rfl, first, rfl, isType⟩⟩
      next =>
        split at found
        next isKeyword =>
          cases found
          exact ⟨.keyword, rfl, .inr ⟨rfl, isKeyword⟩⟩
        next => cases found

/-- A call for a word that ends at a position. -/
theorem isFair_keyword {position : Nat} {buffer : QString} (inside : position ≤ text.length)
    (fits : buffer.length ≤ position)
    (word : ∀ other, position ≤ other + buffer.length → other < position →
      whole[other]? = some .code) :
    ∀ call ∈ (highlightKeyword tables duiEnabled position buffer).toList,
      call.IsFair text whole := by
  intro call member
  obtain ⟨-, format, rfl, kind⟩ := highlightKeyword_cases (Option.mem_toList.mp member)
  constructor
  · intro other part covers found
    simp only [Call.Covers] at covers
    rw [word other (by omega) (by omega)] at found
    rw [← Option.some.inj found]
    rcases kind with ⟨rfl, -⟩ | ⟨rfl, -⟩ <;> rfl
  · exact ⟨by simp only; omega, Int.natCast_nonneg _, by simp only; omega⟩

/-- What stands in a label or between a label and its colon. -/
def isBeforeColon (tables : CharacterTables) (character : QChar) : Bool :=
  QString.isSpace character || isLabelPart tables character

/-- A label holds no slash and no quote. -/
theorem not_mark_of_isBeforeColon {character : QChar}
    (inLabel : isBeforeColon tables character = true) :
    character ≠ marks.slash ∧ character ≠ marks.quote ∧ character ≠ marks.otherQuote := by
  have outside (mark : QChar) (ascii : mark < 0x80)
      (solid : QString.isSpace mark = false)
      (other : (Category.ascii mark).isLetter = false ∧ (Category.ascii mark).isNumber = false ∧
        mark ≠ 95 ∧ mark ≠ 46) : character ≠ mark := by
    rintro rfl
    rw [isBeforeColon, isLabelPart, CharacterTables.isLetterOrNumber,
      tables.category_ascii ascii, solid, other.1, other.2.1] at inLabel
    simp [other.2.2] at inLabel
  exact ⟨outside 47 (by decide) (by decide) (by decide),
    outside 34 (by decide) (by decide) (by decide),
    outside 39 (by decide) (by decide) (by decide)⟩

/-- The white space and the word in front of a position. -/
def beforeColon (tables : CharacterTables) (text : QString) (position : Nat) : QString :=
  let before := (text.take position).reverse
  before.takeWhile QString.isSpace ++
    (before.dropWhile QString.isSpace).takeWhile (isLabelPart tables)

theorem prefix_beforeColon (tables : CharacterTables) (text : QString) (position : Nat) :
    beforeColon tables text position <+: (text.take position).reverse := by
  obtain ⟨rest, labelled⟩ : ((text.take position).reverse.dropWhile QString.isSpace).takeWhile
      (isLabelPart tables) <+: (text.take position).reverse.dropWhile QString.isSpace :=
    List.takeWhile_prefix _
  refine ⟨rest, ?_⟩
  rw [beforeColon, List.append_assoc, labelled, List.takeWhile_append_dropWhile]

theorem length_beforeColon (tables : CharacterTables) (text : QString) (position : Nat) :
    (beforeColon tables text position).length ≤ position := by
  have shorter := (prefix_beforeColon tables text position).length_le
  rw [List.length_reverse, List.length_take] at shorter
  exact shorter.trans (Nat.min_le_left _ _)

/-- Going back over white space and over a word stays in front of the colon. -/
theorem isBeforeColon_of_within {position other : Nat} (inside : position ≤ text.length)
    (within : position ≤ other + (beforeColon tables text position).length)
    (earlier : other < position) :
    ∃ character, text[other]? = some character ∧ isBeforeColon tables character = true := by
  have length : (text.take position).length = position := by
    rw [List.length_take, Nat.min_eq_left inside]
  have short : position - 1 - other < (beforeColon tables text position).length := by omega
  have same : (text.take position).reverse[position - 1 - other]? = text[other]? := by
    rw [List.getElem?_reverse (by omega), length, List.getElem?_take_of_lt (by omega)]
    congr 1
    omega
  obtain ⟨rest, split⟩ := prefix_beforeColon tables text position
  have found := List.getElem?_eq_getElem short
  have member := List.getElem_mem short
  refine ⟨(beforeColon tables text position)[position - 1 - other], ?_, ?_⟩
  · rw [← same, ← split, List.getElem?_append_left short, found]
  · rw [isBeforeColon, Bool.or_eq_true]
    rcases List.mem_append.mp member with isSpace | isPart
    · exact .inl (List.mem_takeWhile_imp isSpace)
    · exact .inr (List.mem_takeWhile_imp isPart)

/-- In front of a colon that is read as code, a label is code as well. -/
theorem code_of_beforeColon {mode : Mode} (isWhole : whole = parts marks mode text)
    {position : Nat} (inside : position ≤ text.length)
    (behind : position ≠ 0 → whole[position - 1]? = some .code) (distance : Nat) :
    ∀ other, other + 1 + distance = position →
      position ≤ other + (beforeColon tables text position).length →
      whole[other]? = some .code := by
  induction distance with
  | zero =>
      intro other same _
      have last := behind (by omega)
      rwa [show position - 1 = other by omega] at last
  | succ distance ih =>
      intro other same within
      have next := ih (other + 1) (by omega) (by omega)
      obtain ⟨character, here, inLabel⟩ := isBeforeColon_of_within inside within (by omega)
      have further : position ≤ other + 1 + (beforeColon tables text position).length := by omega
      obtain ⟨following, there, inLabelToo⟩ := isBeforeColon_of_within inside further (by omega)
      have known : other < whole.length := by
        rw [isWhole, length_parts]
        omega
      have found := List.getElem?_eq_getElem known
      by_contra notCode
      have part : whole[other] ≠ .code := fun isCode => notCode (by rw [found, isCode])
      subst isWhole
      rcases mark_between part found next with isSlash | isQuote | isQuote
      · rw [here] at isSlash
        exact (not_mark_of_isBeforeColon inLabel).1 (Option.some.inj isSlash)
      · rw [there] at isQuote
        exact (not_mark_of_isBeforeColon inLabelToo).2.1 (Option.some.inj isQuote)
      · rw [there] at isQuote
        exact (not_mark_of_isBeforeColon inLabelToo).2.2 (Option.some.inj isQuote)

theorem label_cases {scan : Scan} {position : Nat} {character : QChar} {call : Call}
    (found : label tables duiEnabled text scan position character = some call) :
    (¬scan.lastWasBackSlash = true ∧ character = 58 ∧ scan.state = .standard ∧
      ¬scan.questionMark = true ∧ scan.lastChar ≠ 58 ∧ text[position + 1]?.getD 32 ≠ 58) ∧
    ∃ format, call = ⟨(position - (beforeColon tables text position).length : Nat),
        position - (position - (beforeColon tables text position).length : Nat), some format⟩ ∧
      (format = .label ∨ format = .keyword ∧ duiEnabled = true ∧
        (((text.take position).reverse.dropWhile QString.isSpace).takeWhile
          (isLabelPart tables)).reverse = QString.ofString "id") := by
  rw [label] at found
  split at found
  next labelled =>
    refine ⟨labelled, ?_⟩
    rw [beforeColon, List.length_append, ← Nat.sub_sub]
    by_cases isId : duiEnabled = true ∧
        (((text.take position).reverse.dropWhile QString.isSpace).takeWhile
          (isLabelPart tables)).reverse = QString.ofString "id"
    · exact ⟨.keyword, by simpa [isId, eq_comm] using found, .inr ⟨rfl, isId⟩⟩
    · exact ⟨.label, by simpa [isId, eq_comm] using found, .inl rfl⟩
  next => cases found

theorem isFair_label {mode : Mode} {scan : Scan} {position : Nat} {character : QChar}
    (isWhole : whole = parts marks mode text) (inside : position < text.length)
    (behind : scan.state = .standard → position ≠ 0 → whole[position - 1]? = some .code) :
    ∀ call ∈ (label tables duiEnabled text scan position character).toList,
      call.IsFair text whole := by
  intro call member
  have fits := length_beforeColon tables text position
  obtain ⟨⟨-, -, standard, -⟩, format, rfl, kind⟩ := label_cases (Option.mem_toList.mp member)
  constructor
  · intro other part covers found
    simp only [Call.Covers] at covers
    have isCode := @code_of_beforeColon tables _ _ _ isWhole _ inside.le (behind standard)
      (position - (other + 1)) other (by omega) (by omega)
    rw [isCode] at found
    rw [← Option.some.inj found]
    rcases kind with rfl | ⟨rfl, -⟩ <;> rfl
  · exact ⟨by simp only; omega, by simp only; omega, by simp only; omega⟩

end

end QScriptHighlighter

end Hooq

import Hooq.Editor.HighlightCalls

/-!
# What the highlighter shows

The characters of a document that are shown as comments and as strings are those that
belong to comments and to strings, whatever else is set.
-/

namespace Hooq

namespace QScriptHighlighter

open Library.Comments

/-! ## The table -/

/-- Where a line is read in a state. -/
def State.mode : State → Mode
  | .standard | .commentStart1 | .cCommentEnd2 | .stringEnd | .string2End | .number
  | .preProcessor => .code
  | .cCommentStart2 | .cComment | .cCommentEnd1 => .blockComment
  | .cppCommentStart2 | .cppComment => .lineComment
  | .stringStart | .string => .quoted
  | .string2Start | .string2 => .otherQuoted

/-- What an input means for the mode. -/
def Input.enter (mode : Mode) (input : Input) : Mode :=
  match mode, input with
  | .code, .quotation => .quoted
  | .code, .apostrophe => .otherQuoted
  | .quoted, .quotation => .code
  | .otherQuoted, .apostrophe => .code
  | mode, _ => mode

/-- The input completes two characters that belong together. -/
def Completes (state : State) (input : Input) : Prop :=
  state = .commentStart1 ∧ (input = .asterix ∨ input = .slash) ∨
    state = .cCommentEnd1 ∧ input = .slash

instance (state : State) (input : Input) : Decidable (Completes state input) :=
  inferInstanceAs (Decidable (_ ∨ _))

/-- A character by itself. -/
theorem table_single {state : State} {input : Input} (single : ¬Completes state input) :
    (table state input).mode = input.enter state.mode ∧
      partOf (table state input).format =
        (if input.enter state.mode = state.mode then state.mode.part else .code) := by
  cases state <;> cases input <;> first | decide | exact absurd (by decide) single

/-! ## One character of a line -/

section

variable (text : QString) (whole : List Part)

/-- What the loop knows of the characters in front of a position.  A slash that may begin
a comment has no format yet. -/
structure Scan.Follows (scan : Scan) (position : Nat) : Prop where
  first : position = 0 → scan.lastChar = 0
  lastChar : position ≠ 0 → text[position - 1]? = some scan.lastChar
  pending : scan.makeLastStandard = true ↔ scan.state = .commentStart1
  behind : scan.state = .commentStart1 → position ≠ 0
  standard : scan.state = .standard → position ≠ 0 → whole[position - 1]? = some .code
  fits : scan.buffer.length ≤ position
  isCode : ∀ other, position ≤ other + scan.buffer.length → other < position →
    whole[other]? = some .code
  fair : ∀ call ∈ scan.calls, call.IsFair text whole
  reached : ∀ other part, other < position →
    (scan.state = .commentStart1 → other + 1 < position) →
    whole[other]? = some part → part ≠ .code → ∃ call ∈ scan.calls, call.Covers other

/-- What an input says about a character. -/
structure Input.IsOf (escaped : Bool) (character : QChar) (input : Input) : Prop where
  sep : escaped = true → input = .sep
  asterix : escaped = false → (input = .asterix ↔ character = marks.star)
  slash : escaped = false → (input = .slash ↔ character = marks.slash)
  quotation : escaped = false → (input = .quotation ↔ character = marks.quote)
  apostrophe : escaped = false → (input = .apostrophe ↔ character = marks.otherQuote)

variable {tables : CharacterTables} {duiEnabled : Bool} {text : QString} {whole : List Part}

theorem follows_start (state : State) :
    (Scan.start state.atEnd).Follows text whole 0 := by
  have settled : (Scan.start state.atEnd).state ≠ .commentStart1 := by
    cases state <;> decide
  exact ⟨fun _ => rfl, fun moved => absurd rfl moved, iff_of_false Bool.false_ne_true settled,
    fun pending => absurd pending settled, fun _ moved => absurd rfl moved, Nat.le_refl 0,
    fun _ _ none => absurd none (Nat.not_lt_zero _), List.forall_mem_nil _,
    fun _ _ none => absurd none (Nat.not_lt_zero _)⟩

theorem isOf_other {escaped : Bool} {character : QChar} {input : Input}
    (isSep : escaped = true → input = .sep)
    (notMark : character ∉ [marks.star, marks.slash, marks.quote, marks.otherQuote])
    (other : input ∉ [.asterix, .slash, .quotation, .apostrophe]) :
    input.IsOf escaped character := by
  simp only [List.mem_cons, List.not_mem_nil, or_false, not_or] at notMark other
  exact ⟨isSep, fun _ => iff_of_false other.1 notMark.1,
    fun _ => iff_of_false other.2.1 notMark.2.1,
    fun _ => iff_of_false other.2.2.1 notMark.2.2.1,
    fun _ => iff_of_false other.2.2.2 notMark.2.2.2⟩

theorem not_number_of_letter {character : QChar} (letter : character ∈ letters) :
    character ∉ numbers := by
  have all : letters.all (fun character => character ∉ numbers) = true := by decide
  exact of_decide_eq_true (List.all_eq_true.mp all character letter)

/-- The loop never asks for a character outside of the line. -/
theorem Scan.Follows.classifyDigit {scan : Scan} {position : Nat}
    (follows : scan.Follows text whole position) :
    ∃ input, classifyDigit text scan position = some input ∧
      input ∉ [.asterix, .slash, .quotation, .apostrophe] := by
  have otherwise : (if scan.input = some .alpha ∧ scan.lastChar ∈ numbers then
      Input.alpha else .number) ∉ [Input.asterix, .slash, .quotation, .apostrophe] := by
    split <;> decide
  rw [QScriptHighlighter.classifyDigit]
  by_cases letter : scan.lastChar ∈ letters
  case neg => exact ⟨_, if_neg letter, otherwise⟩
  case pos =>
    rw [if_pos letter]
    by_cases math : scan.lastChar ∈ mathChars
    case neg => exact ⟨_, if_neg math, by decide⟩
    case pos =>
      have moved : position ≠ 0 := by
        intro start
        rw [follows.first start] at letter
        exact absurd letter (by decide)
      refine ⟨.alpha, ?_, by decide⟩
      rw [if_pos math, if_neg moved, follows.lastChar moved, Option.map_some,
        if_neg (not_number_of_letter letter)]

/-- The choice between two inputs that are no marks. -/
theorem exists_ite {condition : Prop} [Decidable condition] {first second : Option Input}
    {inputs : List Input} (inFirst : ∃ input, first = some input ∧ input ∉ inputs)
    (inSecond : ∃ input, second = some input ∧ input ∉ inputs) :
    ∃ input, (if condition then first else second) = some input ∧ input ∉ inputs := by
  split
  · exact inFirst
  · exact inSecond

theorem Scan.Follows.classify (tables : CharacterTables) {scan : Scan} {position : Nat}
    (follows : scan.Follows text whole position) (character : QChar) :
    ∃ input, classify tables text scan position character = some input ∧
      input.IsOf scan.lastWasBackSlash character := by
  cases escaped : scan.lastWasBackSlash with
  | true => exact ⟨.sep, by rw [QScriptHighlighter.classify, if_pos escaped],
      fun _ => rfl, nofun, nofun, nofun, nofun⟩
  | false =>
      rw [QScriptHighlighter.classify, if_neg (by rw [escaped]; exact Bool.false_ne_true)]
      by_cases isMark :
          character ∈ [marks.star, marks.slash, marks.quote, marks.otherQuote]
      case pos =>
        simp only [List.mem_cons, List.not_mem_nil, or_false] at isMark
        rcases isMark with rfl | rfl | rfl | rfl <;>
          exact ⟨_, rfl, nofun, fun _ => by decide, fun _ => by decide, fun _ => by decide,
            fun _ => by decide⟩
      case neg =>
        have other := isMark
        simp only [List.mem_cons, List.not_mem_nil, or_false, not_or] at other
        have notStar : character ≠ 42 := other.1
        have notSlash : character ≠ 47 := other.2.1
        have notQuote : character ≠ 34 := other.2.2.1
        have notOther : character ≠ 39 := other.2.2.2
        refine Exists.imp (fun input => And.imp_right (isOf_other nofun isMark)) ?_
        rw [if_neg notStar, if_neg notSlash, if_neg notQuote, if_neg notOther]
        exact exists_ite ⟨.paren, rfl, by decide⟩ (exists_ite ⟨.paren, rfl, by decide⟩
          (exists_ite ⟨.hash, rfl, by decide⟩ (exists_ite ⟨.space, rfl, by decide⟩
            (exists_ite follows.classifyDigit (exists_ite ⟨.sep, rfl, by decide⟩
              (exists_ite ⟨.alpha, rfl, by decide⟩ ⟨.sep, rfl, by decide⟩))))))

/-- The state begins a comment, together with the character in front. -/
def State.Opens (state : State) : Prop :=
  state = .cCommentStart2 ∨ state = .cppCommentStart2

instance (state : State) : Decidable state.Opens :=
  inferInstanceAs (Decidable (_ ∨ _))

/-- What has to be seen to for the next character. -/
theorem Scan.Follows.next {scan next : Scan} {position : Nat} {character : QChar}
    (follows : scan.Follows text whole position)
    (here : text[position]? = some character) (lastChar : next.lastChar = character)
    (pending : next.makeLastStandard = true ↔ next.state = .commentStart1)
    (standard : next.state = .standard → whole[position]? = some .code)
    (buffer : next.buffer = [] ∨
      next.buffer = scan.buffer ++ [character] ∧ whole[position]? = some .code)
    {new : List Call} (calls : next.calls = scan.calls ++ new)
    (fair : ∀ call ∈ new, call.IsFair text whole)
    (own : next.state ≠ .commentStart1 → whole[position]? ≠ some .code →
      ∃ call ∈ new, call.Covers position)
    (before : scan.state = .commentStart1 → whole[position - 1]? = some .code ∨
      ∃ call ∈ new, call.Covers (position - 1)) :
    next.Follows text whole (position + 1) := by
  have inside : position < text.length := (List.getElem?_eq_some_iff.mp here).1
  have fits := follows.fits
  constructor
  case first => exact fun impossible => absurd impossible (Nat.succ_ne_zero _)
  case lastChar =>
    intro _
    rw [Nat.add_sub_cancel, here, lastChar]
  case pending => exact pending
  case behind => exact fun _ => Nat.succ_ne_zero _
  case standard => exact fun isStandard _ => standard isStandard
  case fits =>
    rcases buffer with empty | ⟨longer, -⟩
    · rw [empty]
      exact Nat.zero_le _
    · rw [longer, List.length_append, List.length_singleton]
      omega
  case isCode =>
    intro other within earlier
    rcases buffer with empty | ⟨longer, isCode⟩
    · rw [empty, List.length_nil] at within
      omega
    · rw [longer, List.length_append, List.length_singleton] at within
      by_cases last : other = position
      · rw [last, isCode]
      · exact follows.isCode other (by omega) (by omega)
  case fair =>
    intro call member
    rw [calls] at member
    rcases List.mem_append.mp member with old | isNew
    · exact follows.fair call old
    · exact fair call isNew
  case reached =>
    intro other part earlier settled found inside
    have among (covered : (∃ call ∈ scan.calls, call.Covers other) ∨
        ∃ call ∈ new, call.Covers other) : ∃ call ∈ next.calls, call.Covers other := by
      rw [calls]
      rcases covered with ⟨call, member, covers⟩ | ⟨call, member, covers⟩
      · exact ⟨call, List.mem_append_left _ member, covers⟩
      · exact ⟨call, List.mem_append_right _ member, covers⟩
    have notCode : whole[other]? ≠ some .code :=
      fun isCode => inside (Option.some.inj (found.symm.trans isCode))
    apply among
    by_cases last : other = position
    · subst last
      exact .inr (own (fun slash => Nat.lt_irrefl _ (settled slash)) notCode)
    · by_cases slash : scan.state = .commentStart1 ∧ other + 1 = position
      · have same : position - 1 = other := by omega
        rcases before slash.1 with isCode | covered
        · exact absurd (same ▸ isCode) notCode
        · exact .inr (same ▸ covered)
      · refine .inl (follows.reached other part (by omega) (fun pending => ?_) found inside)
        have notSlash : other + 1 ≠ position := fun same => slash ⟨pending, same⟩
        omega

theorem covers_own (position : Nat) (format : Option Format) :
    Call.Covers ⟨position, 1, format⟩ position :=
  ⟨Int.natCast_nonneg _, Int.le_refl _, Int.lt_succ _⟩

theorem covers_opening {position : Nat} (behind : position ≠ 0) :
    Call.Covers ⟨position - 1, 2, some .comment⟩ position ∧
      Call.Covers ⟨position - 1, 2, some .comment⟩ (position - 1) := by
  simp only [Call.Covers]
  omega

/-- The slash in front, which begins no comment, and what is in a state painted in its own
format. -/
theorem paint_other {scan : Scan} {position : Nat} {input : Input} {lookAtBinding : Bool}
    (notStandard : scan.state ≠ .standard) (notSlash : scan.state ≠ .commentStart1)
    (closed : ¬scan.state.Opens) :
    paint tables duiEnabled scan position input lookAtBinding =
      { scan with
        makeLastStandard := false
        buffer := []
        calls := scan.calls ++ lastStandard scan position ++
          [⟨position, 1, scan.state.format⟩] } := by
  rw [State.Opens, not_or] at closed
  rw [paint]
  cases state : scan.state with
  | standard => exact absurd state notStandard
  | commentStart1 => exact absurd state notSlash
  | cCommentStart2 => exact absurd state closed.1
  | cppCommentStart2 => exact absurd state closed.2
  | _ => rfl

theorem paint_slash {scan : Scan} {position : Nat} {input : Input} {lookAtBinding : Bool}
    (isSlash : scan.state = .commentStart1) :
    paint tables duiEnabled scan position input lookAtBinding =
      { scan with
        makeLastStandard := true
        buffer := []
        calls := scan.calls ++ lastStandard scan position } := by
  rw [paint, isSlash]

theorem paint_opens {scan : Scan} {position : Nat} {input : Input} {lookAtBinding : Bool}
    (opens : scan.state.Opens) :
    paint tables duiEnabled scan position input lookAtBinding =
      { scan with
        makeLastStandard := false
        buffer := []
        calls := scan.calls ++ [⟨position - 1, 2, some .comment⟩] } := by
  rw [paint]
  rcases opens with state | state <;>
    · rw [state]
      rfl

theorem paint_kept (scan : Scan) (position : Nat) (input : Input) (lookAtBinding : Bool) :
    (paint tables duiEnabled scan position input lookAtBinding).state = scan.state ∧
      (paint tables duiEnabled scan position input lookAtBinding).lastWasBackSlash =
        scan.lastWasBackSlash ∧
      (paint tables duiEnabled scan position input lookAtBinding).lastChar = scan.lastChar := by
  rw [paint]
  split <;> exact ⟨rfl, rfl, rfl⟩

/-- A step to code that is no number, no directive and no quote.  A word in front of the
character is looked up. -/
theorem Scan.Follows.paint_standard {scan : Scan} {position : Nat}
    (follows : scan.Follows text whole position) {character : QChar}
    (here : text[position]? = some character) (input : Input)
    (standard : table scan.state input = .standard) (own : whole[position]? = some .code)
    (before : scan.state = .commentStart1 → whole[position - 1]? = some .code)
    (labels : ∀ call ∈ (label tables duiEnabled text scan position character).toList,
      call.IsFair text whole)
    (slash : ∀ call ∈ lastStandard
      (scan.advance tables duiEnabled text position character input) position,
      call.IsFair text whole) (lookAtBinding : Bool) :
    (paint tables duiEnabled (scan.advance tables duiEnabled text position character input)
      position input lookAtBinding).Follows text whole (position + 1) := by
  have inside : position < text.length := (List.getElem?_eq_some_iff.mp here).1
  have same : paint tables duiEnabled
      (scan.advance tables duiEnabled text position character input) position input
        lookAtBinding =
      { scan.advance tables duiEnabled text position character input with
        makeLastStandard := false
        buffer := if input = .alpha then scan.buffer ++ [character] else []
        calls := scan.calls ++ ((label tables duiEnabled text scan position character).toList ++
          ([⟨position, 1, none⟩] ++ (lastStandard
            (scan.advance tables duiEnabled text position character input) position ++
          if input ≠ .alpha ∧ ¬lookAtBinding then
            (highlightKeyword tables duiEnabled position scan.buffer).toList
          else
            []))) } := by
    rw [paint, show (scan.advance tables duiEnabled text position character input).state =
      .standard from standard]
    by_cases alpha : input = .alpha
    · subst alpha
      simp [Scan.advance, standard]
    · cases word : scan.buffer with
      | nil => simp [Scan.advance, alpha, word, highlightKeyword, standard]
      | cons first rest => simp [Scan.advance, alpha, word, standard]
  rw [same]
  refine follows.next here rfl (iff_of_false Bool.false_ne_true ?_) (fun _ => own) ?_ rfl ?_ ?_ ?_
  · exact fun isSlash => by cases standard.symm.trans isSlash
  · by_cases alpha : input = .alpha
    · exact .inr ⟨if_pos alpha, own⟩
    · exact .inl (if_neg alpha)
  · intro call member
    simp only [List.mem_append, List.mem_singleton] at member
    rcases member with isLabel | rfl | isSlash | isKeyword
    · exact labels call isLabel
    · exact isFair_single inside own
    · exact slash call isSlash
    · split at isKeyword
      · exact isFair_keyword inside.le follows.fits follows.isCode call isKeyword
      · cases isKeyword
  · exact fun _ notCode => absurd own notCode
  · exact fun isSlash => .inl (before isSlash)

/-- A step to the second character of a comment. -/
theorem Scan.Follows.paint_opening {scan : Scan} {position : Nat}
    (follows : scan.Follows text whole position) {character : QChar}
    (here : text[position]? = some character) (input : Input)
    (opens : (table scan.state input).Opens) (isSlash : scan.state = .commentStart1)
    (first : whole[position - 1]? = some .comment) (second : whole[position]? = some .comment)
    (labels : ∀ call ∈ (label tables duiEnabled text scan position character).toList,
      call.IsFair text whole) (lookAtBinding : Bool) :
    (paint tables duiEnabled (scan.advance tables duiEnabled text position character input)
      position input lookAtBinding).Follows text whole (position + 1) := by
  have inside : position < text.length := (List.getElem?_eq_some_iff.mp here).1
  have behind := follows.behind isSlash
  have other {state : State} (closed : ¬state.Opens) : table scan.state input ≠ state :=
    fun same => closed (same ▸ opens)
  rw [paint_opens opens]
  refine follows.next here rfl (iff_of_false Bool.false_ne_true (other (by decide)))
    (fun standard => absurd standard (other (by decide))) (.inl rfl) (List.append_assoc ..)
    ?_ ?_ ?_
  · intro call member
    rcases List.mem_append.mp member with isLabel | isOpening
    · exact labels call isLabel
    · rw [List.mem_singleton.mp isOpening]
      exact isFair_opening inside behind first second
  · exact fun _ _ => ⟨_, List.mem_append_right _ List.mem_cons_self, (covers_opening behind).1⟩
  · exact fun _ => .inr ⟨_, List.mem_append_right _ List.mem_cons_self, (covers_opening behind).2⟩

/-- A step to any other state. -/
theorem Scan.Follows.paint_other {scan : Scan} {position : Nat}
    (follows : scan.Follows text whole position) {character : QChar}
    (here : text[position]? = some character) (input : Input)
    (standard : table scan.state input ≠ .standard) (closed : ¬(table scan.state input).Opens)
    (own : table scan.state input ≠ .commentStart1 →
      whole[position]? = some (partOf (table scan.state input).format))
    (before : scan.state = .commentStart1 → whole[position - 1]? = some .code)
    (labels : ∀ call ∈ (label tables duiEnabled text scan position character).toList,
      call.IsFair text whole)
    (slash : ∀ call ∈ lastStandard
      (scan.advance tables duiEnabled text position character input) position,
      call.IsFair text whole) (lookAtBinding : Bool) :
    (paint tables duiEnabled (scan.advance tables duiEnabled text position character input)
      position input lookAtBinding).Follows text whole (position + 1) := by
  have inside : position < text.length := (List.getElem?_eq_some_iff.mp here).1
  have earlier (isSlash : scan.state = .commentStart1) (new : List Call) :
      whole[position - 1]? = some .code ∨ ∃ call ∈ new, call.Covers (position - 1) :=
    .inl (before isSlash)
  by_cases pending : table scan.state input = .commentStart1
  case pos =>
    rw [paint_slash pending]
    refine follows.next here rfl (iff_of_true rfl pending)
      (fun isStandard => absurd isStandard standard) (.inl rfl) (List.append_assoc ..) ?_
      (fun other => absurd pending other) (fun isSlash => earlier isSlash _)
    intro call member
    rcases List.mem_append.mp member with isLabel | isSlash
    · exact labels call isLabel
    · exact slash call isSlash
  case neg =>
    rw [QScriptHighlighter.paint_other standard pending closed]
    refine follows.next here rfl (iff_of_false Bool.false_ne_true pending)
      (fun isStandard => absurd isStandard standard) (.inl rfl)
      ((List.append_assoc ..).trans (List.append_assoc ..)) ?_ ?_ (fun isSlash => earlier isSlash _)
    · intro call member
      rcases List.mem_append.mp member with isLabel | member
      · exact labels call isLabel
      · rcases List.mem_append.mp member with isSlash | isOwn
        · exact slash call isSlash
        · rw [List.mem_singleton.mp isOwn]
          exact isFair_single inside (own pending)
    · intro _ _
      exact ⟨_, List.mem_append_right _ (List.mem_append_right _ List.mem_cons_self),
        covers_own position _⟩

/-- A step, where the state that it leads to fits what the characters are. -/
theorem Scan.Follows.step (duiEnabled : Bool) {scan : Scan} {position : Nat} {mode : Mode}
    (follows : scan.Follows text whole position)
    (isWhole : whole = parts marks mode text) {character : QChar}
    (here : text[position]? = some character) {input : Input}
    (classified : QScriptHighlighter.classify tables text scan position character = some input)
    (own : table scan.state input ≠ .commentStart1 → ¬(table scan.state input).Opens →
      whole[position]? = some (partOf (table scan.state input).format))
    (before : scan.state = .commentStart1 → ¬(table scan.state input).Opens →
      whole[position - 1]? = some .code)
    (opening : (table scan.state input).Opens → scan.state = .commentStart1 ∧
      whole[position - 1]? = some .comment ∧ whole[position]? = some .comment) :
    ∃ next, QScriptHighlighter.step tables duiEnabled text scan position = some next ∧
      next.state = table scan.state input ∧
      next.lastWasBackSlash = (!scan.lastWasBackSlash && character = 92) ∧
      next.Follows text whole (position + 1) := by
  have inside : position < text.length := (List.getElem?_eq_some_iff.mp here).1
  have labels : ∀ call ∈ (label tables duiEnabled text scan position character).toList,
      call.IsFair text whole :=
    isFair_label isWhole inside follows.standard
  have slash (closed : ¬(table scan.state input).Opens) : ∀ call ∈ lastStandard
      (scan.advance tables duiEnabled text position character input) position,
      call.IsFair text whole := by
    apply isFair_lastStandard inside
    intro pending
    have isSlash := follows.pending.mp pending
    exact ⟨follows.behind isSlash, before isSlash closed⟩
  have kept := @paint_kept tables duiEnabled
    (scan.advance tables duiEnabled text position character input)
    position input (label tables duiEnabled text scan position character).isSome
  refine ⟨_, by rw [QScriptHighlighter.step, here, Option.bind_eq_bind, Option.bind_some,
    classified]; rfl, kept.1, kept.2.1, ?_⟩
  by_cases opens : (table scan.state input).Opens
  case pos =>
    obtain ⟨isSlash, first, second⟩ := opening opens
    exact follows.paint_opening here input opens isSlash first second labels _
  case neg =>
    have earlier (isSlash : scan.state = .commentStart1) := before isSlash opens
    by_cases standard : table scan.state input = .standard
    case pos =>
      have code := own (by rw [standard]; decide) opens
      rw [standard] at code
      exact follows.paint_standard here input standard code earlier labels (slash opens) _
    case neg =>
      exact follows.paint_other here input standard opens (fun other => own other opens) earlier
        labels (slash opens) _

/-! ## A line -/

/-- The scan stands where two characters that belong together may begin, in a certain
mode. -/
structure Scan.Stands (text : QString) (whole : List Part) (scan : Scan) (position : Nat)
    (mode : Mode) : Prop where
  follows : scan.Follows text whole position
  isMode : scan.state.mode = mode
  slash : scan.state = .commentStart1 → whole[position - 1]? = some .code
  notOpening : scan.state = .commentStart1 →
    text[position]? ≠ some marks.star ∧ text[position]? ≠ some marks.slash
  notClosing : scan.state = .cCommentEnd1 → text[position]? ≠ some marks.slash

theorem stands_start (state : State) :
    (Scan.start state.atEnd).Stands text whole 0 state.mode.carried := by
  refine ⟨follows_start state, ?_, ?_, ?_, ?_⟩ <;> cases state <;> first | rfl | nofun

/-- An input means for the mode what its character means. -/
theorem enter_of_isOf {character : QChar} {input : Input} (isOf : input.IsOf false character)
    (mode : Mode) : input.enter mode = mode.enter marks character := by
  have quotation := isOf.quotation rfl
  have apostrophe := isOf.apostrophe rfl
  have differ : marks.quote ≠ marks.otherQuote := by decide
  by_cases isQuote : character = marks.quote
  case pos =>
    rw [quotation.mpr isQuote, isQuote]
    cases mode <;> rfl
  case neg =>
    have notQuotation : input ≠ .quotation := fun same => isQuote (quotation.mp same)
    by_cases isOther : character = marks.otherQuote
    case pos =>
      rw [apostrophe.mpr isOther, isOther]
      cases mode <;> rfl
    case neg =>
      have notApostrophe : input ≠ .apostrophe := fun same => isOther (apostrophe.mp same)
      cases mode <;> cases input <;>
        first
        | exact absurd rfl notQuotation
        | exact absurd rfl notApostrophe
        | simp [Input.enter, Mode.enter, isQuote, isOther]

theorem table_pending (state : State) (input : Input) :
    (table state input = .commentStart1 → input = .slash ∧ state.mode = .code) ∧
      (table state input = .cCommentEnd1 → input = .asterix ∧ state.mode = .blockComment) ∧
      ((table state input).Opens → Completes state input) := by
  cases state <;> cases input <;> decide

theorem table_slash {state : State} (isCode : state.mode = .code)
    (settled : state ≠ .commentStart1) : table state .slash = .commentStart1 := by
  cases state <;> first | rfl | exact absurd rfl settled | cases isCode

theorem table_asterix {state : State} (isComment : state.mode = .blockComment) :
    table state .asterix = .cCommentEnd1 := by
  cases state <;> first | rfl | cases isComment

section

variable {scan : Scan} {position : Nat} {mode start : Mode}

/-- A step by a character that completes nothing. -/
theorem Scan.Stands.settle (duiEnabled : Bool) (stands : scan.Stands text whole position mode)
    (isWhole : whole = parts marks start text) {character : QChar}
    (here : text[position]? = some character) {input : Input}
    (classified : QScriptHighlighter.classify tables text scan position character = some input)
    (single : ¬Completes scan.state input)
    (part : whole[position]? =
      some (if input.enter mode = mode then mode.part else .code)) :
    ∃ next, QScriptHighlighter.step tables duiEnabled text scan position = some next ∧
      next.state = table scan.state input ∧
      next.lastWasBackSlash = (!scan.lastWasBackSlash && character = 92) ∧
      next.Follows text whole (position + 1) ∧
      next.state.mode = input.enter mode ∧
      whole[position]? = some (partOf next.state.format) := by
  obtain ⟨isNext, format⟩ := table_single single
  rw [stands.isMode] at isNext format
  have own : whole[position]? = some (partOf (table scan.state input).format) := by
    rw [part, format]
  obtain ⟨next, stepped, state, escaped, follows⟩ :=
    stands.follows.step duiEnabled isWhole here classified
      (fun _ _ => own) (fun isSlash _ => stands.slash isSlash)
      (fun opens => absurd ((table_pending scan.state input).2.2 opens) single)
  exact ⟨next, stepped, state, escaped, follows, state ▸ isNext, state ▸ own⟩

/-- A step by a character that belongs to no pair. -/
theorem Scan.Stands.single (stands : scan.Stands text whole position mode)
    (plain : scan.lastWasBackSlash = false) (isWhole : whole = parts marks start text)
    {character : QChar} (here : text[position]? = some character)
    (noPair : ∀ second, text[position + 1]? = some second →
      mode.enterPair marks character second = none)
    (part : whole[position]? = some (mode.partOf marks character)) :
    ∃ next, QScriptHighlighter.step tables duiEnabled text scan position = some next ∧
      next.Stands text whole (position + 1) (mode.enter marks character) ∧
      next.lastWasBackSlash = decide (character = 92) := by
  obtain ⟨input, classified, isOf⟩ := stands.follows.classify tables character
  rw [plain] at isOf
  have single : ¬Completes scan.state input := by
    rintro (⟨isSlash, isStar | isSecond⟩ | ⟨isStar, isSlash⟩)
    · exact (stands.notOpening isSlash).1 (here.trans (congrArg _ ((isOf.asterix rfl).mp isStar)))
    · exact (stands.notOpening isSlash).2 (here.trans (congrArg _ ((isOf.slash rfl).mp isSecond)))
    · exact stands.notClosing isStar (here.trans (congrArg _ ((isOf.slash rfl).mp isSlash)))
  rw [Mode.partOf, ← enter_of_isOf isOf] at part
  obtain ⟨next, stepped, state, escaped, follows, isMode, own⟩ :=
    stands.settle duiEnabled isWhole here classified single part
  obtain ⟨pendingSlash, pendingStar, -⟩ := table_pending scan.state input
  rw [← state, stands.isMode] at pendingSlash pendingStar
  rw [plain, Bool.not_false, Bool.true_and] at escaped
  refine ⟨next, stepped, ⟨follows, isMode.trans (enter_of_isOf isOf mode), ?_, ?_, ?_⟩, escaped⟩
  · intro isSlash
    rw [Nat.add_sub_cancel, own, isSlash]
    rfl
  · intro isSlash
    obtain ⟨slash, isCode⟩ := pendingSlash isSlash
    have first := (isOf.slash rfl).mp slash
    rw [first, isCode] at noPair
    constructor
    · exact fun second => absurd (noPair _ second) (by decide)
    · exact fun second => absurd (noPair _ second) (by decide)
  · intro isStar second
    obtain ⟨asterix, isComment⟩ := pendingStar isStar
    have first := (isOf.asterix rfl).mp asterix
    rw [first, isComment] at noPair
    exact absurd (noPair _ second) (by decide)

/-- Two steps by a character that is escaped. -/
theorem Scan.Stands.escape (stands : scan.Stands text whole position mode)
    (plain : scan.lastWasBackSlash = false) (isWhole : whole = parts marks start text)
    {second : QChar} (here : text[position]? = some marks.escape)
    (there : text[position + 1]? = some second)
    (part : whole[position]? = some mode.part) (other : whole[position + 1]? = some mode.part) :
    ∃ next last, QScriptHighlighter.step tables duiEnabled text scan position = some next ∧
      QScriptHighlighter.step tables duiEnabled text next (position + 1) = some last ∧
      last.Stands text whole (position + 2) mode ∧
      last.lastWasBackSlash = false := by
  obtain ⟨input, classified, isOf⟩ := stands.follows.classify tables marks.escape
  rw [plain] at isOf
  have notSlash : input ≠ .slash := fun same => absurd ((isOf.slash rfl).mp same) (by decide)
  have notStar : input ≠ .asterix := fun same => absurd ((isOf.asterix rfl).mp same) (by decide)
  have stays : input.enter mode = mode := by
    rw [enter_of_isOf isOf]
    cases mode <;> rfl
  have single : ¬Completes scan.state input := by
    rintro (⟨-, isStar | isSlash⟩ | ⟨-, isSlash⟩)
    · exact notStar isStar
    · exact notSlash isSlash
    · exact notSlash isSlash
  obtain ⟨next, stepped, state, escaped, follows, isMode, -⟩ :=
    stands.settle duiEnabled isWhole here classified single (by rw [if_pos stays, part])
  obtain ⟨pendingSlash, pendingStar, -⟩ := table_pending scan.state input
  rw [← state] at pendingSlash pendingStar
  have between : next.Stands text whole (position + 1) mode :=
    ⟨follows, isMode.trans stays, fun isSlash => absurd (pendingSlash isSlash).1 notSlash,
      fun isSlash => absurd (pendingSlash isSlash).1 notSlash,
      fun isStar => absurd (pendingStar isStar).1 notStar⟩
  rw [plain] at escaped
  obtain ⟨meant, classifiedSecond, isOfSecond⟩ := follows.classify tables second
  have isSep : meant = .sep := isOfSecond.sep (escaped.trans (by decide))
  subst isSep
  have keeps : Input.enter mode .sep = mode := by cases mode <;> rfl
  obtain ⟨last, steppedLast, stateLast, escapedLast, followsLast, isModeLast, -⟩ :=
    between.settle duiEnabled isWhole there classifiedSecond
      (by rintro (⟨-, h | h⟩ | ⟨-, h⟩) <;> cases h) (by rw [if_pos keeps, other])
  obtain ⟨slashLast, starLast, -⟩ := table_pending next.state .sep
  rw [← stateLast] at slashLast starLast
  refine ⟨next, last, stepped, steppedLast,
    ⟨followsLast, isModeLast.trans keeps, fun isSlash => ?_, fun isSlash => ?_,
      fun isStar => ?_⟩, ?_⟩
  · cases (slashLast isSlash).1
  · cases (slashLast isSlash).1
  · cases (starLast isStar).1
  · rw [escapedLast, escaped]
    rfl

/-- Two steps by the characters that begin a comment. -/
theorem Scan.Stands.opening {next : Mode}
    (stands : scan.Stands text whole position .code)
    (plain : scan.lastWasBackSlash = false) (isWhole : whole = parts marks start text)
    {second : QChar} (here : text[position]? = some marks.slash)
    (there : text[position + 1]? = some second)
    (pair : Mode.enterPair marks .code marks.slash second = some next)
    (part : whole[position]? = some .comment) (other : whole[position + 1]? = some .comment) :
    ∃ middle last, QScriptHighlighter.step tables duiEnabled text scan position = some middle ∧
      QScriptHighlighter.step tables duiEnabled text middle (position + 1) = some last ∧
      last.Stands text whole (position + 2) next ∧
      last.lastWasBackSlash = false := by
  obtain ⟨input, classified, isOf⟩ := stands.follows.classify tables marks.slash
  rw [plain] at isOf
  have isSlash : input = .slash := (isOf.slash rfl).mpr rfl
  subst isSlash
  have settled : scan.state ≠ .commentStart1 := fun isSlash =>
    (stands.notOpening isSlash).2 here
  have pending := table_slash stands.isMode settled
  obtain ⟨middle, stepped, state, escaped, follows⟩ :=
    stands.follows.step duiEnabled isWhole here classified
      (fun notSlash => absurd pending notSlash) (fun isSlash => absurd isSlash settled)
      (fun opens => absurd opens (by rw [pending]; decide))
  rw [plain] at escaped
  have plainMiddle : middle.lastWasBackSlash = false := escaped.trans (by decide)
  obtain ⟨meant, classifiedSecond, isOfSecond⟩ := follows.classify tables second
  rw [plainMiddle] at isOfSecond
  have completes : meant = .asterix ∧ next = .blockComment ∨
      meant = .slash ∧ next = .lineComment := by
    rw [Mode.enterPair, if_neg (by decide), if_pos rfl] at pair
    split at pair
    next isStar =>
      cases pair
      exact .inl ⟨(isOfSecond.asterix rfl).mpr isStar, rfl⟩
    next =>
      split at pair
      next isSecond =>
        cases pair
        exact .inr ⟨(isOfSecond.slash rfl).mpr isSecond, rfl⟩
      next => cases pair
  have opens : (table middle.state meant).Opens ∧ (table middle.state meant).mode = next := by
    rw [state, pending]
    rcases completes with ⟨rfl, rfl⟩ | ⟨rfl, rfl⟩ <;> decide
  have unlike {other : State} (closed : ¬other.Opens) : table middle.state meant ≠ other :=
    fun same => closed (same ▸ opens.1)
  obtain ⟨last, steppedLast, stateLast, escapedLast, followsLast⟩ :=
    follows.step duiEnabled isWhole there classifiedSecond
      (fun _ closed => absurd opens.1 closed) (fun _ closed => absurd opens.1 closed)
      (fun _ => ⟨state.trans pending, by rwa [Nat.add_sub_cancel], other⟩)
  have notEscape : second ≠ 92 := by
    rintro rfl
    cases pair
  refine ⟨middle, last, stepped, steppedLast,
    ⟨followsLast, by rw [stateLast, opens.2], fun isSlash => ?_, fun isSlash => ?_,
      fun isStar => ?_⟩, ?_⟩
  · exact absurd (stateLast.symm.trans isSlash) (unlike (by decide))
  · exact absurd (stateLast.symm.trans isSlash) (unlike (by decide))
  · exact absurd (stateLast.symm.trans isStar) (unlike (by decide))
  · rw [escapedLast, plainMiddle, decide_eq_false notEscape]
    rfl

/-- Two steps by the characters that end a comment. -/
theorem Scan.Stands.closing
    (stands : scan.Stands text whole position .blockComment)
    (plain : scan.lastWasBackSlash = false) (isWhole : whole = parts marks start text)
    (here : text[position]? = some marks.star) (there : text[position + 1]? = some marks.slash)
    (part : whole[position]? = some .comment) (other : whole[position + 1]? = some .comment) :
    ∃ middle last, QScriptHighlighter.step tables duiEnabled text scan position = some middle ∧
      QScriptHighlighter.step tables duiEnabled text middle (position + 1) = some last ∧
      last.Stands text whole (position + 2) .code ∧
      last.lastWasBackSlash = false := by
  obtain ⟨input, classified, isOf⟩ := stands.follows.classify tables marks.star
  rw [plain] at isOf
  have isStar : input = .asterix := (isOf.asterix rfl).mpr rfl
  subst isStar
  have pending := table_asterix stands.isMode
  have inComment : scan.state ≠ .commentStart1 := by
    intro isSlash
    have impossible := stands.isMode
    rw [isSlash] at impossible
    cases impossible
  obtain ⟨middle, stepped, state, escaped, follows⟩ :=
    stands.follows.step duiEnabled isWhole here classified
      (fun _ _ => by rw [pending, part]; rfl) (fun isSlash => absurd isSlash inComment)
      (fun opens => absurd opens (by rw [pending]; decide))
  rw [plain] at escaped
  have plainMiddle : middle.lastWasBackSlash = false := escaped.trans (by decide)
  obtain ⟨meant, classifiedSecond, isOfSecond⟩ := follows.classify tables marks.slash
  rw [plainMiddle] at isOfSecond
  have isSlash : meant = .slash := (isOfSecond.slash rfl).mpr rfl
  subst isSlash
  have closes : table middle.state .slash = .cCommentEnd2 := by
    rw [state, pending]
    rfl
  have settled : middle.state ≠ .commentStart1 := by
    rw [state, pending]
    decide
  obtain ⟨last, steppedLast, stateLast, escapedLast, followsLast⟩ :=
    follows.step duiEnabled isWhole there classifiedSecond
      (fun _ _ => by rw [closes, other]; rfl) (fun isSlash => absurd isSlash settled)
      (fun opens => absurd opens (by rw [closes]; decide))
  rw [closes] at stateLast
  refine ⟨middle, last, stepped, steppedLast,
    ⟨followsLast, by rw [stateLast]; rfl, fun isSlash => ?_, fun isSlash => ?_,
      fun isStar => ?_⟩, ?_⟩
  · cases stateLast.symm.trans isSlash
  · cases stateLast.symm.trans isSlash
  · cases stateLast.symm.trans isStar
  · rw [escapedLast, plainMiddle]
    decide

/-- Two steps by characters that belong together. -/
theorem Scan.Stands.pair {next : Mode}
    (stands : scan.Stands text whole position mode)
    (plain : scan.lastWasBackSlash = false) (isWhole : whole = parts marks start text)
    {first second : QChar} (here : text[position]? = some first)
    (there : text[position + 1]? = some second)
    (pair : mode.enterPair marks first second = some next)
    (part : whole[position]? = some (mode.partOfPair marks first))
    (other : whole[position + 1]? = some (mode.partOfPair marks first)) :
    ∃ middle last, QScriptHighlighter.step tables duiEnabled text scan position = some middle ∧
      QScriptHighlighter.step tables duiEnabled text middle (position + 1) = some last ∧
      last.Stands text whole (position + 2) next ∧
      last.lastWasBackSlash = false := by
  by_cases escaped : first = marks.escape
  case pos =>
    rw [Mode.partOfPair, if_pos escaped] at part other
    subst escaped
    rw [Mode.enterPair_escape] at pair
    cases pair
    exact stands.escape plain isWhole here there part other
  case neg =>
    rw [Mode.partOfPair, if_neg escaped] at part other
    rcases Mode.eq_of_enterPair pair escaped with ⟨rfl, rfl, -⟩ | ⟨rfl, rfl, rfl⟩
    · exact stands.opening plain isWhole here there pair part other
    · rw [Mode.enterPair, if_neg escaped] at pair
      split at pair
      next closes =>
        rw [closes.1] at here
        exact stands.closing plain isWhole here there part other
      next => cases pair

/-- The rest of a line. -/
theorem Scan.Stands.run (mode : Mode) (rest : List QChar) {position : Nat} {scan : Scan}
    (stands : scan.Stands text whole position mode)
    (plain : scan.lastWasBackSlash = false) (isWhole : whole = parts marks start text)
    (inside : position ≤ text.length) (isRest : text.drop position = rest)
    (ahead : whole.drop position = parts marks mode rest) :
    ∃ last, (List.range' position rest.length).foldlM
        (QScriptHighlighter.step tables duiEnabled text) scan = some last ∧
      last.Stands text whole text.length (after marks mode rest) := by
  have character (distance : Nat) : text[position + distance]? = rest[distance]? := by
    rw [← List.getElem?_drop, isRest]
  have part (distance : Nat) :
      whole[position + distance]? = (parts marks mode rest)[distance]? := by
    rw [← List.getElem?_drop, ahead]
  have length : rest.length = text.length - position := by
    rw [← isRest, List.length_drop]
  induction mode, rest using parts.induct marks generalizing position scan with
  | case1 mode =>
      have ended : position = text.length := by
        rw [List.length_nil] at length
        omega
      exact ⟨scan, rfl, ended ▸ stands⟩
  | case2 mode last =>
      have none (second : QChar) : text[position + 1]? ≠ some second := by
        rw [character 1]
        exact fun found => by cases found
      obtain ⟨next, stepped, stands, -⟩ := stands.single plain isWhole (character 0)
        (fun second found => absurd found (none second)) (part 0)
      have ended : position + 1 = text.length := by
        rw [List.length_singleton] at length
        omega
      refine ⟨next, ?_, ended ▸ stands⟩
      rw [List.length_singleton, List.range'_one, List.foldlM_cons, stepped]
      rfl
  | case3 mode first second rest next pair ih =>
      rw [parts, pair] at ahead part
      obtain ⟨middle, last, stepped, steppedLast, stands, plainLast⟩ :=
        stands.pair plain isWhole (character 0) (character 1) pair (part 0) (part 1)
      have left : position + 2 ≤ text.length := by
        rw [List.length_cons, List.length_cons] at length
        omega
      have isRestLast : text.drop (position + 2) = rest := by
        rw [← List.drop_drop, isRest]
        rfl
      have aheadLast : whole.drop (position + 2) = parts marks next rest := by
        rw [← List.drop_drop, ahead]
        rfl
      obtain ⟨final, ran, ended⟩ := ih stands plainLast left isRestLast aheadLast
        (fun distance => by rw [← List.getElem?_drop, isRestLast])
        (fun distance => by rw [← List.getElem?_drop, aheadLast])
        (by rw [← isRestLast, List.length_drop])
      refine ⟨final, ?_, by rwa [after, pair]⟩
      rw [List.length_cons, List.length_cons, List.range'_succ, List.range'_succ,
        List.foldlM_cons, stepped, Option.bind_eq_bind, Option.bind_some, List.foldlM_cons,
        steppedLast]
      exact ran
  | case4 mode first second rest pair ih =>
      rw [parts, pair] at ahead part
      have noPair (other : QChar) (found : text[position + 1]? = some other) :
          mode.enterPair marks first other = none := by
        rw [character 1] at found
        cases found
        exact pair
      obtain ⟨next, stepped, stands, escaped⟩ :=
        stands.single plain isWhole (character 0) noPair (part 0)
      have notEscape : first ≠ marks.escape := by
        rintro rfl
        rw [Mode.enterPair_escape] at pair
        cases pair
      have left : position + 1 ≤ text.length := by
        rw [List.length_cons] at length
        omega
      have isRestLast : text.drop (position + 1) = second :: rest := by
        rw [← List.drop_drop, isRest]
        rfl
      have aheadLast : whole.drop (position + 1) =
          parts marks (mode.enter marks first) (second :: rest) := by
        rw [← List.drop_drop, ahead]
        rfl
      obtain ⟨final, ran, ended⟩ := ih stands (escaped.trans (decide_eq_false notEscape)) left
        isRestLast aheadLast (fun distance => by rw [← List.getElem?_drop, isRestLast])
        (fun distance => by rw [← List.getElem?_drop, aheadLast])
        (by rw [← isRestLast, List.length_drop])
      refine ⟨final, ?_, by rwa [after, pair]⟩
      rw [List.length_cons, List.range'_succ, List.foldlM_cons, stepped]
      exact ran

end

/-- The state behind a line stands for its mode. -/
theorem mode_atEnd (state : State) : state.atEnd.mode = state.mode.carried := by
  cases state <;> rfl

/-- A line is gone through without a character outside of it being asked for.  The calls
are fair, and all comments and strings are reached. -/
theorem highlightBlock_eq (tables : CharacterTables) (duiEnabled : Bool) (state : State)
    (text : QString) :
    ∃ block, highlightBlock tables duiEnabled (some state.atEnd) text = some block ∧
      (∀ call ∈ block.calls, call.IsFair text (parts marks state.mode.carried text)) ∧
      (block.formats text.length).map partOf = parts marks state.mode.carried text ∧
      block.currentBlockState.mode = (after marks state.mode.carried text).carried ∧
      block.currentBlockState = block.currentBlockState.atEnd := by
  by_cases empty : text = []
  case pos =>
    subst empty
    refine ⟨_, rfl, List.forall_mem_nil _, rfl, ?_, ?_⟩
    · cases state <;> rfl
    · cases state <;> rfl
  case neg =>
    obtain ⟨last, ran, stands⟩ := @Scan.Stands.run tables duiEnabled text _ _ state.mode.carried
      text _ _ (stands_start state) rfl rfl (Nat.zero_le _) rfl rfl
    have words := @isFair_keyword tables duiEnabled _ _ _ _ (Nat.le_refl _)
      stands.follows.fits stands.follows.isCode
    have fair : ∀ call ∈ last.calls ++
        (highlightKeyword tables duiEnabled text.length last.buffer).toList,
        call.IsFair text (parts marks state.mode.carried text) := by
      intro call member
      rcases List.mem_append.mp member with old | isWord
      · exact stands.follows.fair call old
      · exact words call isWord
    refine ⟨⟨_, last.state.atEnd, last.firstNonSpace⟩, ?_, fair, ?_, ?_, ?_⟩
    · rw [highlightBlock, if_neg empty, onBlockStart, Option.getD_some, List.range_eq_range', ran]
      rfl
    · have reached := parts_of_honest (fun call member => (fair call member).honest) ?_
      · rwa [length_parts] at reached
      · intro position part found inside
        have bound : position < text.length := by
          have known := (List.getElem?_eq_some_iff.mp found).1
          rwa [length_parts] at known
        have settled (isSlash : last.state = .commentStart1) : position + 1 < text.length := by
          rcases Nat.lt_or_eq_of_le (Nat.succ_le_of_lt bound) with before | isLast
          · exact before
          · have isCode := stands.slash isSlash
            rw [← isLast, Nat.succ_sub_one, found] at isCode
            exact absurd (Option.some.inj isCode) inside
        obtain ⟨call, member, covers⟩ :=
          stands.follows.reached position part bound settled found inside
        exact ⟨call, List.mem_append_left _ member, covers⟩
    · rw [mode_atEnd, stands.isMode]
    · cases last.state <;> rfl

theorem highlightDocument_atEnd (tables : CharacterTables) (duiEnabled : Bool)
    (lines : List QString) (state : State) :
    (highlightDocument tables duiEnabled (some state.atEnd) lines).map
        (List.map (List.map partOf)) =
      some (documentParts marks state.mode.carried lines) := by
  induction lines generalizing state with
  | nil => rfl
  | cons text lines ih =>
      obtain ⟨block, highlighted, -, shown, mode, atEnd⟩ :=
        highlightBlock_eq tables duiEnabled state text
      have rest := ih block.currentBlockState
      rw [← mode_atEnd, ← atEnd, mode] at rest
      obtain ⟨formats, found, same⟩ := Option.map_eq_some_iff.mp rest
      rw [highlightDocument, highlighted, Option.bind_eq_bind, Option.bind_some, found,
        documentParts, ← shown, ← same]
      rfl

/-- In any document the characters that are shown as comments and as strings are those
that belong to comments and strings. -/
theorem highlightDocument_parts (tables : CharacterTables) (duiEnabled : Bool)
    (lines : List QString) :
    (highlightDocument tables duiEnabled none lines).map (List.map (List.map partOf)) =
      some (documentParts marks .code lines) := by
  have same : highlightDocument tables duiEnabled none lines =
      highlightDocument tables duiEnabled (some State.standard.atEnd) lines := by
    cases lines <;> rfl
  rw [same]
  exact highlightDocument_atEnd tables duiEnabled lines .standard

end

end QScriptHighlighter

end Hooq

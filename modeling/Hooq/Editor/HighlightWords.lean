import Hooq.Editor.Highlighting

/-!
# What the highlighter takes for words

The formats of keywords and types are set on whole words only, and the format of labels on
what stands in front of a colon, as far back as a label goes.
-/

namespace Hooq

namespace QScriptHighlighter

open Library.Comments

/-! ## Words and labels of a line -/

/-- A character means nothing by itself behind an odd number of backslashes. -/
def isEscaped (text : QString) (position : Nat) : Bool :=
  ((text.take position).reverse.takeWhile fun character => character = 92).length % 2 = 1

/-- The characters of a line between two positions. -/
def slice (text : QString) (start stop : Nat) : QString :=
  (text.take stop).drop start

section

variable (tables : CharacterTables) (duiEnabled : Bool) (text : QString)

def isWordStart (character : QChar) : Bool :=
  isLetter tables character || character = 95

def isWordPart (character : QChar) : Bool :=
  isWordStart tables character || character ∈ numbers

/-- No letter or underscore stands in front, unless it is escaped. -/
def BeginsWord (start : Nat) : Prop :=
  ∀ character, start ≠ 0 → text[start - 1]? = some character →
    isWordStart tables character = true → isEscaped text (start - 1) = true

/-- A word is as long as can be. -/
structure IsWord (start stop : Nat) : Prop where
  nonempty : start < stop
  parts : ∀ character ∈ slice text start stop, isWordPart tables character = true
  front : BeginsWord tables text start
  back : ∀ character, text[stop]? = some character → isWordPart tables character = false

/-- A label ends at a colon that stands alone and is not behind a question mark.  It is a
word, as long as can be, and white space behind it. -/
structure IsLabel (start stop : Nat) (word : QString) : Prop where
  colon : text[stop]? = some 58
  plain : isEscaped text stop = false
  alone : (stop ≠ 0 → text[stop - 1]? ≠ some 58) ∧ text[stop + 1]? ≠ some 58
  unasked : ∀ other < stop, text[other]? = some 63 → isEscaped text other = true
  split : ∃ front blank, text.take stop = front ++ word ++ blank ∧ front.length = start ∧
    (∀ character ∈ word, isLabelPart tables character = true) ∧
    (∀ character ∈ blank, QString.isSpace character = true) ∧
    ∀ character ∈ front.getLast?, isLabelPart tables character = false ∧
      (word = [] → QString.isSpace character = false)

/-- The call sets the format from one position up to another. -/
def Call.Spans (call : Call) (start stop : Nat) : Prop :=
  call.start = start ∧ call.start + call.count = stop

/-- Keywords, types and labels are what the call takes them for. -/
structure Call.IsSound (call : Call) : Prop where
  keyword : call.format = some .keyword → ∃ start stop, call.Spans start stop ∧
    (IsWord tables text start stop ∧ slice text start stop ∈ qscriptKeywords ∨
      duiEnabled = true ∧ IsLabel tables text start stop (QString.ofString "id"))
  type : call.format = some .type → ∃ start stop, call.Spans start stop ∧
    IsWord tables text start stop ∧ ∃ first, text[start]? = some first ∧
      (duiEnabled = true ∧ isUpper tables first = true ∨ ¬duiEnabled = true ∧ first = 81)
  label : call.format = some .label → ∃ start stop word, call.Spans start stop ∧
    IsLabel tables text start stop word

/-- What the loop knows at a position. -/
structure Scan.Reads (scan : Scan) (position : Nat) : Prop where
  inside : position ≤ text.length
  lastChar : position ≠ 0 → text[position - 1]? = some scan.lastChar
  escaped : scan.lastWasBackSlash = isEscaped text position
  unasked : scan.questionMark = false →
    ∀ other < position, text[other]? = some 63 → isEscaped text other = true
  fits : scan.buffer.length ≤ position
  isSlice : slice text (position - scan.buffer.length) position = scan.buffer
  parts : ∀ character ∈ scan.buffer, isWordPart tables character = true
  settled : scan.buffer ≠ [] → scan.state = .standard ∧ scan.lastWasBackSlash = false
  begins : table scan.state .alpha = .standard →
    BeginsWord tables text (position - scan.buffer.length)
  sound : ∀ call ∈ scan.calls, call.IsSound tables duiEnabled text

variable {tables duiEnabled text}

/-! ## Characters -/

theorem isEscaped_succ {position : Nat} {character : QChar}
    (here : text[position]? = some character) :
    isEscaped text (position + 1) = (!isEscaped text position && character = 92) := by
  rw [isEscaped, isEscaped, List.take_add_one, here, Option.toList_some, List.reverse_append,
    List.reverse_singleton, List.singleton_append, List.takeWhile_cons]
  by_cases isBackSlash : character = 92
  · rw [if_pos (decide_eq_true isBackSlash), List.length_cons, decide_eq_true isBackSlash,
      Bool.and_true, ← decide_not]
    exact decide_eq_decide.mpr (by omega)
  · rw [if_neg (by rwa [decide_eq_true_eq]), decide_eq_false isBackSlash, Bool.and_false]
    rfl

theorem slice_succ {start position : Nat} {character : QChar} (fits : start ≤ position)
    (here : text[position]? = some character) :
    slice text start (position + 1) = slice text start position ++ [character] := by
  have inside : position < text.length := (List.getElem?_eq_some_iff.mp here).1
  rw [slice, slice, List.take_add_one, here, Option.toList_some, List.drop_append_of_le_length]
  rwa [List.length_take, Nat.min_eq_left inside.le]

theorem head_slice {start stop : Nat} (nonempty : start < stop) :
    (slice text start stop).head? = text[start]? := by
  rw [slice, List.head?_drop, List.getElem?_take_of_lt nonempty]

theorem slice_self (text : QString) (position : Nat) : slice text position position = [] :=
  List.drop_eq_nil_of_le (List.length_take_le _ _)

/-- A letter is none of the characters that the loop looks for. -/
theorem isLetter_ascii {character : QChar} (ascii : character < 0x80)
    (other : (Category.ascii character).isLetter = false) :
    isLetter tables character = false := by
  rw [isLetter, tables.category_ascii ascii, other]

theorem plain_of_isWordPart {character : QChar}
    (isPart : isWordPart tables character = true) : character ≠ 92 := by
  rintro rfl
  rw [isWordPart, isWordStart, isLetter_ascii (by decide) (by decide)] at isPart
  exact absurd isPart (by decide)

/-- A digit begins a number or belongs to a word. -/
theorem classifyDigit_cases {scan : Scan} {position : Nat} {input : Input}
    (classified : classifyDigit text scan position = some input) :
    input = .alpha ∨ input = .number := by
  have otherwise (condition : Prop) [Decidable condition] :
      (if condition then Input.alpha else .number) = .alpha ∨
        (if condition then Input.alpha else .number) = .number := by
    split
    · exact .inl rfl
    · exact .inr rfl
  rw [classifyDigit] at classified
  split at classified
  · split at classified
    · split at classified
      · cases classified
      · obtain ⟨before, -, rfl⟩ := Option.map_eq_some_iff.mp classified
        split
        · exact otherwise _
        · exact .inl rfl
    · exact .inl (Option.some.inj classified).symm
  · exact Option.some.inj classified ▸ otherwise _

/-- A choice that is not the first one. -/
theorem of_ite {condition : Prop} [Decidable condition] {first second : Option Input}
    {input : Input} (chosen : (if condition then first else second) = some input)
    (other : first ≠ some input) : ¬condition ∧ second = some input := by
  split at chosen
  case isTrue => exact absurd chosen other
  case isFalse isOther => exact ⟨isOther, chosen⟩

/-- Only a character that belongs to words is read as one. -/
theorem classify_alpha {scan : Scan} {position : Nat} {character : QChar}
    (classified : classify tables text scan position character = some .alpha) :
    scan.lastWasBackSlash = false ∧ isWordPart tables character = true := by
  rw [classify] at classified
  obtain ⟨plain, classified⟩ := of_ite classified (by decide)
  refine ⟨eq_false_of_ne_true plain, ?_⟩
  rw [isWordPart, isWordStart, Bool.or_eq_true, decide_eq_true_eq]
  obtain ⟨-, behindStar⟩ := of_ite classified (by decide)
  obtain ⟨-, behindSlash⟩ := of_ite behindStar (by decide)
  obtain ⟨-, behindOpening⟩ := of_ite behindSlash (by decide)
  obtain ⟨-, behindClosing⟩ := of_ite behindOpening (by decide)
  obtain ⟨-, behindHash⟩ := of_ite behindClosing (by decide)
  obtain ⟨-, behindQuotation⟩ := of_ite behindHash (by decide)
  obtain ⟨-, behindApostrophe⟩ := of_ite behindQuotation (by decide)
  obtain ⟨-, behindSpace⟩ := of_ite behindApostrophe (by decide)
  split at behindSpace
  case isTrue isDigit => exact .inr isDigit
  case isFalse =>
    obtain ⟨-, behindColon⟩ := of_ite behindSpace (by decide)
    split at behindColon
    case isTrue isStart => exact .inl isStart
    case isFalse => cases behindColon

theorem classify_wordStart {scan : Scan} {position : Nat} {character : QChar} {input : Input}
    (classified : classify tables text scan position character = some input)
    (plain : scan.lastWasBackSlash = false) (isStart : isWordStart tables character = true) :
    input = .alpha := by
  have other (mark : QChar) (ascii : mark < 0x80)
      (notLetter : (Category.ascii mark).isLetter = false) (notUnderscore : mark ≠ 95) :
      character ≠ mark := by
    rintro rfl
    rw [isWordStart, isLetter_ascii ascii notLetter, Bool.false_or, decide_eq_true_eq] at isStart
    exact notUnderscore isStart
  have none (marks : List QChar)
      (all : marks.all (fun mark => mark < 0x80 ∧ (Category.ascii mark).isLetter = false ∧
        mark ≠ 95) = true) : character ∉ marks := by
    intro member
    obtain ⟨ascii, notLetter, notUnderscore⟩ :=
      of_decide_eq_true (List.all_eq_true.mp all character member)
    exact other character ascii notLetter notUnderscore rfl
  rw [classify, if_neg (by rw [plain]; exact Bool.false_ne_true),
    if_neg (other 42 (by decide) (by decide) (by decide)),
    if_neg (other 47 (by decide) (by decide) (by decide)), if_neg (none _ (by decide)),
    if_neg (none _ (by decide)), if_neg (other 35 (by decide) (by decide) (by decide)),
    if_neg (other 34 (by decide) (by decide) (by decide)),
    if_neg (other 39 (by decide) (by decide) (by decide)),
    if_neg (other 32 (by decide) (by decide) (by decide)), if_neg (none numbers (by decide)),
    if_neg (other 58 (by decide) (by decide) (by decide)), ← isWordStart,
    if_pos isStart] at classified
  exact (Option.some.inj classified).symm

theorem classify_number {scan : Scan} {position : Nat} {character : QChar} {input : Input}
    (classified : classify tables text scan position character = some input)
    (plain : scan.lastWasBackSlash = false) (isDigit : character ∈ numbers) :
    input = .alpha ∨ input = .number := by
  have other (mark : QChar) (notDigit : mark ∉ numbers) : character ≠ mark :=
    fun same => notDigit (same ▸ isDigit)
  have none (marks : List QChar) (notDigits : marks.all (fun mark => mark ∉ numbers) = true) :
      character ∉ marks :=
    fun member => of_decide_eq_true (List.all_eq_true.mp notDigits character member) isDigit
  rw [classify, if_neg (by rw [plain]; exact Bool.false_ne_true), if_neg (other 42 (by decide)),
    if_neg (other 47 (by decide)), if_neg (none _ (by decide)), if_neg (none _ (by decide)),
    if_neg (other 35 (by decide)), if_neg (other 34 (by decide)), if_neg (other 39 (by decide)),
    if_neg (other 32 (by decide)), if_pos isDigit] at classified
  exact classifyDigit_cases classified

/-- Going back over white space and then over a word. -/
theorem split_backwards (isBlank isPart : QChar → Bool) (before : QString) :
    ∃ front blank, before.reverse =
        front ++ ((before.dropWhile isBlank).takeWhile isPart).reverse ++ blank ∧
      front.length + (before.takeWhile isBlank ++
        (before.dropWhile isBlank).takeWhile isPart).length = before.length ∧
      (∀ character ∈ blank, isBlank character = true) ∧
      ∀ character ∈ front.getLast?, isPart character = false ∧
        (((before.dropWhile isBlank).takeWhile isPart).reverse = [] →
          isBlank character = false) := by
  have joined : before.takeWhile isBlank ++ ((before.dropWhile isBlank).takeWhile isPart ++
      (before.dropWhile isBlank).dropWhile isPart) = before := by
    rw [List.takeWhile_append_dropWhile, List.takeWhile_append_dropWhile]
  refine ⟨((before.dropWhile isBlank).dropWhile isPart).reverse,
    (before.takeWhile isBlank).reverse, ?_, ?_, ?_, ?_⟩
  · rw [← List.reverse_append, ← List.reverse_append, joined]
  · rw [List.length_reverse, Nat.add_comm, ← List.length_append, List.append_assoc, joined]
  · intro character member
    exact List.mem_takeWhile_imp (List.mem_reverse.mp member)
  · intro character isLast
    rw [List.getLast?_reverse, Option.mem_def] at isLast
    have notPart := List.head?_dropWhile_not isPart (before.dropWhile isBlank)
    rw [isLast] at notPart
    refine ⟨notPart, fun none => ?_⟩
    have whole : (before.dropWhile isBlank).takeWhile isPart ++
        (before.dropWhile isBlank).dropWhile isPart = before.dropWhile isBlank :=
      List.takeWhile_append_dropWhile
    rw [List.reverse_eq_nil_iff.mp none, List.nil_append] at whole
    rw [whole] at isLast
    have notBlank := List.head?_dropWhile_not isBlank before
    rwa [isLast] at notBlank

/-! ## What the calls say -/

/-- A call that sets none of the formats of words. -/
theorem isSound_other {call : Call} (other : call.format = none ∨
    call.format ∈ [some .comment, some .string, some .number, some .preProcessor]) :
    call.IsSound tables duiEnabled text := by
  constructor <;>
    · intro isFormat
      rw [isFormat] at other
      exact absurd other (by decide)

/-- What a state sets by itself is no format of words. -/
theorem format_other (state : State) : state.format = none ∨
    state.format ∈ [some .comment, some .string, some .number, some .preProcessor] := by
  cases state <;> decide

/-- The calls for a character, but for its label: formats that are not those of words, and
the word that ends in front of it. -/
theorem calls_paint {scan : Scan} {position : Nat} {input : Input} {lookAtBinding : Bool}
    {call : Call}
    (member : call ∈ (paint tables duiEnabled scan position input lookAtBinding).calls) :
    call ∈ scan.calls ∨ call.IsSound tables duiEnabled text ∨
      scan.state = .standard ∧ input ≠ .alpha ∧
        highlightKeyword tables duiEnabled position scan.buffer = some call := by
  have plain {start count : Int} (isOwn : call ∈ [⟨start, count, scan.state.format⟩]) :
      call.IsSound tables duiEnabled text := by
    rw [List.mem_singleton.mp isOwn]
    exact isSound_other (format_other scan.state)
  have slash (isSlash : call ∈ lastStandard scan position) :
      call.IsSound tables duiEnabled text := by
    rw [lastStandard] at isSlash
    split at isSlash
    · rw [List.mem_singleton.mp isSlash]
      exact isSound_other (.inl rfl)
    · cases isSlash
  by_cases standard : scan.state = .standard
  case pos =>
    rw [paint, standard] at member
    simp only [List.mem_append] at member
    rcases member with ((old | isOwn) | isSlash) | isWord
    · exact .inl old
    · rw [List.mem_singleton.mp isOwn]
      exact .inr (.inl (isSound_other (.inl rfl)))
    · exact .inr (.inl (slash isSlash))
    · split at isWord
      case isTrue closed =>
        exact .inr (.inr ⟨standard, closed.1.2, Option.mem_toList.mp isWord⟩)
      case isFalse => cases isWord
  case neg =>
    by_cases pending : scan.state = .commentStart1
    case pos =>
      rw [paint_slash pending] at member
      exact (List.mem_append.mp member).imp_right fun isSlash => .inl (slash isSlash)
    case neg =>
      by_cases opens : scan.state.Opens
      case pos =>
        rw [paint_opens opens] at member
        refine (List.mem_append.mp member).imp_right fun isOpening => .inl ?_
        rw [List.mem_singleton.mp isOpening]
        exact isSound_other (.inr List.mem_cons_self)
      case neg =>
        rw [paint_other standard pending opens] at member
        rcases List.mem_append.mp member with earlier | isOwn
        · exact (List.mem_append.mp earlier).imp_right fun isSlash => .inl (slash isSlash)
        · exact .inr (.inl (plain isOwn))

/-- Letters and digits of code are kept, anything else ends the word. -/
theorem buffer_paint (scan : Scan) (position : Nat) (character : QChar) (input : Input)
    (lookAtBinding : Bool) :
    (paint tables duiEnabled (scan.advance tables duiEnabled text position character input)
        position input lookAtBinding).buffer =
      if table scan.state input = .standard ∧ input = .alpha then
        scan.buffer ++ [character]
      else
        [] := by
  have state : (scan.advance tables duiEnabled text position character input).state =
    table scan.state input := rfl
  by_cases standard : table scan.state input = .standard
  case pos =>
    rw [paint, state, standard]
    by_cases alpha : input = .alpha
    · simp [Scan.advance, alpha]
    · cases word : scan.buffer with
      | nil => simp [Scan.advance, alpha, word]
      | cons first rest => simp [Scan.advance, alpha, word]
  case neg =>
    rw [if_neg (fun both => standard both.1)]
    by_cases pending : table scan.state input = .commentStart1
    case pos => rw [paint_slash pending]
    case neg =>
      by_cases opens : (table scan.state input).Opens
      case pos => rw [paint_opens opens]
      case neg => rw [paint_other standard pending opens]

theorem questionMark_paint (scan : Scan) (position : Nat) (input : Input)
    (lookAtBinding : Bool) :
    (paint tables duiEnabled scan position input lookAtBinding).questionMark =
      scan.questionMark := by
  rw [paint]
  split <;> rfl

/-! ## The loop -/

theorem reads_start (state : State) : (Scan.start state).Reads tables duiEnabled text 0 where
  inside := Nat.zero_le _
  lastChar := fun moved => absurd rfl moved
  escaped := rfl
  unasked := fun _ _ none => absurd none (Nat.not_lt_zero _)
  fits := Nat.le_refl 0
  isSlice := rfl
  parts := List.forall_mem_nil _
  settled := fun some => absurd rfl some
  begins := fun _ _ moved => absurd rfl moved
  sound := List.forall_mem_nil _

/-- A word that is looked up is a whole one. -/
theorem Scan.Reads.isSound_keyword {scan : Scan} {position : Nat}
    (reads : scan.Reads tables duiEnabled text position)
    (ended : scan.buffer ≠ [] → ∀ character, text[position]? = some character →
      isWordPart tables character = false) {call : Call}
    (found : highlightKeyword tables duiEnabled position scan.buffer = some call) :
    call.IsSound tables duiEnabled text := by
  obtain ⟨nonempty, format, rfl, kind⟩ := highlightKeyword_cases found
  have fits := reads.fits
  have length := List.length_pos_iff.mpr nonempty
  have spans : Call.Spans ⟨position - scan.buffer.length, scan.buffer.length, some format⟩
      (position - scan.buffer.length) position := by
    simp only [Call.Spans]
    omega
  have isWord : IsWord tables text (position - scan.buffer.length) position := by
    refine ⟨by omega, ?_, reads.begins ?_, ended nonempty⟩
    · rw [reads.isSlice]
      exact reads.parts
    · rw [(reads.settled nonempty).1]
      rfl
  rcases kind with ⟨rfl, first, isFirst, isType⟩ | ⟨rfl, isKeyword⟩
  · constructor
    case type =>
      refine fun _ => ⟨_, _, spans, isWord, first, ?_, isType⟩
      rw [← isFirst, ← head_slice isWord.nonempty, reads.isSlice]
    all_goals
      intro other
      cases other
  · constructor
    case keyword =>
      refine fun _ => ⟨_, _, spans, .inl ⟨isWord, ?_⟩⟩
      rwa [reads.isSlice]
    all_goals
      intro other
      cases other

/-- What is marked in front of a colon is a label. -/
theorem Scan.Reads.isSound_label {scan : Scan} {position : Nat}
    (reads : scan.Reads tables duiEnabled text position) {character : QChar}
    (here : text[position]? = some character) {call : Call}
    (found : label tables duiEnabled text scan position character = some call) :
    call.IsSound tables duiEnabled text := by
  obtain ⟨⟨plain, rfl, -, unasked, alone, aloneBehind⟩, format, rfl, kind⟩ := label_cases found
  have fits := length_beforeColon tables text position
  have spans : Call.Spans ⟨(position - (beforeColon tables text position).length : Nat),
      position - (position - (beforeColon tables text position).length : Nat),
      some format⟩ (position - (beforeColon tables text position).length) position :=
    ⟨rfl, by simp only; omega⟩
  have isLabel : IsLabel tables text (position - (beforeColon tables text position).length)
      position (((text.take position).reverse.dropWhile QString.isSpace).takeWhile
        (isLabelPart tables)).reverse := by
    refine ⟨here, ?_, ⟨fun behind => ?_, ?_⟩, reads.unasked (eq_false_of_ne_true unasked), ?_⟩
    · rw [← reads.escaped]
      exact eq_false_of_ne_true plain
    · rw [reads.lastChar behind]
      exact fun same => alone (Option.some.inj same)
    · intro isColon
      rw [isColon] at aloneBehind
      exact aloneBehind rfl
    · obtain ⟨front, blank, split, length, isBlank, ends⟩ := split_backwards QString.isSpace
        (isLabelPart tables) (text.take position).reverse
      rw [List.reverse_reverse] at split
      rw [List.length_reverse, List.length_take, Nat.min_eq_left reads.inside] at length
      refine ⟨front, blank, split, Nat.eq_sub_of_add_eq length, ?_, isBlank, ends⟩
      intro character member
      exact List.mem_takeWhile_imp (List.mem_reverse.mp member)
  rcases kind with rfl | ⟨rfl, isEnabled, isId⟩
  · constructor
    case label => exact fun _ => ⟨_, _, _, spans, isLabel⟩
    all_goals
      intro other
      cases other
  · rw [isId] at isLabel
    constructor
    case keyword => exact fun _ => ⟨_, _, spans, .inr ⟨isEnabled, isLabel⟩⟩
    all_goals
      intro other
      cases other

/-- A character ends the word in front of it, if it does not belong to it. -/
theorem Scan.Reads.ends {scan : Scan} {position : Nat}
    (reads : scan.Reads tables duiEnabled text position) {character : QChar} {input : Input}
    (classified : classify tables text scan position character = some input)
    (standard : table scan.state input = .standard) (other : input ≠ .alpha)
    (nonempty : scan.buffer ≠ []) : isWordPart tables character = false := by
  obtain ⟨isStandard, plain⟩ := reads.settled nonempty
  rw [isWordPart, Bool.or_eq_false_iff, decide_eq_false_iff_not]
  constructor
  · exact eq_false_of_ne_true fun isStart => other (classify_wordStart classified plain isStart)
  · intro isDigit
    rcases classify_number classified plain isDigit with isAlpha | isNumber
    · exact other isAlpha
    · rw [isStandard, isNumber] at standard
      cases standard

/-- Where a word may go on, it has gone on before. -/
theorem table_alpha (state : State)
    (standard : table (table state .alpha) .alpha = .standard) :
    table state .alpha = .standard := by
  cases state <;> first | rfl | cases standard

/-- A word goes on, or another one may begin behind the character. -/
theorem Scan.Reads.begins_succ {scan : Scan} {position : Nat}
    (reads : scan.Reads tables duiEnabled text position) {character : QChar}
    (here : text[position]? = some character) {input : Input}
    (classified : classify tables text scan position character = some input)
    (ended : ¬(table scan.state input = .standard ∧ input = .alpha))
    (standard : table (table scan.state input) .alpha = .standard) :
    BeginsWord tables text (position + 1) := by
  intro other _ before isStart
  rw [Nat.add_sub_cancel, here] at before
  rw [Nat.add_sub_cancel, ← reads.escaped]
  by_contra plain
  have isAlpha := classify_wordStart classified (eq_false_of_ne_true plain)
    (Option.some.inj before ▸ isStart)
  subst isAlpha
  exact ended ⟨table_alpha scan.state standard, rfl⟩

/-- What a step makes known. -/
theorem Scan.Reads.step {scan next : Scan} {position : Nat}
    (reads : scan.Reads tables duiEnabled text position)
    (stepped : QScriptHighlighter.step tables duiEnabled text scan position = some next) :
    next.Reads tables duiEnabled text (position + 1) := by
  rw [QScriptHighlighter.step, Option.bind_eq_bind, Option.bind_eq_some_iff] at stepped
  obtain ⟨character, here, stepped⟩ := stepped
  rw [Option.bind_eq_bind, Option.bind_eq_some_iff] at stepped
  obtain ⟨input, classified, stepped⟩ := stepped
  cases stepped
  have inside : position < text.length := (List.getElem?_eq_some_iff.mp here).1
  have fits := reads.fits
  obtain ⟨state, escaped, lastChar⟩ := @paint_kept tables duiEnabled
    (scan.advance tables duiEnabled text position character input)
    position input (label tables duiEnabled text scan position character).isSome
  have buffer := @buffer_paint tables duiEnabled text scan position character input
    (label tables duiEnabled text scan position character).isSome
  constructor
  case inside => exact inside
  case lastChar =>
    intro _
    rw [lastChar, Nat.add_sub_cancel, here]
    rfl
  case escaped =>
    rw [escaped, isEscaped_succ here, ← reads.escaped]
    rfl
  case unasked =>
    rw [questionMark_paint]
    intro unasked other earlier isMark
    have none : (scan.questionMark || !scan.lastWasBackSlash && character = 63) = false := unasked
    rw [Bool.or_eq_false_iff] at none
    by_cases last : other = position
    case pos =>
      rw [last, here] at isMark
      rw [last, ← reads.escaped]
      simpa [Option.some.inj isMark] using none.2
    case neg => exact reads.unasked none.1 other (by omega) isMark
  case settled =>
    rw [buffer, state, escaped]
    intro nonempty
    split at nonempty
    case isTrue isAlpha =>
      refine ⟨isAlpha.1, ?_⟩
      rw [isAlpha.2] at classified
      exact Bool.and_eq_false_iff.mpr
        (.inr (decide_eq_false (plain_of_isWordPart (classify_alpha classified).2)))
    case isFalse => exact absurd rfl nonempty
  case begins =>
    rw [buffer, state]
    intro standard
    split
    case isTrue isAlpha =>
      rw [List.length_append, List.length_singleton, Nat.add_sub_add_right]
      apply reads.begins
      rw [← isAlpha.2]
      exact isAlpha.1
    case isFalse ended => exact reads.begins_succ here classified ended standard
  case sound =>
    intro call member
    rcases calls_paint member with earlier | isSound | ⟨standard, other, isWord⟩
    · rcases List.mem_append.mp earlier with old | isLabel
      · exact reads.sound call old
      · exact reads.isSound_label here (Option.mem_toList.mp isLabel)
    · exact isSound
    · rw [Scan.advance, if_neg other] at isWord
      refine reads.isSound_keyword (fun nonempty following found => ?_) isWord
      rw [here] at found
      exact Option.some.inj found ▸ reads.ends classified standard other nonempty
  all_goals
    rw [buffer]
    split
  case fits.isTrue =>
    rw [List.length_append, List.length_singleton]
    exact Nat.succ_le_succ fits
  case fits.isFalse => exact Nat.zero_le _
  case isSlice.isTrue =>
    rw [List.length_append, List.length_singleton, Nat.add_sub_add_right,
      slice_succ (Nat.sub_le ..) here, reads.isSlice]
  case isSlice.isFalse => exact slice_self _ _
  case parts.isTrue isAlpha =>
    rw [isAlpha.2] at classified
    intro part member
    rcases List.mem_append.mp member with old | isLast
    · exact reads.parts part old
    · rw [List.mem_singleton.mp isLast]
      exact (classify_alpha classified).2
  case parts.isFalse => exact List.forall_mem_nil _

/-- What the loop makes known of a line. -/
theorem reads_foldlM (state : State) {scan : Scan} {position : Nat}
    (ran : (List.range position).foldlM (step tables duiEnabled text) (Scan.start state) =
      some scan) :
    scan.Reads tables duiEnabled text position := by
  induction position generalizing scan with
  | zero =>
      cases ran
      exact reads_start state
  | succ position ih =>
      rw [List.range_succ, List.foldlM_append] at ran
      obtain ⟨before, earlier, stepped⟩ := Option.bind_eq_some_iff.mp ran
      obtain ⟨last, stepped, same⟩ := Option.bind_eq_some_iff.mp stepped
      cases same
      exact (ih earlier).step stepped

theorem isSound_of_highlightBlock {state : Option State} {block : Block}
    (highlighted : highlightBlock tables duiEnabled state text = some block) :
    ∀ call ∈ block.calls, call.IsSound tables duiEnabled text := by
  rw [highlightBlock] at highlighted
  split at highlighted
  case isTrue =>
    cases highlighted
    exact List.forall_mem_nil _
  case isFalse =>
    obtain ⟨scan, ran, ended⟩ := Option.bind_eq_some_iff.mp highlighted
    cases ended
    have reads := reads_foldlM _ ran
    intro call member
    rcases List.mem_append.mp member with old | isWord
    · exact reads.sound call old
    · refine reads.isSound_keyword (fun _ character behind => ?_) (Option.mem_toList.mp isWord)
      rw [List.getElem?_eq_none (Nat.le_refl _)] at behind
      cases behind

/-- Every call for a line stays in the line and says of no character that it is a comment
or a string when it is not.  The formats of keywords and types are set on whole words only,
the format of labels, or of `id`, on labels. -/
theorem highlightBlock_sound (tables : CharacterTables) (duiEnabled : Bool) (state : State)
    (text : QString) :
    ∃ block, highlightBlock tables duiEnabled (some state.atEnd) text = some block ∧
      ∀ call ∈ block.calls, call.IsFair text (parts marks state.mode.carried text) ∧
        call.IsSound tables duiEnabled text := by
  obtain ⟨block, highlighted, fair, -⟩ := highlightBlock_eq tables duiEnabled state text
  exact ⟨block, highlighted, fun call member =>
    ⟨fair call member, isSound_of_highlightBlock highlighted call member⟩⟩

end

end QScriptHighlighter

end Hooq

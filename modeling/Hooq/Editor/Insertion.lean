import Hooq.Editor.ReadBack
import Hooq.Editor.TextDocument

/-!
# Inserted lines

A line is inserted in front of the block with the number of the current line: lines are
counted from one, and blocks from zero.
-/

namespace Hooq

open Library.StringLiteral

namespace ScriptEditor

/-- `insertLine`. -/
def insertLine (document : QTextDocument) (currentLine : Nat) (text : QString) : QTextDocument :=
  document.insertText (document.blockPosition currentLine) text

section

variable (tables : CharacterTables) {Double : Type}

def insertPropertyAssert (document : QTextDocument) (currentLine : Nat)
    (objectPath property : QString) (value : PropertyValue Double) : QTextDocument :=
  insertLine document currentLine (propertyAssert tables objectPath property value)

/-- One line has come in behind the given one, and it compares the property. -/
def InsertsComparison (toDouble : QString → Double) (before after : QTextDocument) (line : Nat)
    (path property : QString) (value : PropertyValue Double) : Prop :=
  ∃ text, after.blocks = before.blocks.take line ++ text :: before.blocks.drop line ∧
    Compares tables toDouble text path property value

end

/-! ## What a line does to the blocks -/

theorem documentText_of_inBlock {text : QString}
    (inBlock : ∀ character ∈ text, isBlockEnd character = false) : documentText text = text := by
  induction text with
  | nil => rfl
  | cons first rest ih =>
      have here := inBlock first List.mem_cons_self
      have noReturn : first ≠ 0x0D := by
        rintro rfl
        exact absurd here (by decide)
      rw [documentText, if_neg fun both => noReturn both.1, here, ih fun character member =>
        inBlock character (List.mem_cons_of_mem first member)]
      rfl

theorem inBlock_of_documentText {text : QString} (free : paragraphSeparator ∉ documentText text) :
    ∀ character ∈ text, isBlockEnd character = false := by
  induction text with
  | nil => exact List.forall_mem_nil _
  | cons first rest ih =>
      rw [documentText] at free
      split at free
      next both =>
        -- The line feed behind the return ends the block.
        have behind := ih free 0x0A (List.mem_of_head? both.2)
        exact absurd behind (by decide)
      next =>
        rw [List.mem_cons, not_or] at free
        refine List.forall_mem_cons.mpr ⟨?_, ih free.2⟩
        by_contra ends
        rw [Bool.not_eq_false] at ends
        rw [if_pos ends] at free
        exact free.1 rfl

/-- A line feed behind a line. -/
theorem documentText_lineFeed {line : QString} (noReturn : line.getLast? ≠ some 0x0D) :
    documentText (line ++ [0x0A]) = documentText line ++ [paragraphSeparator] := by
  induction line with
  | nil => rfl
  | cons first rest ih =>
      cases rest with
      | nil =>
          have other : first ≠ 0x0D := fun isReturn => noReturn (congrArg some isReturn)
          have alone : ∀ behind : QString, documentText (first :: behind) =
              (if isBlockEnd first then paragraphSeparator else first) :: documentText behind :=
            fun behind => if_neg fun both => other both.1
          rw [List.cons_append, alone, alone]
          rfl
      | cons second rest =>
          have behind := ih noReturn
          rw [List.cons_append, documentText, documentText, behind, List.cons_append,
            List.head?_cons, List.head?_cons]
          split
          · rfl
          · rfl

/-- Where all lines follow one another when one is put in front, they are the same. -/
theorem forall_eq_of_cons_eq_concat {α : Type} {first last : α} {items : List α}
    (same : first :: items = items ++ [last]) : last = first ∧ ∀ item ∈ items, item = first := by
  induction items generalizing first with
  | nil => exact ⟨(List.singleton_inj.mp same).symm, List.forall_mem_nil _⟩
  | cons next items ih =>
      rcases List.cons.inj same with ⟨rfl, rest⟩
      rcases ih rest with ⟨isLast, others⟩
      exact ⟨isLast, List.forall_mem_cons.mpr ⟨rfl, others⟩⟩

theorem cons_eq_concat_of_forall_eq {α : Type} {first : α} {items : List α}
    (same : ∀ item ∈ items, item = first) : first :: items = items ++ [first] := by
  rw [List.eq_replicate_of_mem same, ← List.replicate_succ, List.replicate_succ']

section Lines

variable (document : QTextDocument) (currentLine : Nat) {line : QString}
  (noReturn : line.getLast? ≠ some 0x0D)
include noReturn

/-- The blocks after a line has been inserted. -/
theorem blocks_insertLine :
    (insertLine document currentLine (line ++ [0x0A])).blocks =
      if currentLine < document.blocks.length then
        document.blocks.take currentLine ++
          (Library.Lines.lines paragraphSeparator (documentText line) ++
            document.blocks.drop currentLine)
      else
        Library.Lines.lines paragraphSeparator (documentText line) ++ document.blocks := by
  have inserted : (insertLine document currentLine (line ++ [0x0A])).characters =
      document.characters.take (document.blockPosition currentLine) ++ (documentText line ++
        paragraphSeparator :: document.characters.drop (document.blockPosition currentLine)) := by
    rw [List.append_cons (documentText line) paragraphSeparator, ← documentText_lineFeed noReturn]
    rfl
  rw [QTextDocument.blocks, inserted, QTextDocument.blockPosition]
  split
  next inside => exact Library.Lines.lines_insert inside (documentText line)
  next => exact Library.Lines.lines_append (documentText line) document.characters

/-- A single line comes in behind the current one, unless that is the last one. -/
theorem insertLine_eq_iff (text : QString) :
    (insertLine document currentLine (line ++ [0x0A])).blocks =
        document.blocks.take currentLine ++ text :: document.blocks.drop currentLine ↔
      text = line ∧ (∀ character ∈ line, isBlockEnd character = false) ∧
        (currentLine < document.blocks.length ∨ ∀ block ∈ document.blocks, block = line) := by
  rw [blocks_insertLine document currentLine noReturn]
  constructor
  · intro same
    have lengths := congrArg List.length same
    have free : paragraphSeparator ∉ documentText line := by
      apply Library.Lines.free_of_length_lines
      split at lengths <;>
        · simp only [List.length_append, List.length_cons, List.length_take, List.length_drop]
            at lengths
          omega
    have inBlock := inBlock_of_documentText free
    rw [Library.Lines.lines_of_free free, documentText_of_inBlock inBlock] at same
    split at same
    next inside =>
      have texts := List.append_cancel_left same
      exact ⟨(List.cons.inj texts).1.symm, inBlock, .inl inside⟩
    next outside =>
      have long := Nat.le_of_not_lt outside
      rw [List.take_of_length_le long, List.drop_of_length_le long] at same
      rcases forall_eq_of_cons_eq_concat same with ⟨isLine, others⟩
      exact ⟨isLine, inBlock, .inr others⟩
  · rintro ⟨rfl, inBlock, place⟩
    have free : paragraphSeparator ∉ text := fun member =>
      absurd (inBlock paragraphSeparator member) (by decide)
    rw [documentText_of_inBlock inBlock, Library.Lines.lines_of_free free]
    split
    next => rfl
    next outside =>
      have long := Nat.le_of_not_lt outside
      rw [List.take_of_length_le long, List.drop_of_length_le long]
      exact cons_eq_concat_of_forall_eq (place.resolve_left outside)

end Lines

/-! ## When a comparison is inserted -/

section

variable (tables : CharacterTables) {Double : Type} (path property : QString)
  (value : PropertyValue Double)

theorem getLast?_assertion (path property valueText : QString) :
    (assertion path property valueText).getLast? = some 59 := by
  have shape : assertion path property valueText = (opened ++ (path ++ quote :: (member ++
      (property ++ quote :: (comparand ++ (valueText ++ [41])))))) ++ [59] := by
    simp [assertion]
  rw [shape, List.getLast?_concat]

theorem exists_line : ∃ line, propertyAssert tables path property value = line ++ [10] ∧
    line.getLast? ≠ some 0x0D := by
  rcases exists_fills tables path property value with ⟨first, second, _, inserted⟩
  refine ⟨_, inserted, ?_⟩
  rw [getLast?_assertion]
  decide

/-- The characters that end a block and that no literal has to escape. -/
def frameMarks : List QChar := [0xFDD0, 0xFDD1]

/-- The characters of a value that come into the document. -/
def valueString : PropertyValue Double → QString
  | .string value => value
  | _ => []

theorem isBlockEnd_cases {character : QChar} (ends : isBlockEnd character = true) :
    isLineTerminator character = true ∨ character ∈ frameMarks := by
  simp only [isBlockEnd, paragraphSeparator, List.mem_cons, List.not_mem_nil, or_false,
    decide_eq_true_eq] at ends
  rcases ends with rfl | rfl | rfl | rfl | rfl <;> decide

theorem isBlockEnd_of_frameMarks {character : QChar} (frame : character ∈ frameMarks) :
    isBlockEnd character = true := by
  simp only [frameMarks, List.mem_cons, List.not_mem_nil, or_false] at frame
  rcases frame with rfl | rfl <;> decide

variable {tables path property value} in
theorem IsInert.inBlock {text : QString} (inert : IsInert tables text)
    (unframed : ∀ character ∈ text, character ∉ frameMarks) :
    ∀ character ∈ text, isBlockEnd character = false := by
  intro character member
  by_contra ends
  rw [Bool.not_eq_false] at ends
  rcases isBlockEnd_cases ends with terminates | framed
  · have plain := (inert.parts member).1
    simp [isPlain, terminates] at plain
  · exact unframed character member framed

/-- A string that can stand in a literal is broken by frame marks alone. -/
theorem inBlock_escapeString {string : QString}
    (kept : ∀ character ∈ string, tables.keeps character = true)
    (unframed : ∀ character ∈ string, character ∉ frameMarks) :
    ∀ character ∈ escapeString string, isBlockEnd character = false := by
  intro character member
  rw [escapeString_eq_flatMap, List.mem_flatMap] at member
  rcases member with ⟨original, isOriginal, written⟩
  have keeps := kept original isOriginal
  have noFrame := unframed original isOriginal
  rw [escapeCharacter] at written
  have inLetters : ∀ letters : QString, letters.all (fun unit => !isBlockEnd unit) = true →
      character ∈ letters → isBlockEnd character = false := by
    intro letters inBlock inside
    simpa using List.all_eq_true.mp inBlock character inside
  split at written
  · exact inLetters _ (by decide) written
  · split at written
    · exact inLetters _ (by decide) written
    · split at written
      · exact inLetters _ (by decide) written
      next noReturn =>
        split at written
        · exact inLetters _ (by decide) written
        next noFeed =>
          rw [List.mem_singleton.mp written]
          by_contra ends
          rw [Bool.not_eq_false] at ends
          rcases isBlockEnd_cases ends with terminates | framed
          · simp only [isLineTerminator, noReturn, noFeed, decide_false, Bool.false_or,
              Bool.or_eq_true, decide_eq_true_eq] at terminates
            rcases terminates with rfl | rfl <;> simp [CharacterTables.keeps] at keeps
          · exact noFrame framed

variable {tables value} in
theorem inBlock_escapeValue (hasText : HasText tables value)
    (unframed : ∀ character ∈ valueString value, character ∉ frameMarks) :
    ∀ character ∈ escapeValue tables value, isBlockEnd character = false := by
  by_cases noString : ∀ string, value ≠ .string string
  · intro character member
    by_contra ends
    rw [Bool.not_eq_false] at ends
    have ascii := isNumeric_escapeValue tables noString character member
    simp only [isBlockEnd, paragraphSeparator, List.mem_cons, List.not_mem_nil, or_false,
      decide_eq_true_eq] at ends
    rcases ends with rfl | rfl | rfl | rfl | rfl <;> exact absurd ascii (by decide)
  · push Not at noString
    rcases noString with ⟨string, rfl⟩
    rw [escapeValue_string, literal]
    intro character member
    rcases List.mem_cons.mp member with rfl | inside
    · decide
    · rcases List.mem_append.mp inside with escaped | isQuote
      · exact inBlock_escapeString tables hasText unframed character escaped
      · rw [List.mem_singleton.mp isQuote]
        decide

/-- The texts have no frame marks. -/
def IsUnframed (path property : QString) (value : PropertyValue Double) : Prop :=
  ∀ character ∈ path ++ (property ++ valueString value), character ∉ frameMarks

theorem mem_escapeValue_of_frame {character : QChar} (framed : character ∈ frameMarks)
    (member : character ∈ valueString value) : character ∈ escapeValue tables value := by
  cases value with
  | string string =>
      have other : character ≠ 92 ∧ character ≠ 34 ∧ character ≠ 13 ∧ character ≠ 10 := by
        simp only [frameMarks, List.mem_cons, List.not_mem_nil, or_false] at framed
        rcases framed with rfl | rfl <;> decide
      have alone : escapeCharacter character = [character] := by
        simp [escapeCharacter, other]
      rw [escapeValue_string, literal, escapeString_eq_flatMap]
      apply List.mem_cons_of_mem
      apply List.mem_append_left
      apply List.mem_flatMap.mpr
      exact ⟨character, member, by rw [alone]; exact List.mem_cons_self⟩
  | _ => cases member

variable {tables path property value} in
/-- The statement is a single line if and only if its texts have no frame marks. -/
theorem inBlock_assertion_iff (comparable : IsComparable tables path property value) :
    (∀ character ∈ assertion path property (escapeValue tables value),
      isBlockEnd character = false) ↔ IsUnframed path property value := by
  constructor
  · intro inBlock character member framed
    have ends := isBlockEnd_of_frameMarks framed
    have inside : character ∈ assertion path property (escapeValue tables value) := by
      rcases List.mem_append.mp member with inPath | behind
      · simp [assertion, inPath]
      · rcases List.mem_append.mp behind with inProperty | inValue
        · simp [assertion, inProperty]
        · simp [assertion, mem_escapeValue_of_frame tables value framed inValue]
    rw [inBlock character inside] at ends
    cases ends
  · intro unframed character inside
    have inLine : [opened, member, comparand, [quote], [41, 59]].all
        (fun part => part.all fun unit => !isBlockEnd unit) = true := by decide
    have fixed : ∀ part ∈ [opened, member, comparand, [quote], [41, 59]],
        ∀ character ∈ part, isBlockEnd character = false := by
      intro part isPart character inPart
      have partInLine := List.all_eq_true.mp inLine part isPart
      simpa using List.all_eq_true.mp partInLine character inPart
    have unframedIn : ∀ text : QString, text ⊆ path ++ (property ++ valueString value) →
        ∀ character ∈ text, character ∉ frameMarks := fun text within character isIn =>
      unframed character (within isIn)
    simp only [assertion, List.mem_append, List.mem_cons (a := character) (b := quote)] at inside
    rcases inside with isFixed | inPath | isFixed | isFixed | inProperty | isFixed | isFixed |
      inValue | isFixed
    · exact fixed opened (by simp) character isFixed
    · exact comparable.path.inBlock (unframedIn path (by simp)) character inPath
    · exact fixed [quote] (by simp) character (by simpa using isFixed)
    · exact fixed member (by simp) character isFixed
    · exact comparable.property.inBlock (unframedIn property (by simp)) character inProperty
    · exact fixed [quote] (by simp) character (by simpa using isFixed)
    · exact fixed comparand (by simp) character isFixed
    · exact inBlock_escapeValue comparable.value (unframedIn _ (by simp)) character inValue
    · exact fixed [41, 59] (by simp) character isFixed

/-- A picked property is compared in a line of its own behind the current one if and only if
the current line is not the last one, path and name are inert, the value has a text, and no
text has frame marks.  A document that has this statement in all of its lines does not show
on which side it has got another one. -/
theorem insertsComparison_iff (toDouble : QString → Double) (document : QTextDocument)
    (currentLine : Nat) :
    InsertsComparison tables toDouble document
        (insertPropertyAssert tables document currentLine path property value) currentLine path
        property value ↔
      IsComparable tables path property value ∧ IsUnframed path property value ∧
        (currentLine < document.blocks.length ∨
          ∀ block ∈ document.blocks,
            block = assertion path property (escapeValue tables value)) := by
  rcases exists_line tables path property value with ⟨line, isLine, noReturn⟩
  have isAssertion : IsComparable tables path property value →
      line = assertion path property (escapeValue tables value) := by
    intro comparable
    have shape := propertyAssert_of_isInert tables comparable.path comparable.property value
    exact List.append_cancel_right (isLine.symm.trans shape)
  rw [InsertsComparison, insertPropertyAssert, isLine]
  constructor
  · rintro ⟨text, blocks, compares⟩
    rcases (insertLine_eq_iff document currentLine noReturn text).mp blocks with
      ⟨rfl, inBlock, place⟩
    have comparable := (compares_iff tables isLine).mp compares
    rw [isAssertion comparable] at inBlock place
    exact ⟨comparable, (inBlock_assertion_iff comparable).mp inBlock, place⟩
  · rintro ⟨comparable, unframed, place⟩
    refine ⟨line, (insertLine_eq_iff document currentLine noReturn line).mpr ⟨rfl, ?_, ?_⟩,
      (compares_iff tables isLine).mpr comparable⟩
    · rw [isAssertion comparable]
      exact (inBlock_assertion_iff comparable).mpr unframed
    · rw [isAssertion comparable]
      exact place

end

/-! ## The last line -/

/-- A document of one line. -/
def singleLine : QTextDocument where
  characters := "a"
  separated := by
    have inLine : (QString.ofString "a").all (fun unit => !isBlockEnd unit) = true := by decide
    intro character member ends
    have other := List.all_eq_true.mp inLine character member
    rw [ends] at other
    cases other

/-- Behind the last line there is no block, and the statement becomes the first line. -/
theorem lastLine_insertedFirst :
    ¬∀ (tables : CharacterTables) (toDouble : QString → Unit) (document : QTextDocument)
      (currentLine : Nat) (path property : QString) (value : PropertyValue Unit),
      1 ≤ currentLine → currentLine ≤ document.blocks.length →
      InsertsComparison tables toDouble document
        (insertPropertyAssert tables document currentLine path property value) currentLine path
        property value := by
  intro every
  rcases every separatorTables (fun _ => ()) singleLine 1 "window" "enabled" (.bool true)
    (Nat.le_refl 1) (by decide +kernel) with ⟨text, blocks, _⟩
  have first : (insertPropertyAssert separatorTables singleLine 1 "window" "enabled"
      (.bool true : PropertyValue Unit)).blocks.head? =
        some (QString.ofString
          "compare(objectFromPath(\"window\").property(\"enabled\"), true);") := by
    decide +kernel
  have kept : (singleLine.blocks.take 1 ++ text :: singleLine.blocks.drop 1).head? =
      some (QString.ofString "a") := by
    have blocks : singleLine.blocks = [QString.ofString "a"] := by decide +kernel
    rw [blocks]
    rfl
  rw [blocks, kept] at first
  exact absurd (Option.some.inj first) (by decide)

end ScriptEditor

end Hooq

import Hooq.Qt.Unicode

/-!
# The highlighter

The highlighter of the script editor goes through a line character by character.  A table
leads it from state to state, each state has a format for the character, and words are
looked up behind their ends.  What is left open at the end of a line goes on in the next
one if it is a comment.
-/

namespace Hooq

namespace QScriptHighlighter

inductive State where
  | standard
  | commentStart1
  | cCommentStart2
  | cppCommentStart2
  | cComment
  | cppComment
  | cCommentEnd1
  | cCommentEnd2
  | stringStart
  | string
  | stringEnd
  | string2Start
  | string2
  | string2End
  | number
  | preProcessor
  deriving DecidableEq, Repr

inductive Input where
  | alpha
  | number
  | asterix
  | slash
  | paren
  | space
  | hash
  | quotation
  | apostrophe
  | sep
  deriving DecidableEq, Repr

/-- The formats that can be set; the empty format is none of them. -/
inductive Format where
  | number
  | string
  | type
  | keyword
  | preProcessor
  | label
  | comment
  deriving DecidableEq, Repr

/-- A row of the table has an entry for each input, in the order of the inputs. -/
def State.row (alpha numeral asterix slash paren space hash quotation apostrophe sep : State) :
    Input → State
  | .alpha => alpha
  | .number => numeral
  | .asterix => asterix
  | .slash => slash
  | .paren => paren
  | .space => space
  | .hash => hash
  | .quotation => quotation
  | .apostrophe => apostrophe
  | .sep => sep

def table : State → Input → State
  | .standard => .row .standard .number .standard .commentStart1 .standard .standard
      .preProcessor .stringStart .string2Start .standard
  | .commentStart1 => .row .standard .number .cCommentStart2 .cppCommentStart2 .standard
      .standard .preProcessor .stringStart .string2Start .standard
  | .cCommentStart2 => .row .cComment .cComment .cCommentEnd1 .cComment .cComment .cComment
      .cComment .cComment .cComment .cComment
  | .cppCommentStart2 => .row .cppComment .cppComment .cppComment .cppComment .cppComment
      .cppComment .cppComment .cppComment .cppComment .cppComment
  | .cComment => .row .cComment .cComment .cCommentEnd1 .cComment .cComment .cComment
      .cComment .cComment .cComment .cComment
  | .cppComment => .row .cppComment .cppComment .cppComment .cppComment .cppComment
      .cppComment .cppComment .cppComment .cppComment .cppComment
  | .cCommentEnd1 => .row .cComment .cComment .cCommentEnd1 .cCommentEnd2 .cComment
      .cComment .cComment .cComment .cComment .cComment
  | .cCommentEnd2 => .row .standard .number .standard .commentStart1 .standard .standard
      .preProcessor .stringStart .string2Start .standard
  | .stringStart => .row .string .string .string .string .string .string .string .stringEnd
      .string .string
  | .string => .row .string .string .string .string .string .string .string .stringEnd
      .string .string
  | .stringEnd => .row .standard .standard .standard .commentStart1 .standard .standard
      .preProcessor .stringStart .string2Start .standard
  | .string2Start => .row .string2 .string2 .string2 .string2 .string2 .string2 .string2
      .string2 .string2End .string2
  | .string2 => .row .string2 .string2 .string2 .string2 .string2 .string2 .string2
      .string2 .string2End .string2
  | .string2End => .row .standard .standard .standard .commentStart1 .standard .standard
      .preProcessor .stringStart .string2Start .standard
  | .number => .row .number .number .standard .commentStart1 .standard .standard
      .preProcessor .stringStart .string2Start .standard
  | .preProcessor => .row .preProcessor .standard .standard .commentStart1 .standard
      .standard .preProcessor .stringStart .string2Start .standard

def qscriptKeywords : List QString :=
  ["Infinity", "NaN", "abstract", "boolean", "break", "byte", "case", "catch", "char", "class",
    "const", "constructor", "continue", "debugger", "default", "delete", "do", "double", "else",
    "enum", "export", "extends", "false", "final", "finally", "float", "for", "function",
    "goto", "if", "implements", "import", "in", "instanceof", "int", "interface", "long",
    "native", "new", "package", "private", "protected", "public", "return", "short", "static",
    "super", "switch", "synchronized", "this", "throw", "throws", "transient", "true", "try",
    "typeof", "undefined", "var", "void", "volatile", "while", "with"]

/-- A call of `setFormat`. -/
structure Call where
  start : Int
  count : Int
  format : Option Format
  deriving DecidableEq, Repr

/-- The call sets the format of a position. -/
def Call.Covers (call : Call) (position : Nat) : Prop :=
  0 ≤ call.start ∧ call.start ≤ position ∧ position < call.start + call.count

instance (call : Call) (position : Nat) : Decidable (call.Covers position) :=
  inferInstanceAs (Decidable (_ ∧ _))

/-- The formats of a line before anything has been set. -/
def unset (length : Nat) : List (Option Format) :=
  List.replicate length none

/-- `QSyntaxHighlighter::setFormat` leaves out what is not in the line. -/
def setFormat (formats : List (Option Format)) (call : Call) : List (Option Format) :=
  formats.mapIdx fun position format => if call.Covers position then call.format else format

/-- The variables of the loop. -/
structure Scan where
  state : State
  input : Option Input
  lastWasBackSlash : Bool
  makeLastStandard : Bool
  questionMark : Bool
  lastChar : QChar
  firstNonSpace : Option Nat
  buffer : QString
  calls : List Call
  deriving DecidableEq, Repr

def Scan.start (state : State) : Scan :=
  ⟨state, none, false, false, false, 0, none, [], []⟩

/-- A line that has been gone through. -/
structure Block where
  calls : List Call
  currentBlockState : State
  firstNonSpace : Option Nat
  deriving DecidableEq, Repr

def letters : QString :=
  "abcdefghijklmnopqrstuvwxyzABCDEFGHIJKLMNOPQRSTUVWXYZ"

def mathChars : QString :=
  "xXeE"

def numbers : QString :=
  "0123456789"

section

variable (tables : CharacterTables)

def isLetter (character : QChar) : Bool :=
  (tables.category character).isLetter

def isUpper (character : QChar) : Bool :=
  tables.category character = .letterUppercase

/-- The input of a digit.  It looks at the character before it, which there must be. -/
def classifyDigit (text : QString) (scan : Scan) (position : Nat) : Option Input :=
  let otherwise : Input :=
    if scan.input = some .alpha ∧ scan.lastChar ∈ numbers then .alpha else .number
  if scan.lastChar ∈ letters then
    if scan.lastChar ∈ mathChars then
      if position = 0 then none
      else text[position - 1]?.map fun before => if before ∈ numbers then otherwise else .alpha
    else
      some .alpha
  else
    some otherwise

def classify (text : QString) (scan : Scan) (position : Nat) (character : QChar) :
    Option Input :=
  if scan.lastWasBackSlash then some .sep
  else if character = 42 then some .asterix
  else if character = 47 then some .slash
  else if character ∈ [40, 91, 123] then some .paren
  else if character ∈ [41, 93, 125] then some .paren
  else if character = 35 then some .hash
  else if character = 34 then some .quotation
  else if character = 39 then some .apostrophe
  else if character = 32 then some .space
  else if character ∈ numbers then classifyDigit text scan position
  else if character = 58 then some .sep
  else if isLetter tables character || character = 95 then some .alpha
  else some .sep

/-- A question mark that is not escaped is not forgotten until the end of the line. -/
def asks (scan : Scan) (character : QChar) : Bool :=
  scan.questionMark || !scan.lastWasBackSlash && character = 63

/-- What stands in a label: the word in front of a colon, up to the white space. -/
def isLabelPart (character : QChar) : Bool :=
  tables.isLetterOrNumber character || character = 95 || character = 46

/-- The label in front of a colon that is not one of two and not behind a question
mark. -/
def label (duiEnabled : Bool) (text : QString) (scan : Scan) (position : Nat)
    (character : QChar) : Option Call :=
  let nextChar : QChar := text[position + 1]?.getD 32
  if ¬scan.lastWasBackSlash ∧ character = 58 ∧ scan.state = .standard ∧
      ¬scan.questionMark ∧ scan.lastChar ≠ 58 ∧ nextChar ≠ 58 then
    let before := (text.take position).reverse
    let word := (before.dropWhile QString.isSpace).takeWhile (isLabelPart tables)
    let start := position - (before.takeWhile QString.isSpace).length - word.length
    some ⟨start, position - start,
      if duiEnabled ∧ word.reverse = QString.ofString "id" then some .keyword else some .label⟩
  else
    none

def highlightKeyword (duiEnabled : Bool) (currentPos : Nat) (buffer : QString) : Option Call :=
  match buffer with
  | [] => none
  | first :: _ =>
      let start : Int := currentPos - buffer.length
      if duiEnabled ∧ isUpper tables first ∨ ¬duiEnabled ∧ first = 81 then
        some ⟨start, buffer.length, some .type⟩
      else if buffer ∈ qscriptKeywords then
        some ⟨start, buffer.length, some .keyword⟩
      else
        none

/-- The format of a character that has led to a state. -/
def State.format : State → Option Format
  | .cCommentStart2 | .cppCommentStart2 | .cComment | .cppComment | .cCommentEnd1
  | .cCommentEnd2 => some .comment
  | .string | .string2 => some .string
  | .number => some .number
  | .preProcessor => some .preProcessor
  | .standard | .commentStart1 | .stringStart | .stringEnd | .string2Start | .string2End => none

/-- The slash that turned out to begin no comment. -/
def lastStandard (scan : Scan) (position : Nat) : List Call :=
  if scan.makeLastStandard then [⟨position - 1, 1, none⟩] else []

/-- What the states do with the character that has led to them.  A slash that may begin a
comment is left for the next character. -/
def paint (duiEnabled : Bool) (scan : Scan) (position : Nat) (input : Input)
    (lookAtBinding : Bool) : Scan :=
  match scan.state with
  | .standard =>
      let closed := scan.buffer ≠ [] ∧ input ≠ .alpha
      { scan with
        makeLastStandard := false
        buffer := if closed then [] else scan.buffer
        calls := scan.calls ++ [⟨position, 1, none⟩] ++ lastStandard scan position ++
          if closed ∧ ¬lookAtBinding then
            (highlightKeyword tables duiEnabled position scan.buffer).toList
          else
            [] }
  | .commentStart1 =>
      { scan with
        makeLastStandard := true
        buffer := []
        calls := scan.calls ++ lastStandard scan position }
  | .cCommentStart2 | .cppCommentStart2 =>
      { scan with
        makeLastStandard := false
        buffer := []
        calls := scan.calls ++ [⟨position - 1, 2, scan.state.format⟩] }
  | _ =>
      { scan with
        makeLastStandard := false
        buffer := []
        calls := scan.calls ++ lastStandard scan position ++
          [⟨position, 1, scan.state.format⟩] }

/-- What is done with a character before its state is looked at. -/
def Scan.advance (duiEnabled : Bool) (text : QString) (scan : Scan) (position : Nat)
    (character : QChar) (input : Input) : Scan where
  state := table scan.state input
  input := some input
  lastWasBackSlash := !scan.lastWasBackSlash && character = 92
  makeLastStandard := scan.makeLastStandard
  questionMark := asks scan character
  lastChar := character
  firstNonSpace :=
    if input = .space then scan.firstNonSpace else scan.firstNonSpace.or (some position)
  buffer := if input = .alpha then scan.buffer ++ [character] else scan.buffer
  calls := scan.calls ++ (label tables duiEnabled text scan position character).toList

/-- The body of the loop.  It fails where a character outside of the line is asked for. -/
def step (duiEnabled : Bool) (text : QString) (scan : Scan) (position : Nat) : Option Scan := do
  let character ← text[position]?
  let input ← classify tables text scan position character
  return paint tables duiEnabled
    (scan.advance tables duiEnabled text position character input) position input
    (label tables duiEnabled text scan position character).isSome

/-- The state that the next line starts in. -/
def State.atEnd : State → State
  | .cComment | .cCommentEnd1 | .cCommentStart2 => .cComment
  | _ => .standard

/-- `onBlockStart`.  No state is known before the first line. -/
def onBlockStart (previousBlockState : Option State) : State :=
  previousBlockState.getD .standard

def highlightBlock (duiEnabled : Bool) (previousBlockState : Option State) (text : QString) :
    Option Block :=
  let state := onBlockStart previousBlockState
  if text = [] then
    some ⟨[], state, some 0⟩
  else do
    let scan ← (List.range text.length).foldlM (step tables duiEnabled text) (Scan.start state)
    return ⟨scan.calls ++ (highlightKeyword tables duiEnabled text.length scan.buffer).toList,
      scan.state.atEnd, scan.firstNonSpace⟩

/-- The formats that a line has in the end. -/
def Block.formats (block : Block) (length : Nat) : List (Option Format) :=
  block.calls.foldl setFormat (unset length)

/-- The formats of all lines of a document. -/
def highlightDocument (duiEnabled : Bool) :
    Option State → List QString → Option (List (List (Option Format)))
  | _, [] => some []
  | previousBlockState, text :: lines => do
      let block ← highlightBlock tables duiEnabled previousBlockState text
      let rest ← highlightDocument duiEnabled (some block.currentBlockState) lines
      return block.formats text.length :: rest

end

end QScriptHighlighter

end Hooq

import Hooq.Qt.Event

/-!
# Reading XML from a file

A file is there as a whole, so that a reader on it only moves forward over the tokens.
Well-formed documents are trees, and their tokens are those of the trees.
-/

namespace Hooq

/-- The tokens of `QXmlStreamReader`, with what the reader tells about each of them. -/
inductive XmlToken where
  | noToken
  | invalid
  | startDocument
  | endDocument
  | startElement (name : QString) (attributes : Attributes)
  | endElement (name : QString)
  | characters (text : QString)
  | comment
  | dtd
  | entityReference (text : QString)
  | processingInstruction
  deriving DecidableEq, Repr

/-! ## The reader -/

/-- A `QXmlStreamReader` on a file. -/
structure XmlFileReader where
  token : XmlToken
  unread : List XmlToken
  deriving DecidableEq, Repr

namespace XmlFileReader

/-- A reader that has read nothing. -/
def ofTokens (tokens : List XmlToken) : XmlFileReader :=
  ⟨.noToken, tokens⟩

/-- `atEnd`: behind the end of the document, or after an error. -/
def atEnd (reader : XmlFileReader) : Bool :=
  reader.token = .endDocument || reader.token = .invalid

/-- `readNext`.  A file that ends too early is an error, and errors stay. -/
def readNext (reader : XmlFileReader) : XmlFileReader :=
  if reader.token = .invalid then
    reader
  else
    match reader.unread with
    | [] => ⟨.invalid, []⟩
    | token :: rest => ⟨token, rest⟩

/-- The loop of `readElementText`: the text up to the end tag.  Comments and processing
instructions are left out, and other tokens are errors. -/
def readText : List XmlToken → QString × XmlFileReader
  | [] => ([], ⟨.invalid, []⟩)
  | token :: rest =>
      match token with
      | .characters text | .entityReference text =>
          let (behind, reader) := readText rest
          (text ++ behind, reader)
      | .comment | .processingInstruction => readText rest
      | .endElement name => ([], ⟨.endElement name, rest⟩)
      | _ => ([], ⟨.invalid, rest⟩)

/-- `readElementText`. -/
def readElementText (reader : XmlFileReader) : QString × XmlFileReader :=
  match reader.token with
  | .startElement _ _ => readText reader.unread
  | _ => ([], reader)

end XmlFileReader

/-! ## Documents -/

/-- What an element holds beside its child elements. -/
inductive XmlPiece where
  | characters (text : QString)
  | entityReference (text : QString)
  | comment
  | processingInstruction
  deriving DecidableEq, Repr

namespace XmlPiece

def token : XmlPiece → XmlToken
  | .characters text => .characters text
  | .entityReference text => .entityReference text
  | .comment => .comment
  | .processingInstruction => .processingInstruction

def text : XmlPiece → QString
  | .characters text | .entityReference text => text
  | .comment | .processingInstruction => []

end XmlPiece

/-- What an element holds, in order. -/
inductive XmlContent where
  | nil
  | leaf (piece : XmlPiece) (rest : XmlContent)
  | element (name : QString) (attributes : Attributes) (children rest : XmlContent)
  deriving DecidableEq, Repr

namespace XmlContent

def tokens : XmlContent → List XmlToken
  | .nil => []
  | .leaf piece rest => piece.token :: rest.tokens
  | .element name attributes children rest =>
      .startElement name attributes :: (children.tokens ++ .endElement name :: rest.tokens)

/-- The text at this level. -/
def text : XmlContent → QString
  | .nil => []
  | .leaf piece rest => piece.text ++ rest.text
  | .element _ _ _ rest => rest.text

/-- There are no elements. -/
def isText : XmlContent → Bool
  | .nil => true
  | .leaf _ rest => rest.isText
  | .element _ _ _ _ => false

/-- The elements at this level, in document order, each with its own text. -/
def elements : XmlContent → List Element
  | .nil => []
  | .leaf _ rest => rest.elements
  | .element name attributes children rest =>
      ⟨name, attributes, children.text⟩ :: rest.elements

/-- Those of the elements at this level that are chosen hold no elements. -/
def isFlat (chosen : Element → Bool) : XmlContent → Bool
  | .nil => true
  | .leaf _ rest => rest.isFlat chosen
  | .element name attributes children rest =>
      (children.isText || !chosen ⟨name, attributes, children.text⟩) && rest.isFlat chosen

end XmlContent

/-- What may stand before and behind the root element. -/
inductive XmlMisc where
  | declaration
  | dtd
  | comment
  | processingInstruction
  | whitespace (text : QString)
  deriving DecidableEq, Repr

def XmlMisc.token : XmlMisc → XmlToken
  | .declaration => .startDocument
  | .dtd => .dtd
  | .comment => .comment
  | .processingInstruction => .processingInstruction
  | .whitespace text => .characters text

/-- A well-formed document. -/
structure XmlDocument where
  prolog : List XmlMisc
  name : QString
  attributes : Attributes
  content : XmlContent
  epilog : List XmlMisc
  deriving DecidableEq, Repr

/-- The tokens of a document. -/
def XmlDocument.tokens (document : XmlDocument) : List XmlToken :=
  document.prolog.map XmlMisc.token ++
    .startElement document.name document.attributes ::
      (document.content.tokens ++
        .endElement document.name :: (document.epilog.map XmlMisc.token ++ [.endDocument]))

/-! ## Steps of the reader -/

namespace XmlFileReader

/-- The current token is no error and not the end of the document. -/
def IsUnderway (token : XmlToken) : Prop :=
  token ≠ .invalid ∧ token ≠ .endDocument

theorem isUnderway_noToken : IsUnderway .noToken :=
  ⟨nofun, nofun⟩

theorem isUnderway_startElement (name : QString) (attributes : Attributes) :
    IsUnderway (.startElement name attributes) :=
  ⟨nofun, nofun⟩

theorem isUnderway_endElement (name : QString) : IsUnderway (.endElement name) :=
  ⟨nofun, nofun⟩

theorem isUnderway_piece (piece : XmlPiece) : IsUnderway piece.token := by
  cases piece <;> exact ⟨nofun, nofun⟩

theorem isUnderway_misc (misc : XmlMisc) : IsUnderway misc.token := by
  cases misc <;> exact ⟨nofun, nofun⟩

variable {token : XmlToken}

theorem atEnd_of_isUnderway (underway : IsUnderway token) (unread : List XmlToken) :
    atEnd ⟨token, unread⟩ = false := by
  simp [atEnd, underway.1, underway.2]

theorem readNext_of_isUnderway (underway : IsUnderway token) (next : XmlToken)
    (rest : List XmlToken) : readNext ⟨token, next :: rest⟩ = ⟨next, rest⟩ := by
  rw [readNext, if_neg underway.1]

/-- Text is read up to the end tag of its element. -/
theorem readText_content {content : XmlContent} (isText : content.isText = true)
    (name : QString) (rest : List XmlToken) :
    readText (content.tokens ++ .endElement name :: rest) =
      (content.text, ⟨.endElement name, rest⟩) := by
  induction content with
  | nil => rfl
  | leaf piece content ih =>
      have read := ih isText
      cases piece <;> simp [XmlContent.tokens, XmlContent.text, XmlPiece.token, XmlPiece.text,
        readText, read]
  | element => cases isText

end XmlFileReader

end Hooq

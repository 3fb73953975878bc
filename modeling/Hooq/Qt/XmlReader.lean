import Hooq.Qt.Event

/-!
# Reading XML from a socket

The reader turns what has arrived into tokens.  Text is a token for each character,
so that a document can be cut between any two tokens.  When the data runs out in the
middle of the document, the reader reports a premature end and goes on once there is
more; behind the root element it reports the end of the document.  The XML
declaration and comments are left out.
-/

namespace Hooq

/-- What is sent over a socket: tags, and single characters. -/
inductive Token where
  | start (name : QString) (attributes : Attributes)
  | character (character : QChar)
  | stop
  deriving DecidableEq, Repr

/-- The tokens of a text. -/
def textTokens (text : QString) : List Token :=
  text.map .character

/-- An element as it is sent. -/
def Element.tokens (element : Element) : List Token :=
  .start element.name element.attributes :: (textTokens element.text ++ [.stop])

/-- `QXmlStreamReader::TokenType`. -/
inductive TokenType where
  | noToken
  | invalid
  | startElement
  | characters
  | endElement
  | endDocument
  deriving DecidableEq, Repr

/-- `QXmlStreamReader`: the current token, and how many elements are open. -/
structure XmlReader where
  tokenType : TokenType
  name : QString
  attributes : Attributes
  depth : Nat
  rootClosed : Bool
  error : Bool
  deriving DecidableEq, Repr

namespace XmlReader

/-- A reader that has read nothing. -/
def clear : XmlReader :=
  ⟨.noToken, [], [], 0, false, false⟩

/-- `raiseError`: the reader stops for good. -/
def raiseError (reader : XmlReader) : XmlReader :=
  { reader with tokenType := .invalid, error := true }

/-- `atEnd`: after the end of the document or a premature end, more data may come. -/
def atEnd (reader : XmlReader) (unread : List Token) : Bool :=
  reader.error ||
    ((reader.tokenType = .invalid || reader.tokenType = .endDocument) && unread.isEmpty)

/-- `readNext`, with what is left unread.  White space outside of the root element
is skipped. -/
def readNext (reader : XmlReader) : List Token → XmlReader × List Token
  | [] =>
      if reader.error then
        (reader.raiseError, [])
      else if reader.rootClosed then
        ({ reader with tokenType := .endDocument }, [])
      else
        ({ reader with tokenType := .invalid }, [])
  | .start name attributes :: rest =>
      if reader.error || reader.rootClosed then
        (reader.raiseError, .start name attributes :: rest)
      else
        ({ reader with
            tokenType := .startElement, name := name, attributes := attributes,
            depth := reader.depth + 1 }, rest)
  | .character character :: rest =>
      if reader.error then
        (reader.raiseError, .character character :: rest)
      else if reader.depth = 0 then
        if QString.isSpace character then
          reader.readNext rest
        else
          (reader.raiseError, .character character :: rest)
      else
        ({ reader with tokenType := .characters }, rest)
  | .stop :: rest =>
      if reader.error || reader.depth = 0 then
        (reader.raiseError, .stop :: rest)
      else
        ({ reader with
            tokenType := .endElement, depth := reader.depth - 1,
            rootClosed := reader.depth = 1 }, rest)

/-- `readElementText` at a start tag: the text up to the end tag.  When the data runs
out, it is the text so far; a child element is an error, at which the reader has the
name and the attributes of the child. -/
def readElementText (reader : XmlReader) : List Token → QString × XmlReader × List Token
  | [] => ([], { reader with tokenType := .invalid }, [])
  | .character character :: rest =>
      let (text, reader, unread) := reader.readElementText rest
      (character :: text, reader, unread)
  | .stop :: rest =>
      ([], { reader with
        tokenType := .endElement, depth := reader.depth - 1,
        rootClosed := reader.depth = 1 }, rest)
  | .start name attributes :: rest =>
      ([], { reader with name := name, attributes := attributes }.raiseError, rest)

end XmlReader

end Hooq

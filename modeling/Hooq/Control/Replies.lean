import Hooq.Library.Lines
import Hooq.Playback.Player
import Hooq.Qt.Bytes

/-!
# Replies on the socket

What the player writes back, and how the interpreter reads it.  Replies are lines; the one
that announces an object has a document with the object's properties behind it, which is
read by a reader of its own.
-/

namespace Hooq

/-! ## Documents of objects -/

/-- A property, as `XmlPropertyDumper` writes it. -/
structure ObjectProperty where
  name : QString
  typeName : QString
  value : QString
  deriving DecidableEq, Repr

/-- What `XmlPropertyDumper::dump` writes about an object. -/
structure ObjectDocument where
  name : QString
  path : QString
  className : QString
  properties : List ObjectProperty
  deriving DecidableEq, Repr

def ObjectProperty.element (property : ObjectProperty) : Element :=
  ⟨"property", [("name", property.name), ("type", property.typeName)], property.value⟩

/-- The tokens of a document in front of its end tag. -/
def ObjectDocument.openTokens (document : ObjectDocument) : List Token :=
  .start "object"
      [("name", document.name), ("path", document.path), ("class", document.className)] ::
    document.properties.flatMap fun property => property.element.tokens

/-- How documents are written, and what a new reader finds in the bytes that are there
before it stops. -/
structure ObjectXml where
  body : ObjectDocument → QByteArray
  tokens : QByteArray → List Token

def newlineByte : UInt8 := 10

def endTag : QByteArray :=
  QByteArray.ofString "</object>"

namespace ObjectXml

variable (xml : ObjectXml)

/-- The document of an object, with the line break of `writeEndDocument`. -/
def document (document : ObjectDocument) : QByteArray :=
  xml.body document ++ (endTag ++ [newlineByte])

/-- Whether a reader reads back what is written: all of a document, also where its end tag
is cut off. -/
structure Reads (document : ObjectDocument) : Prop where
  whole : xml.tokens (xml.body document ++ endTag) = document.openTokens ++ [.stop]
  line : xml.tokens (xml.body document ++ (endTag ++ [newlineByte])) =
    document.openTokens ++ [.stop, .character 10]
  cut : ∀ part rest, endTag = part ++ rest → rest ≠ [] →
    xml.tokens (xml.body document ++ part) = document.openTokens

end ObjectXml

/-! ## Reading a document -/

/-- The values that `ObjectInformation` knows. -/
inductive PropertyValue (Double : Type) where
  | bool (value : Bool)
  | string (value : QString)
  | int (value : Int32)
  | double (value : Double)
  deriving DecidableEq, Repr

structure ObjectInformation (Double : Type) where
  className : QString
  name : QString
  path : QString
  properties : List (QString × PropertyValue Double)
  deriving DecidableEq, Repr

namespace XmlReader

/-- The reader takes a token, or has come to an end. -/
theorem readNext_length (reader : XmlReader) (unread : List Token) :
    (reader.readNext unread).2.length < unread.length ∨
      (reader.readNext unread).2.length = unread.length ∧
        (reader.readNext unread).1.atEnd (reader.readNext unread).2 = true ∧
        (reader.readNext unread).1.tokenType ≠ .startElement := by
  induction unread with
  | nil =>
      right
      rw [readNext]
      split
      next => exact ⟨rfl, rfl, nofun⟩
      next =>
        split
        next => exact ⟨rfl, Bool.or_true _, nofun⟩
        next => exact ⟨rfl, Bool.or_true _, nofun⟩
  | cons token rest ih =>
      cases token with
      | start name attributes =>
          rw [readNext]
          split
          next => exact .inr ⟨rfl, rfl, nofun⟩
          next => exact .inl (Nat.lt_succ_self _)
      | character character =>
          rw [readNext]
          split
          next => exact .inr ⟨rfl, rfl, nofun⟩
          next =>
            split
            next =>
              split
              next =>
                rcases ih with shorter | ⟨same, _⟩
                · exact .inl (Nat.lt_succ_of_lt shorter)
                · exact .inl (Nat.lt_succ_of_le (Nat.le_of_eq same))
              next => exact .inr ⟨rfl, rfl, nofun⟩
            next => exact .inl (Nat.lt_succ_self _)
      | stop =>
          rw [readNext]
          split
          next => exact .inr ⟨rfl, rfl, nofun⟩
          next => exact .inl (Nat.lt_succ_self _)

theorem readElementText_length (reader : XmlReader) (unread : List Token) :
    (reader.readElementText unread).2.2.length ≤ unread.length := by
  induction unread with
  | nil => exact Nat.le_refl _
  | cons token rest ih =>
      cases token with
      | start name attributes => exact Nat.le_succ _
      | character character => exact Nat.le_succ_of_le ih
      | stop => exact Nat.le_succ _

/-- What is left to do for a reader that no more data arrives for. -/
def work (reader : XmlReader) (unread : List Token) : Nat :=
  2 * unread.length + if reader.atEnd unread = true then 0 else 1

theorem work_le (reader : XmlReader) (unread : List Token) :
    reader.work unread ≤ 2 * unread.length + 1 := by
  rw [work]
  split
  next => exact Nat.le_succ _
  next => exact Nat.le_refl _

theorem work_readNext {reader : XmlReader} {unread : List Token}
    (ahead : ¬reader.atEnd unread = true) :
    (reader.readNext unread).1.work (reader.readNext unread).2 < reader.work unread := by
  have before : reader.work unread = 2 * unread.length + 1 := by rw [work, if_neg ahead]
  rcases reader.readNext_length unread with shorter | ⟨same, ended, _⟩
  · have after := (reader.readNext unread).1.work_le (reader.readNext unread).2
    omega
  · rw [before, work, if_pos ended, same]
    exact Nat.lt_succ_self _

theorem work_readElementText {reader : XmlReader} {unread : List Token}
    (ahead : ¬reader.atEnd unread = true)
    (isStart : (reader.readNext unread).1.tokenType = .startElement) :
    ((reader.readNext unread).1.readElementText (reader.readNext unread).2).2.1.work
      ((reader.readNext unread).1.readElementText (reader.readNext unread).2).2.2 <
        reader.work unread := by
  have before : reader.work unread = 2 * unread.length + 1 := by rw [work, if_neg ahead]
  have text := (reader.readNext unread).1.readElementText_length (reader.readNext unread).2
  have after := ((reader.readNext unread).1.readElementText
    (reader.readNext unread).2).2.1.work_le
      ((reader.readNext unread).1.readElementText (reader.readNext unread).2).2.2
  rcases reader.readNext_length unread with shorter | ⟨_, _, noStart⟩
  · omega
  · exact absurd isStart noStart

end XmlReader

namespace ObjectInformation

variable {Double : Type} (toDouble : QString → Double)

/-- A property of a document; one of another type is left out. -/
def insertProperty (properties : List (QString × PropertyValue Double))
    (property typeName value : QString) : List (QString × PropertyValue Double) :=
  if typeName = QString.ofString "bool" then
    QMap.insert properties property (.bool (value = QString.ofString "true"))
  else if typeName = QString.ofString "QString" then
    QMap.insert properties property (.string value)
  else if typeName = QString.ofString "int" then
    QMap.insert properties property (.int value.toInt)
  else if typeName = QString.ofString "double" then
    QMap.insert properties property (.double (toDouble value))
  else
    properties

/-- The loop of `fromXml`. -/
def readObject (reader : XmlReader) (unread : List Token)
    (information : ObjectInformation Double) : ObjectInformation Double :=
  if _atEnd : reader.atEnd unread = true then
    information
  else
    let next := (reader.readNext unread).1
    let rest := (reader.readNext unread).2
    if _isStart : next.tokenType = .startElement then
      if next.name = QString.ofString "object" then
        readObject next rest
          { information with
            name := next.attributes.value "name"
            path := next.attributes.value "path"
            className := next.attributes.value "class" }
      else
        let property := next.attributes.value "name"
        let typeName := next.attributes.value "type"
        let text := next.readElementText rest
        if next.name = QString.ofString "property" then
          readObject text.2.1 text.2.2
            { information with
              properties := insertProperty toDouble information.properties property typeName
                text.1 }
        else
          readObject text.2.1 text.2.2 information
    else
      readObject next rest information
termination_by reader.work unread
decreasing_by
  · exact XmlReader.work_readNext _atEnd
  · exact XmlReader.work_readElementText _atEnd _isStart
  · exact XmlReader.work_readElementText _atEnd _isStart
  · exact XmlReader.work_readNext _atEnd

/-- `fromXml`: a new reader takes all the bytes that are there. -/
def fromXml (xml : ObjectXml) (available : QByteArray) : ObjectInformation Double :=
  readObject toDouble .clear (xml.tokens available) ⟨[], [], [], []⟩

end ObjectInformation

/-! ## Lines -/

def Reply.bytes (xml : ObjectXml) : Reply ObjectDocument → QByteArray
  | .ack => QByteArray.ofString "ACK\n"
  | .notFound path => QByteArray.ofString "NOTFOUND " ++ (path.toLatin1 ++ [newlineByte])
  | .dumped document => QByteArray.ofString "DUMPED\n" ++ xml.document document
  | .picked document => QByteArray.ofString "PICKED\n" ++ xml.document document

/-- What the interpreter makes of a reply. -/
inductive Handling (Double : Type) where
  | setAck
  | objectNotFound (path : QString)
  | dumpedObject (information : ObjectInformation Double)
  | objectPicked (information : ObjectInformation Double)
  deriving DecidableEq, Repr

namespace Replies

variable {Double : Type} (xml : ObjectXml) (toDouble : QString → Double)

/-- `line.mid(line.indexOf(' ') + 1)`. -/
def afterSpace (line : QString) : QString :=
  if 0x20 ∈ line then (line.dropWhile (· ≠ 0x20)).tail else line

open Library.Lines in
/-- `processSocketData`: how the replies that are there are handled, and what is left on the
device. -/
def processSocketData (data : QByteArray) : List (Handling Double) × QByteArray :=
  match _read : readLine newlineByte data with
  | none => ([], data)
  | some (bytes, rest) =>
      let line := (QString.fromUtf8 bytes).trimmed
      if line = QString.ofString "ACK" then
        let later := processSocketData rest
        (.setAck :: later.1, later.2)
      else if line = QString.ofString "PICKED" then
        let later := processSocketData []
        (.objectPicked (ObjectInformation.fromXml toDouble xml rest) :: later.1, later.2)
      else if line = QString.ofString "DUMPED" then
        let later := processSocketData []
        (.dumpedObject (ObjectInformation.fromXml toDouble xml rest) :: later.1, later.2)
      else if line.startsWith "NOTFOUND" then
        let later := processSocketData rest
        (.objectNotFound (afterSpace line) :: later.1, later.2)
      else
        processSocketData rest
termination_by data.length
decreasing_by
  · exact readLine_length _read
  · exact Nat.zero_lt_of_lt (readLine_length _read)
  · exact Nat.zero_lt_of_lt (readLine_length _read)
  · exact readLine_length _read
  · exact readLine_length _read

/-- A delivery: what was left is read together with what has arrived. -/
def readyRead (channel : List (Handling Double) × QByteArray) (delivery : QByteArray) :
    List (Handling Double) × QByteArray :=
  let processed := processSocketData xml toDouble (channel.2 ++ delivery)
  (channel.1 ++ processed.1, processed.2)

/-- All deliveries, one after the other. -/
def receive (deliveries : List QByteArray) : List (Handling Double) × QByteArray :=
  deliveries.foldl (readyRead xml toDouble) ([], [])

end Replies

end Hooq

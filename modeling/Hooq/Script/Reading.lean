import Hooq.Qt.XmlDocument
import Hooq.Script.Parse

/-!
# From a recording to script items

The loops that go over the tokens of a recording.  Each loop stops on the end tag of the
element that it was called for, so that the children of the root element are read one
after the other, whatever the elements between them hold.
-/

namespace Hooq

namespace XmlToQtScript

open XmlFileReader

/-! ## The loops -/

/-- The loop of `skipElement`, which calls itself on child elements. -/
def skipLoop : Nat → XmlFileReader → XmlFileReader
  | 0, reader => reader
  | fuel + 1, reader =>
      if reader.atEnd then
        reader
      else
        let reader := reader.readNext
        match reader.token with
        | .startElement _ _ => skipLoop fuel (skipLoop fuel reader)
        | .endElement _ => reader
        | _ => skipLoop fuel reader

/-- `skipElement`.  Each pass reads a token. -/
def skipElement (reader : XmlFileReader) : XmlFileReader :=
  skipLoop (reader.unread.length + 1) reader

/-- What `parseHooq` does at a start tag.  The parse functions read up to the end of the
element once they have its attributes; other elements are skipped. -/
def parseChild (name : QString) (attributes : Attributes) (reader : XmlFileReader) :
    Option Item × XmlFileReader :=
  let (text, behind) := reader.readElementText
  match parseElement ⟨name, attributes, text⟩ with
  | some item => (some item, behind)
  | none => (none, skipElement reader)

/-- The loop of `parseHooq`: its items, and whether it got to the end tag. -/
def hooqLoop : Nat → XmlFileReader → List Item × Bool
  | 0, _ => ([], false)
  | fuel + 1, reader =>
      if reader.atEnd then
        ([], false)
      else
        let reader := reader.readNext
        match reader.token with
        | .startElement name attributes =>
            let (item, behind) := parseChild name attributes reader
            let (items, complete) := hooqLoop fuel behind
            (item.toList ++ items, complete)
        | .endElement _ => ([], true)
        | _ => hooqLoop fuel reader

/-- The items that `parseHooq` hands to `itemString`, and whether the recording is
complete. -/
def parseHooq (reader : XmlFileReader) : List Item × Bool :=
  hooqLoop (reader.unread.length + 1) reader

/-- The loop of `parseDocument`: what `parseHooq` gave, if it was called. -/
def documentLoop : Nat → XmlFileReader → Option (List Item × Bool)
  | 0, _ => none
  | fuel + 1, reader =>
      if reader.atEnd then
        none
      else
        let reader := reader.readNext
        match reader.token with
        | .startElement name _ =>
            if name = QString.ofString "hooq" then
              some (parseHooq reader)
            else
              documentLoop fuel (skipElement reader)
        | _ => documentLoop fuel reader

/-- `parseDocument` on the tokens of a file. -/
def parseDocument (tokens : List XmlToken) : Option (List Item × Bool) :=
  documentLoop (tokens.length + 1) (.ofTokens tokens)

/-! ## Skipping -/

theorem skipLoop_content (content : XmlContent) {fuel : Nat}
    (enough : content.tokens.length < fuel) {token : XmlToken} (underway : IsUnderway token)
    (name : QString) (rest : List XmlToken) :
    skipLoop fuel ⟨token, content.tokens ++ .endElement name :: rest⟩ =
      ⟨.endElement name, rest⟩ := by
  induction content generalizing fuel token name rest with
  | nil =>
      obtain ⟨fuel, rfl⟩ := Nat.exists_eq_add_of_lt enough
      simp [skipLoop, XmlContent.tokens, atEnd_of_isUnderway underway,
        readNext_of_isUnderway underway]
  | leaf piece content ih =>
      cases fuel with
      | zero => simp at enough
      | succ fuel =>
          simp only [XmlContent.tokens, List.length_cons] at enough
          have behind := ih (by omega : content.tokens.length < fuel)
            (isUnderway_piece piece) name rest
          rw [skipLoop, atEnd_of_isUnderway underway, XmlContent.tokens, List.cons_append,
            readNext_of_isUnderway underway]
          cases piece <;> exact behind
  | element child attributes children content childrenIH ih =>
      cases fuel with
      | zero => simp at enough
      | succ fuel =>
          simp only [XmlContent.tokens, List.length_cons, List.length_append] at enough
          have inner := childrenIH (by omega : children.tokens.length < fuel)
            (isUnderway_startElement child attributes) child
            (content.tokens ++ .endElement name :: rest)
          have behind := ih (by omega : content.tokens.length < fuel)
            (isUnderway_endElement child) name rest
          rw [skipLoop, atEnd_of_isUnderway underway, XmlContent.tokens, List.cons_append,
            readNext_of_isUnderway underway, List.append_assoc, List.cons_append]
          change skipLoop fuel (skipLoop fuel _) = _
          rw [inner, behind]

/-- `skipElement` stops on the end tag of the element that it is called on. -/
theorem skipElement_content (name : QString) (attributes : Attributes) (content : XmlContent)
    (rest : List XmlToken) :
    skipElement ⟨.startElement name attributes, content.tokens ++ .endElement name :: rest⟩ =
      ⟨.endElement name, rest⟩ := by
  rw [skipElement]
  apply skipLoop_content _ _ (isUnderway_startElement name attributes)
  simp only [List.length_append]
  omega

/-! ## Parsing -/

/-- An element is translated to an item. -/
def isRecognised (element : Element) : Bool :=
  (parseElement element).isSome

/-- Whether an element is translated does not depend on its text. -/
theorem isSome_parseElement (element : Element) (text : QString) :
    (parseElement { element with text := text }).isSome = (parseElement element).isSome := by
  simp only [parseElement, apply_ite Option.isSome, Option.isSome_some, Option.isSome_none]

theorem parseElement_eq_none {element : Element} (unknown : isRecognised element = false)
    (text : QString) : parseElement { element with text := text } = none := by
  rw [← Option.not_isSome_iff_eq_none, isSome_parseElement, ← isRecognised, unknown]
  exact Bool.false_ne_true

theorem parseChild_content {name : QString} {attributes : Attributes} {children : XmlContent}
    (plain : children.isText = true ∨ isRecognised ⟨name, attributes, children.text⟩ = false)
    (rest : List XmlToken) :
    parseChild name attributes
        ⟨.startElement name attributes, children.tokens ++ .endElement name :: rest⟩ =
      (parseElement ⟨name, attributes, children.text⟩, ⟨.endElement name, rest⟩) := by
  rcases Bool.eq_false_or_eq_true (isRecognised ⟨name, attributes, children.text⟩) with
    known | unknown
  · have isText := plain.resolve_right (by simp [known])
    obtain ⟨item, parsed⟩ := Option.isSome_iff_exists.mp known
    simp only [parseChild, readElementText, readText_content isText, parsed]
  · have unparsed := parseElement_eq_none unknown
    simp only [parseChild, unparsed, skipElement_content]

theorem hooqLoop_content {content : XmlContent} (flat : content.isFlat isRecognised = true)
    {fuel : Nat} (enough : content.tokens.length < fuel) {token : XmlToken}
    (underway : IsUnderway token) (name : QString) (rest : List XmlToken) :
    hooqLoop fuel ⟨token, content.tokens ++ .endElement name :: rest⟩ =
      (content.elements.filterMap parseElement, true) := by
  induction content generalizing fuel token with
  | nil =>
      obtain ⟨fuel, rfl⟩ := Nat.exists_eq_add_of_lt enough
      simp [hooqLoop, XmlContent.tokens, XmlContent.elements, atEnd_of_isUnderway underway,
        readNext_of_isUnderway underway]
  | leaf piece content ih =>
      cases fuel with
      | zero => simp at enough
      | succ fuel =>
          simp only [XmlContent.tokens, List.length_cons] at enough
          have behind := ih flat (by omega : content.tokens.length < fuel)
            (isUnderway_piece piece)
          rw [hooqLoop, atEnd_of_isUnderway underway, XmlContent.tokens, List.cons_append,
            readNext_of_isUnderway underway]
          cases piece <;> exact behind
  | element child attributes children content childrenIH ih =>
      cases fuel with
      | zero => simp at enough
      | succ fuel =>
          simp only [XmlContent.tokens, List.length_cons, List.length_append] at enough
          obtain ⟨plain, flatRest⟩ := Bool.and_eq_true_iff.mp flat
          have parsed := parseChild_content (by simpa using plain)
            (content.tokens ++ .endElement name :: rest)
          have behind := ih flatRest (by omega : content.tokens.length < fuel)
            (isUnderway_endElement child)
          rw [hooqLoop, atEnd_of_isUnderway underway, XmlContent.tokens, List.cons_append,
            readNext_of_isUnderway underway, List.append_assoc, List.cons_append]
          simp only [Bool.false_eq_true, if_false, parsed, behind, XmlContent.elements,
            List.filterMap_cons]
          cases parseElement ⟨child, attributes, children.text⟩ <;> rfl

/-- Between the prolog and the epilog, only the root element matters. -/
theorem documentLoop_misc (misc : List XmlMisc) (fuel : Nat) {token : XmlToken}
    (underway : IsUnderway token) (rest : List XmlToken) :
    ∃ last, IsUnderway last ∧
      documentLoop (misc.length + fuel) ⟨token, misc.map XmlMisc.token ++ rest⟩ =
        documentLoop fuel ⟨last, rest⟩ := by
  induction misc generalizing token with
  | nil => exact ⟨token, underway, by simp⟩
  | cons head misc ih =>
      obtain ⟨last, lastUnderway, behind⟩ := ih (isUnderway_misc head)
      refine ⟨last, lastUnderway, ?_⟩
      rw [List.length_cons, Nat.add_right_comm, documentLoop, atEnd_of_isUnderway underway,
        List.map_cons, List.cons_append, readNext_of_isUnderway underway]
      cases head <;> exact behind

theorem documentLoop_root {name : QString} {attributes : Attributes} {content : XmlContent}
    (flat : name = QString.ofString "hooq" → content.isFlat isRecognised = true)
    (epilog : List XmlMisc) (fuel : Nat) {token : XmlToken} (underway : IsUnderway token) :
    documentLoop (epilog.length + fuel + 3)
        ⟨token, .startElement name attributes :: (content.tokens ++
          .endElement name :: (epilog.map XmlMisc.token ++ [.endDocument]))⟩ =
      if name = QString.ofString "hooq" then
        some (content.elements.filterMap parseElement, true)
      else
        none := by
  rw [documentLoop, atEnd_of_isUnderway underway, readNext_of_isUnderway underway]
  simp only [Bool.false_eq_true, if_false]
  split_ifs with isHooq
  · rw [parseHooq, hooqLoop_content (flat isHooq) _ (isUnderway_startElement name attributes)]
    simp only [List.length_append]
    omega
  · obtain ⟨last, lastUnderway, behind⟩ :=
      documentLoop_misc epilog (fuel + 2) (isUnderway_endElement name) [.endDocument]
    rw [skipElement_content, Nat.add_assoc, behind, documentLoop,
      atEnd_of_isUnderway lastUnderway, readNext_of_isUnderway lastUnderway]
    rfl

/-- The items of a recording are those of the children of the root element that are
recognised, in document order.  A root element with another name has none.  Elements are
skipped up to their own end tags. -/
theorem parse_recording (document : XmlDocument)
    (flat : document.name = QString.ofString "hooq" →
      document.content.isFlat isRecognised = true) :
    (parseDocument document.tokens =
      if document.name = QString.ofString "hooq" then
        some (document.content.elements.filterMap parseElement, true)
      else
        none) ∧
    ∀ (name : QString) (attributes : Attributes) (content : XmlContent) (rest : List XmlToken),
      skipElement
          ⟨.startElement name attributes, content.tokens ++ .endElement name :: rest⟩ =
        ⟨.endElement name, rest⟩ := by
  refine ⟨?_, skipElement_content⟩
  obtain ⟨last, lastUnderway, behind⟩ := documentLoop_misc document.prolog
    (document.epilog.length + (document.content.tokens.length + 1) + 3)
    isUnderway_noToken
    (.startElement document.name document.attributes :: (document.content.tokens ++
      .endElement document.name :: (document.epilog.map XmlMisc.token ++ [.endDocument])))
  have fuel : document.tokens.length + 1 = document.prolog.length +
      (document.epilog.length + (document.content.tokens.length + 1) + 3) := by
    simp only [XmlDocument.tokens, List.length_append, List.length_cons, List.length_map,
      List.length_nil]
    omega
  rw [parseDocument, fuel, XmlFileReader.ofTokens, XmlDocument.tokens, behind,
    documentLoop_root flat _ _ lastUnderway]

/-- A recording with an unknown element that holds a whole recording. -/
def nestedRecording : XmlDocument where
  prolog := [.declaration, .whitespace "\n"]
  name := "hooq"
  attributes := []
  content :=
    .leaf (.characters "\n") <|
    .element "msec" [] (.leaf (.characters "4") <| .leaf .comment <| .leaf (.characters "2") .nil) <|
    .element "unknown" []
      (.element "hooq" [] (.element "msec" [] (.leaf (.characters "7") .nil) .nil) .nil) <|
    .element "windowClosed" [("target", "main")] .nil .nil
  epilog := [.comment]

theorem nestedRecording_parsed :
    parseDocument nestedRecording.tokens =
      some ([.ofMethod "msleep" (.int 42), ⟨.path "main", [], "close", .invalid⟩], true) :=
  (parse_recording nestedRecording (by decide +kernel)).1.trans (by decide +kernel)

end XmlToQtScript

end Hooq

import Hooq.Control.ReplyStream

/-!
# Properties of objects

Which properties of an object survive being dumped and read back.  The dumper chooses them
by the type of their value, and the reader by the name of their type.
-/

namespace Hooq

/-! ## Texts in documents -/

namespace QString

/-- Line breaks as an XML reader reports them in the text of an element, where the writer
leaves a carriage return as it is. -/
def lineEnds : QString → QString
  | [] => []
  | unit :: rest =>
      if unit = 13 then
        if rest.head? = some 10 then lineEnds rest else 10 :: lineEnds rest
      else
        unit :: lineEnds rest

/-- The characters that an XML document can hold. -/
def isLegal : QString → Bool
  | [] => true
  | unit :: rest =>
      if 0xD800 ≤ unit ∧ unit < 0xDC00 then
        match rest with
        | [] => false
        | low :: later => 0xDC00 ≤ low && low < 0xE000 && isLegal later
      else
        (unit = 9 || unit = 10 || unit = 13 || (0x20 ≤ unit && unit < 0xD800) ||
          (0xE000 ≤ unit && unit ≤ 0xFFFD)) && isLegal rest

theorem lineEnds_of_not_mem {text : QString} (noReturn : 13 ∉ text) : lineEnds text = text := by
  induction text with
  | nil => rfl
  | cons unit rest ih =>
      rw [List.mem_cons, not_or] at noReturn
      rw [lineEnds, if_neg (Ne.symm noReturn.1), ih noReturn.2]

theorem not_mem_lineEnds (text : QString) : 13 ∉ lineEnds text := by
  induction text with
  | nil => exact List.not_mem_nil
  | cons unit rest ih =>
      rw [lineEnds]
      split
      · split
        · exact ih
        · exact List.not_mem_cons_of_ne_of_not_mem (by decide) ih
      next other => exact List.not_mem_cons_of_ne_of_not_mem (Ne.symm other) ih

/-- A text comes back as it is when it has no carriage return. -/
theorem lineEnds_eq_self_iff (text : QString) : lineEnds text = text ↔ 13 ∉ text := by
  constructor
  · intro same
    rw [← same]
    exact not_mem_lineEnds text
  · exact lineEnds_of_not_mem

end QString

/-! ## Properties -/

/-- What `QMetaProperty::read` gives, by `QMetaProperty::type`: the type of an enumeration
that is not registered is that of an int. -/
inductive MetaValue where
  | bool (value : Bool)
  | int (value : Int32)
  | double (text : QString)
  | string (value : QString)
  | other
  deriving DecidableEq, Repr

/-- A property of a class.  Its type comes from the name of its type: other names than `int`
and `double` also stand for an int or a double. -/
structure MetaProperty where
  name : QString
  typeName : QString
  value : MetaValue
  isBool : typeName = QString.ofString "bool" ↔ ∃ flag, value = .bool flag
  isString : typeName = QString.ofString "QString" ↔ ∃ text, value = .string text
  isInt : typeName = QString.ofString "int" → ∃ number, value = .int number
  isDouble : typeName = QString.ofString "double" → ∃ text, value = .double text

namespace MetaProperty

variable {property : MetaProperty}

theorem ne_bool (other : ∀ flag, property.value ≠ .bool flag) :
    property.typeName ≠ QString.ofString "bool" :=
  fun same => (property.isBool.mp same).elim other

theorem ne_string (other : ∀ text, property.value ≠ .string text) :
    property.typeName ≠ QString.ofString "QString" :=
  fun same => (property.isString.mp same).elim other

theorem ne_int (other : ∀ number, property.value ≠ .int number) :
    property.typeName ≠ QString.ofString "int" :=
  fun same => (property.isInt same).elim other

theorem ne_double (other : ∀ text, property.value ≠ .double text) :
    property.typeName ≠ QString.ofString "double" :=
  fun same => (property.isDouble same).elim other

end MetaProperty

/-- An object of the application with the properties of its class and its base classes. -/
structure InspectedObject where
  name : QString
  path : QString
  className : QString
  properties : List MetaProperty

namespace XmlPropertyDumper

def dumpProperty (property : MetaProperty) : Option ObjectProperty :=
  match property.value with
  | .bool value => some ⟨property.name, property.typeName, if value then "true" else "false"⟩
  | .int value => some ⟨property.name, property.typeName, QString.number value.toInt⟩
  | .double text => some ⟨property.name, property.typeName, text⟩
  | .string value => some ⟨property.name, property.typeName, value⟩
  | .other => none

def dump (object : InspectedObject) : ObjectDocument :=
  ⟨object.name, object.path, object.className, object.properties.filterMap dumpProperty⟩

end XmlPropertyDumper

namespace ObjectDocument

/-- All texts can stand in a document. -/
def isLegal (document : ObjectDocument) : Bool :=
  document.name.isLegal && document.path.isLegal && document.className.isLegal &&
    document.properties.all fun property =>
      property.name.isLegal && property.typeName.isLegal && property.value.isLegal

/-- The document as it is read: attributes are written with their line breaks escaped, and
text is not. -/
def withLineEnds (document : ObjectDocument) : ObjectDocument :=
  { document with
    properties := document.properties.map fun property =>
      { property with value := property.value.lineEnds } }

end ObjectDocument

/-- A reader finds what is written, if that can stand in a document. -/
def ObjectXml.ReadsWritten (xml : ObjectXml) (document : ObjectDocument) : Prop :=
  document.isLegal = true →
    xml.tokens (xml.document document) =
      document.withLineEnds.openTokens ++ [.stop, .character 10]

/-! ## What is read back -/

section

variable {Double : Type} (toDouble : QString → Double)

/-- The value of a property, of the types that are to be read back. -/
def MetaProperty.expected (property : MetaProperty) : Option (PropertyValue Double) :=
  match property.value with
  | .bool value => some (.bool value)
  | .int value => some (.int value)
  | .string value => some (.string value)
  | .double _ | .other => none

/-- The object is read back with its properties. -/
structure ReadsBack (object : InspectedObject) (information : ObjectInformation Double) : Prop where
  name : information.name = object.name
  path : information.path = object.path
  className : information.className = object.className
  properties : ∀ property ∈ object.properties, ∀ value, property.expected = some value →
    information.properties.lookup property.name = some value

/-- What the reader makes of a property: it knows the type names `bool`, `QString`, `int` and
`double`, and line breaks have changed. -/
def MetaProperty.known (property : MetaProperty) : Option (PropertyValue Double) :=
  match property.value with
  | .bool value => some (.bool value)
  | .int value => if property.typeName = QString.ofString "int" then some (.int value) else none
  | .double text =>
      if property.typeName = QString.ofString "double" then
        some (.double (toDouble text.lineEnds))
      else
        none
  | .string value => some (.string value.lineEnds)
  | .other => none

/-- The last property of a name that the reader knows. -/
def lastKnown (properties : List MetaProperty) (name : QString) :
    Option (PropertyValue Double) :=
  ((properties.filter fun property => property.name = name).filterMap
    (MetaProperty.known toDouble)).getLast?

/-- Every property is, under its name, the last one that the reader knows, and its text has
no carriage return. -/
def IsKnown (object : InspectedObject) : Prop :=
  ∀ property ∈ object.properties, ∀ value, property.expected = some value →
    lastKnown toDouble object.properties property.name = some value

theorem lineEnds_number (value : Int) :
    (QString.number value).lineEnds = QString.number value := by
  apply QString.lineEnds_of_not_mem
  intro member
  have noDigit : ∀ magnitude : Nat,
      13 ∉ (Library.Decimal.digits magnitude).map QString.digitOf := by
    intro magnitude member
    have solid := QString.isSpace_of_mem_digits member
    exact absurd solid (by decide)
  rw [QString.number] at member
  split at member
  · exact noDigit _ ((List.mem_cons.mp member).resolve_left (by decide))
  · exact noDigit _ member

/-- The reader inserts a dumped property as what it knows it as. -/
theorem insertProperty_element {property : MetaProperty} {written : ObjectProperty}
    (dumped : XmlPropertyDumper.dumpProperty property = some written)
    (properties : List (QString × PropertyValue Double)) :
    ObjectInformation.insertProperty toDouble properties written.name written.typeName
        written.value.lineEnds =
      match property.known toDouble with
      | some value => QMap.insert properties property.name value
      | none => properties := by
  rw [XmlPropertyDumper.dumpProperty] at dumped
  rw [ObjectInformation.insertProperty, MetaProperty.known]
  cases value : property.value with
  | bool flag =>
      rw [value] at dumped
      cases dumped
      have isTrue : decide ((if flag then QString.ofString "true" else
          QString.ofString "false").lineEnds = QString.ofString "true") = flag := by
        cases flag <;> decide
      rw [if_pos (property.isBool.mpr ⟨flag, value⟩), isTrue]
  | int number =>
      have noBool := MetaProperty.ne_bool fun _ same => by cases value.symm.trans same
      have noString := MetaProperty.ne_string fun _ same => by cases value.symm.trans same
      have noDouble := MetaProperty.ne_double fun _ same => by cases value.symm.trans same
      rw [value] at dumped
      cases dumped
      simp only [if_neg noBool, if_neg noString, if_neg noDouble, lineEnds_number,
        QString.toInt_number]
      split <;> rfl
  | double text =>
      have noBool := MetaProperty.ne_bool fun _ same => by cases value.symm.trans same
      have noString := MetaProperty.ne_string fun _ same => by cases value.symm.trans same
      have noInt := MetaProperty.ne_int fun _ same => by cases value.symm.trans same
      rw [value] at dumped
      cases dumped
      simp only [if_neg noBool, if_neg noString, if_neg noInt]
      split <;> rfl
  | string text =>
      have noBool := MetaProperty.ne_bool fun _ same => by cases value.symm.trans same
      rw [value] at dumped
      cases dumped
      rw [if_neg noBool, if_pos (property.isString.mpr ⟨text, value⟩)]
  | other =>
      rw [value] at dumped
      cases dumped

/-- A property that is not dumped is not known. -/
theorem known_of_not_dumped {property : MetaProperty}
    (skipped : XmlPropertyDumper.dumpProperty property = none) :
    property.known toDouble = none := by
  rw [XmlPropertyDumper.dumpProperty] at skipped
  rw [MetaProperty.known]
  cases value : property.value with
  | other => rfl
  | _ =>
      rw [value] at skipped
      cases skipped

theorem lastKnown_cons (property : MetaProperty) (rest : List MetaProperty) (name : QString) :
    lastKnown toDouble (property :: rest) name =
      (lastKnown toDouble rest name).or
        (if property.name = name then property.known toDouble else none) := by
  rw [lastKnown, lastKnown, List.filter_cons]
  by_cases isName : property.name = name
  · rw [if_pos (decide_eq_true isName), if_pos isName, List.filterMap_cons]
    cases property.known toDouble with
    | none => rw [Option.or_none]
    | some value =>
        simp only [List.getLast?_cons]
        cases (List.filterMap _ _).getLast? <;> rfl
  · rw [if_neg (by simpa using isName), if_neg isName, Option.or_none]

/-- After all properties, a name stands for the last known property of the name. -/
theorem lookup_properties (properties : List MetaProperty) (name : QString)
    (start : List (QString × PropertyValue Double)) :
    (((properties.filterMap XmlPropertyDumper.dumpProperty).map fun property =>
        { property with value := property.value.lineEnds }).foldl
      (fun properties property => ObjectInformation.insertProperty toDouble properties
        property.name property.typeName property.value) start).lookup name =
      (lastKnown toDouble properties name).or (start.lookup name) := by
  induction properties generalizing start with
  | nil => rfl
  | cons property rest ih =>
      rw [lastKnown_cons, Option.or_assoc, List.filterMap_cons]
      cases dumped : XmlPropertyDumper.dumpProperty property with
      | none =>
          rw [ih start, known_of_not_dumped toDouble dumped, ite_self, Option.none_or]
      | some written =>
          simp only [List.map_cons, List.foldl_cons]
          rw [ih, insertProperty_element toDouble dumped]
          congr 1
          cases property.known toDouble with
          | none => rw [ite_self, Option.none_or]
          | some value =>
              simp only [QMap.lookup_insert, @eq_comm _ name]
              split <;> rfl

theorem fromXml_dump {xml : ObjectXml} {object : InspectedObject}
    (reads : xml.ReadsWritten (XmlPropertyDumper.dump object))
    (legal : (XmlPropertyDumper.dump object).isLegal = true) :
    ObjectInformation.fromXml toDouble xml (xml.document (XmlPropertyDumper.dump object)) =
      ObjectInformation.ofDocument toDouble (XmlPropertyDumper.dump object).withLineEnds := by
  rw [ObjectInformation.fromXml, reads legal]
  exact ObjectInformation.readObject_document toDouble _ (.inr (.inr rfl))

/-- An object is read back with its properties exactly when each of them is known. -/
theorem readsBack_iff {xml : ObjectXml} {object : InspectedObject}
    (reads : xml.ReadsWritten (XmlPropertyDumper.dump object))
    (legal : (XmlPropertyDumper.dump object).isLegal = true) :
    ReadsBack object (ObjectInformation.fromXml toDouble xml
        (xml.document (XmlPropertyDumper.dump object))) ↔
      IsKnown toDouble object := by
  rw [fromXml_dump toDouble reads legal]
  have found := fun name => lookup_properties toDouble object.properties name []
  constructor
  · intro back property member value expected
    have read := back.properties property member value expected
    rw [← read]
    refine (Option.or_none).symm.trans ?_
    exact (found property.name).symm
  · intro known
    refine ⟨rfl, rfl, rfl, ?_⟩
    intro property member value expected
    rw [← known property member value expected]
    exact (found property.name).trans Option.or_none

theorem lastKnown_of_nodup {properties : List MetaProperty}
    (distinct : (properties.map MetaProperty.name).Nodup) {property : MetaProperty}
    (member : property ∈ properties) :
    lastKnown toDouble properties property.name = property.known toDouble := by
  have absent : ∀ (rest : List MetaProperty) (name : QString),
      name ∉ rest.map MetaProperty.name → lastKnown toDouble rest name = none := by
    intro rest name absent
    have none : rest.filter (fun property => property.name = name) = [] := by
      rw [List.filter_eq_nil_iff]
      intro other isOther same
      exact absent (List.mem_map.mpr ⟨other, isOther, of_decide_eq_true same⟩)
    rw [lastKnown, none]
    rfl
  induction properties with
  | nil => cases member
  | cons first rest ih =>
      rw [List.map_cons, List.nodup_cons] at distinct
      rw [lastKnown_cons]
      rcases List.mem_cons.mp member with rfl | later
      · rw [absent rest _ distinct.1, if_pos rfl, Option.none_or]
      · have other : first.name ≠ property.name := by
          intro same
          rw [same] at distinct
          exact distinct.1 (List.mem_map_of_mem later)
        rw [if_neg other, Option.or_none, ih distinct.2 later]

/-- Where the names are distinct, enumerations are lost and carriage returns are changed. -/
theorem isKnown_iff_of_nodup {object : InspectedObject}
    (distinct : (object.properties.map MetaProperty.name).Nodup) :
    IsKnown toDouble object ↔
      ∀ property ∈ object.properties,
        (∀ number, property.value = .int number →
          property.typeName = QString.ofString "int") ∧
        ∀ text, property.value = .string text → 13 ∉ text := by
  rw [IsKnown]
  apply forall₂_congr
  intro property member
  rw [lastKnown_of_nodup toDouble distinct member, MetaProperty.known, MetaProperty.expected]
  cases property.value with
  | bool flag => simp
  | int number => simp
  | double text => simp
  | string text => simp [QString.lineEnds_eq_self_iff]
  | other => simp

end

/-! ## A label with a direction -/

/-- A reader that knows one document, whose bytes are given. -/
def singleXml (document : ObjectDocument) (bytes : QByteArray) : ObjectXml where
  body _ := bytes
  tokens whole :=
    if whole = bytes ++ (endTag ++ [newlineByte]) then
      document.withLineEnds.openTokens ++ [.stop, .character 10]
    else
      []

theorem singleXml_reads (document : ObjectDocument) (bytes : QByteArray) :
    (singleXml document bytes).ReadsWritten document :=
  fun _ => if_pos rfl

def visibleProperty : MetaProperty where
  name := "visible"
  typeName := "bool"
  value := .bool true
  isBool := iff_of_true rfl ⟨true, rfl⟩
  isString := iff_of_false (by decide) (by simp)
  isInt := fun same => absurd same (by decide)
  isDouble := fun same => absurd same (by decide)

/-- The type of the property is an enumeration of Qt. -/
def directionProperty : MetaProperty where
  name := "layoutDirection"
  typeName := "Qt::LayoutDirection"
  value := .int 0
  isBool := iff_of_false (by decide) (by simp)
  isString := iff_of_false (by decide) (by simp)
  isInt := fun same => absurd same (by decide)
  isDouble := fun same => absurd same (by decide)

def labelObject (property : MetaProperty) : InspectedObject :=
  ⟨"ok", "ok", "QLabel", [property]⟩

def directionBody : QByteArray :=
  QByteArray.ofString "<?xml version=\"1.0\" encoding=\"UTF-8\"?>" ++
    (QByteArray.ofString "<object name=\"ok\" path=\"ok\" class=\"QLabel\">" ++
      QByteArray.ofString
        "<property name=\"layoutDirection\" type=\"Qt::LayoutDirection\">0</property>")

theorem visibleProperty_readsBack :
    ReadsBack (labelObject visibleProperty)
      (ObjectInformation.fromXml (fun _ : QString => ())
        (singleXml (XmlPropertyDumper.dump (labelObject visibleProperty)) Replies.labelBody)
        ((singleXml (XmlPropertyDumper.dump (labelObject visibleProperty))
          Replies.labelBody).document (XmlPropertyDumper.dump (labelObject visibleProperty)))) := by
  apply (readsBack_iff (fun _ : QString => ()) (singleXml_reads _ _) (by decide +kernel)).mpr
  rw [isKnown_iff_of_nodup _ (by simp [labelObject])]
  intro property member
  cases List.mem_singleton.mp member
  exact ⟨by simp [visibleProperty], by simp [visibleProperty]⟩

/-- A property of an enumeration is dumped, and then left out by the reader. -/
theorem directionProperty_not_readsBack :
    ¬ ∀ (xml : ObjectXml) (object : InspectedObject),
      xml.ReadsWritten (XmlPropertyDumper.dump object) →
      (XmlPropertyDumper.dump object).isLegal = true →
      ReadsBack object (ObjectInformation.fromXml (fun _ : QString => ()) xml
        (xml.document (XmlPropertyDumper.dump object))) := by
  intro always
  have back := always (singleXml (XmlPropertyDumper.dump (labelObject directionProperty))
    directionBody) (labelObject directionProperty) (singleXml_reads _ _) (by decide +kernel)
  have read := back.properties directionProperty List.mem_cons_self (.int 0) rfl
  rw [fromXml_dump _ (singleXml_reads _ _) (by decide +kernel)] at read
  exact absurd read (by decide +kernel)

end Hooq

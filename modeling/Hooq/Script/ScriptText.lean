import Hooq.Script.Calls
import Hooq.Script.Naming
import Hooq.Script.Reading

/-!
# Whole scripts are read back

The text of a script as the script engine reads it: a call that checks the version, and then
the calls of the items, one statement a line.
-/

namespace Hooq

open Hooq.Library Hooq.Library.Separator Hooq.Library.StringLiteral

/-! ## What the passes leave -/

open XmlToQtScript in
/-- An item that is written without variables, or left out. -/
structure Item.IsWritten (item : Item) : Prop where
  target : ∀ name, item.target ≠ .variable name
  scripted : item.method = [] ∨ item.IsScripted
  recorded : isRecorded item.parameters = true
  known : item.parameters = .invalid ∨ isParameter item.parameters = true

theorem Item.isWritten_empty : IsWritten .empty :=
  ⟨fun _ => Target.noConfusion, .inl rfl, rfl, .inl rfl⟩

namespace XmlToQtScript

theorem areParameters_insert {key : QString} (isName : Expression.isName key = true)
    {inserted : QVariant} (known : isParameter inserted = true) {map : QVariantMap}
    (others : areParameters map = true) : areParameters (map.insert key inserted) = true := by
  induction map using QVariantMap.rec (motive_1 := fun _ => True) with
  | empty => simp [QVariantMap.insert, areParameters, isName, known]
  | entry first found rest _ ih =>
      simp only [areParameters, Bool.and_eq_true] at others
      simp only [QVariantMap.insert]
      split
      · simp [areParameters, isName, known, others]
      · split
        · simp [areParameters, isName, known, others]
        · simp [areParameters, others, ih others.2]
  | _ => trivial

theorem areParameters_remove (key : QString) {map : QVariantMap}
    (others : areParameters map = true) : areParameters (map.remove key) = true := by
  induction map using QVariantMap.rec (motive_1 := fun _ => True) with
  | empty => rfl
  | entry first found rest _ ih =>
      simp only [areParameters, Bool.and_eq_true] at others
      simp only [QVariantMap.remove]
      split
      · exact ih others.2
      · simp [areParameters, others, ih others.2]
  | _ => trivial

theorem areParameters_toMap {parameters : QVariant}
    (known : parameters = .invalid ∨ isParameter parameters = true) :
    areParameters parameters.toMap = true := by
  cases parameters with
  | map value =>
      have isMap := known.resolve_left fun impossible => by cases impossible
      rwa [isParameter] at isMap
  | _ => rfl

theorem isWritten_parse {element : Element} {item : Item}
    (parsed : parseElement element = some item) : item.IsWritten := by
  have parses := parses_of_parseElement parsed
  have recorded : isRecorded item.parameters = true := by cases parses <;> rfl
  have target (name : QString) : item.target ≠ .variable name := by
    have plain (field : QString) : targetOf element.attributes field ≠ .variable name := by
      rw [targetOf]
      split
      · exact fun impossible => by cases impossible
      · exact fun impossible => by cases impossible
    cases parses with
    | msec => exact fun impossible => by cases impossible
    | _ => exact plain _
  have scripted : item.method = [] ∨ item.IsScripted := by
    have listed (method : QString) (member : method ∈ frameMethods ++ passingMethods) :
        method = [] ∨ method ∈ frameMethods ++ passingMethods :=
      .inr member
    have either {condition : Prop} [Decidable condition] {first second : QString}
        (isFirst : first = [] ∨ first ∈ frameMethods ++ passingMethods)
        (isSecond : second = [] ∨ second ∈ frameMethods ++ passingMethods) :
        (if condition then first else second) = [] ∨
          (if condition then first else second) ∈ frameMethods ++ passingMethods := by
      split
      · exact isFirst
      · exact isSecond
    cases parses with
    | msec => exact listed "msleep" (by decide)
    | windowClosed => exact listed "close" (by decide)
    | focusChanged => exact listed "setFocus" (by decide)
    | key =>
        exact either (listed "pressKey" (by decide))
          (either (listed "releaseKey" (by decide)) (.inl rfl))
    | mouse =>
        exact either (listed "moveMouse" (by decide))
          (either (listed "doubleClickMouseButton" (by decide))
            (either (listed "pressMouseButton" (by decide))
              (either (listed "releaseMouseButton" (by decide)) (.inl rfl))))
    | mouseWheel => exact listed "mouseWheel" (by decide)
    | shortcut => exact listed "shortcut" (by decide)
    | contextMenu => exact listed "contextMenu" (by decide)
    | dragAndDrop => exact listed "drop" (by decide)
  exact ⟨target, scripted, recorded, isParameter_parse parsed⟩

end XmlToQtScript

theorem SimplifyMouseMovements.collect_parameters (Good : QVariantMap → Prop) {target : Target}
    {iterator : Item} {parameters : QVariantMap} {duration : Int32} {input : List Item}
    (start : Good parameters) (others : ∀ next ∈ input, Good next.parameters.toMap) :
    Good (collect target iterator parameters duration input).parameters := by
  fun_induction collect target iterator parameters duration input with
  | case4 iterator parameters duration msec next rest _ _ ih =>
      apply ih
      · exact others next (List.mem_cons_of_mem _ List.mem_cons_self)
      · intro other member
        exact others other (List.mem_cons_of_mem _ (List.mem_cons_of_mem _ member))
  | _ => exact start

open XmlToQtScript in
theorem simplifyMouseMovements_written : simplifyMouseMovements.Preserves Item.IsWritten := by
  intro state item input next outcome processed good
  cases processed
  constructor
  · intro other member
    rw [Outcome.mem_emitted member]
    exact good _ ((SimplifyMouseMovements.process_shape item input).1.mem List.mem_cons_self)
  · intro insertion member
    rw [SimplifyMouseMovements.process] at member
    split at member
    next isMove =>
      rw [List.mem_singleton.mp member]
      have parameters (other : Item) (isOther : other ∈ item :: input) :
          areParameters other.parameters.toMap = true :=
        areParameters_toMap (good other isOther).known
      have last : areParameters (SimplifyMouseMovements.collect item.target item
          item.parameters.toMap 0 input).parameters = true :=
        SimplifyMouseMovements.collect_parameters (fun map => areParameters map = true)
          (parameters item List.mem_cons_self)
          fun other isOther => parameters other (List.mem_cons_of_mem _ isOther)
      have method : QString.ofString "moveMouse" ∈ frameMethods ++ passingMethods := by decide
      refine ⟨(good item List.mem_cons_self).target, .inr method, rfl, .inr ?_⟩
      change areParameters _ = true
      exact areParameters_insert (by decide) rfl (areParameters_insert (by decide) rfl
        (areParameters_insert (by decide) rfl (areParameters_insert (by decide) rfl
          (areParameters_insert (by decide) rfl
            (areParameters_remove _ (areParameters_remove _ last))))))
    next => cases member

theorem simplifyStrings_written : simplifyStrings.Preserves Item.IsWritten := by
  apply simplifyStrings_preserves_of Item.isWritten_empty
  intro item text written
  have method : QString.ofString "sendText" ∈ frameMethods ++ passingMethods := by decide
  exact ⟨written.target, .inr method, rfl, .inr rfl⟩

theorem isWritten_postProcess {isLetterOrNumber : QChar → Bool} {options : Options}
    (noObjects : options.objectVariables = false) (noStrings : options.stringVariables = false)
    {items output : List Item} (processed : postProcess isLetterOrNumber options items = .ok output)
    (written : ∀ item ∈ items, item.IsWritten) : ∀ item ∈ output, item.IsWritten := by
  apply good_runAll _ processed written
  intro processor member
  simp only [postProcessors, noObjects, noStrings, Bool.false_eq_true, if_false, List.append_nil,
    List.mem_append, List.mem_ite_nil_right, List.mem_singleton] at member
  rcases member with ((⟨_, rfl⟩ | ⟨_, rfl⟩) | ⟨_, rfl⟩) | ⟨_, rfl⟩
  · exact filterQtInternals_preserves_of Item.isWritten_empty
  · exact stripMouseMovements_preserves_of Item.isWritten_empty
  · exact simplifyMouseMovements_written
  · exact simplifyStrings_written

namespace XmlToQtScript

/-- Each item of a recording stands for an element. -/
theorem exists_element_of_hooqLoop {fuel : Nat} {reader : XmlFileReader} {item : Item}
    (member : item ∈ (hooqLoop fuel reader).1) : ∃ element, parseElement element = some item := by
  induction fuel generalizing reader with
  | zero => cases member
  | succ fuel ih =>
      rw [hooqLoop] at member
      split at member
      · cases member
      · dsimp only at member
        split at member
        next name attributes _ =>
          rcases List.mem_append.mp member with here | later
          · rw [parseChild] at here
            dsimp only at here
            split at here
            next found parsed =>
              rw [Option.toList_some, List.mem_singleton] at here
              exact ⟨_, here ▸ parsed⟩
            next => cases here
          · exact ih later
        next => cases member
        next => exact ih member

theorem exists_element_of_parseDocument {file : List XmlToken} {items : List Item}
    {complete : Bool} (parsed : parseDocument file = some (items, complete)) :
    ∀ item ∈ items, ∃ element, parseElement element = some item := by
  have loop (fuel : Nat) (reader : XmlFileReader)
      (found : documentLoop fuel reader = some (items, complete)) :
      ∀ item ∈ items, ∃ element, parseElement element = some item := by
    induction fuel generalizing reader with
    | zero => cases found
    | succ fuel ih =>
        rw [documentLoop] at found
        split at found
        · cases found
        · dsimp only at found
          split at found
          next =>
            split at found
            next =>
              have same := Option.some.inj found
              intro item member
              have parsed : (parseHooq reader.readNext).1 = items := congrArg Prod.fst same
              rw [← parsed, parseHooq] at member
              exact exists_element_of_hooqLoop member
            next => exact ih _ found
          next => exact ih _ found
  exact loop _ _ parsed

/-! ## The text of a script -/

/-- `XmlToQtScript::scriptVersion`. -/
def scriptVersion : Int32 := 2

section

variable (tables : CharacterTables) (qt : QtNamespace)

/-- The first line of a script. -/
def versionLine : QString :=
  tables.arg "requireHooqScriptVersion(%1);\n" (QString.number scriptVersion.toInt)

/-- `XmlToQtScript::parse`, unless a post-processor fails. -/
def parse (options : Options) (file : List XmlToken) : Except Fault QString :=
  match parseDocument file with
  | none => .ok (versionLine tables)
  | some (items, complete) => do
      let output ← postProcess tables.isLetterOrNumber options items
      let text := serialize tables qt.keyName output true
      .ok (versionLine tables ++
        if complete then text else "/* Unexpected EOF in XML */\n" ++ text)

/-- The calls of the statements that the script engine reads in a text. -/
def scriptCalls (text : QString) : Option (List (List Expression.Call)) :=
  let source := tables.sourceText text
  Expression.program tables.alphabet qt.environment (source.length + 1) source

/-- The call that checks the version. -/
def versionCall : Expression.Call :=
  ⟨"requireHooqScriptVersion", some (.number scriptVersion.toInt)⟩

def statementText (item : Item) : QString :=
  (serializeItem tables qt.keyName true item).getD []

variable {tables} {qt}

theorem sourceText_join (separator : QString) (texts : List QString) :
    tables.sourceText (join separator texts) =
      join (tables.sourceText separator) (texts.map tables.sourceText) := by
  induction texts with
  | nil => rfl
  | cons first texts ih =>
      cases texts with
      | nil => simp [join]
      | cons next texts =>
          have more : (next :: texts).map tables.sourceText ≠ [] := List.cons_ne_nil _ _
          rw [join_cons (List.cons_ne_nil _ _), List.map_cons, join_cons more,
            tables.sourceText_append, tables.sourceText_append, ih]

theorem serializeItem_valid {item : Item} (valid : item.isValid = true) :
    serializeItem tables qt.keyName true item = some (statementText tables qt item) := by
  have named : item.method ≠ [] := of_decide_eq_true valid
  rw [statementText, serializeItem, statement.eq_def, if_neg named]
  split
  · split <;> rfl
  · rfl
  · rfl

theorem serialize_eq (items : List Item) :
    serialize tables qt.keyName items true =
      join (QString.ofString "\n") ((items.filter Item.isValid).map (statementText tables qt)) := by
  have texts : items.filterMap (serializeItem tables qt.keyName true) =
      (items.filter Item.isValid).map (statementText tables qt) := by
    induction items with
    | nil => rfl
    | cons item items ih =>
        by_cases valid : item.isValid = true
        · rw [List.filterMap_cons, serializeItem_valid valid, List.filter_cons_of_pos valid,
            List.map_cons, ih]
        · have unnamed : item.method = [] := by simpa [Item.isValid] using valid
          rw [List.filterMap_cons, List.filter_cons_of_neg valid, ← ih, serializeItem,
            statement.eq_def, if_pos unnamed]
  rw [serialize, texts]

theorem versionLine_eq :
    versionLine tables = QString.ofString "requireHooqScriptVersion" ++
      Expression.openParenthesis :: (printed tables qt (.int scriptVersion) ++
        [Expression.closeParenthesis, Expression.semicolon]) ++ QString.ofString "\n" := by
  have template : QString.ofString "requireHooqScriptVersion(%1);\n" =
      QString.ofString "requireHooqScriptVersion(" ++ (CharacterTables.place 1 ++
        [41, 59, 10]) := by
    decide
  have numbers : tables.markers (QString.ofString "requireHooqScriptVersion(" ++
      (CharacterTables.place 1 ++ [41, 59, 10])) = [1] := by
    rw [tables.markers_inert (by decide), tables.stops_close.markers_place (by decide)]
    rfl
  have value : printed tables qt (.int scriptVersion) = QString.number scriptVersion.toInt := by
    rw [printed, parametersString]
  have unmarked : tables.markers [41, 59, 10] = [] := rfl
  rw [versionLine, template, tables.arg_eq_fill (show 1 ∈ _ by rw [numbers]; decide)
    (by rw [numbers]; decide), tables.fill_inert (by decide),
    tables.stops_close.fill_place_self (by decide),
    tables.fill_of_not_mem (by rw [unmarked]; decide), value]
  rfl

/-- The statement of an item is read as its calls exactly if its parts are kept. -/
theorem isStatement_item {item : Item} (written : item.IsWritten) (valid : item.isValid = true) :
    IsScriptStatement tables qt (statementText tables qt item) (calls item)
      (IsKept tables qt item) := by
  have named : item.method ≠ [] := of_decide_eq_true valid
  have scripted := written.scripted.resolve_left named
  have isName : Expression.isName item.method = true := by
    have all : ∀ method ∈ frameMethods ++ passingMethods,
        Expression.isName method = true := by decide
    exact all item.method scripted
  have ordinary := isOrdinary_of_isScripted tables qt.keyName scripted written.recorded
  have text : statementText tables qt item = (statement tables item.target item.method
      item.parameters (printed tables qt item.parameters) ";").getD [] := rfl
  rw [text, statement.eq_def, if_neg named]
  cases target : item.target with
  | null =>
      rw [calls, IsKept, target]
      dsimp only
      by_cases none : item.parameters = .invalid
      · rw [none]
        have never : (item.method ∈ scriptFunctions ∧ IsPreserved tables qt .invalid) = False :=
          eq_false fun kept => kept.2
        rw [never]
        exact isStatement_bare isName _
      · have isNull : isNull item.parameters = false := by
          cases found : item.parameters <;> first | rfl | exact absurd found none
        have value : argumentValue item.parameters =
            some (parameterValue item.parameters) := by
          cases found : item.parameters <;> first | rfl | exact absurd found none
        rw [isNull, value, arg_call ordinary.noPercent]
        have shape : ((if false = true then some (item.method ++ QString.ofString ";") else
            some (item.method ++ 40 :: (printed tables qt item.parameters ++ [41]) ++
              QString.ofString ";")).getD []) =
            item.method ++ Expression.openParenthesis :: (printed tables qt item.parameters ++
              [Expression.closeParenthesis, Expression.semicolon]) := by
          rw [if_neg Bool.false_ne_true, Option.getD_some, List.append_assoc, List.cons_append,
            List.append_assoc]
          rfl
        rw [shape]
        exact isStatement_call isName (written.known.resolve_left none)
  | path path =>
      rw [calls, IsKept, target]
      exact isStatement_path ordinary isName written.known
  | «variable» name => exact absurd target (written.target name)

/-- The items that the passes leave of a recording are written without variables. -/
theorem isWritten_output {options : Options} (noObjects : options.objectVariables = false)
    (noStrings : options.stringVariables = false) {file : List XmlToken} {items output : List Item}
    {complete : Bool} (parsed : parseDocument file = some (items, complete))
    (processed : postProcess tables.isLetterOrNumber options items = .ok output) :
    ∀ item ∈ output, item.IsWritten := by
  apply isWritten_postProcess noObjects noStrings processed
  intro item member
  obtain ⟨element, isElement⟩ := exists_element_of_parseDocument parsed item member
  exact isWritten_parse isElement

/-- The text of a recording that ends properly. -/
theorem parse_complete {options : Options} {file : List XmlToken} {items output : List Item}
    (complete : parseDocument file = some (items, true))
    (processed : postProcess tables.isLetterOrNumber options items = .ok output) :
    parse tables qt options file =
      .ok (versionLine tables ++ serialize tables qt.keyName output true) := by
  rw [parse, complete]
  dsimp only
  rw [processed]
  rfl

/-- Items without variables are read as their calls exactly if the parts of each item are
kept. -/
theorem scriptCalls_iff {output : List Item} (written : ∀ item ∈ output, item.IsWritten) :
    scriptCalls tables qt (versionLine tables ++ serialize tables qt.keyName output true) =
        some ([versionCall] :: (output.filter Item.isValid).map calls) ↔
      ∀ item ∈ output, item.isValid = true → IsKept tables qt item := by
  have newLine : ∀ unit ∈ QString.ofString "\n", tables.alphabet.isSpace unit = true := by
    intro unit member
    rw [List.mem_singleton.mp member, tables.alphabet.isSpace_ascii (by decide)]
    rfl
  have newLineSource : ∀ unit ∈ QString.ofString "\n", IsSource tables unit := by
    intro unit member
    rw [List.mem_singleton.mp member]
    exact tables.isFormat_ascii (by decide)
  have statements : ∀ item ∈ output.filter Item.isValid,
      Expression.IsStatement tables.alphabet qt.environment (IsSource tables)
        (tables.sourceText (statementText tables qt item)) (calls item)
        (IsKept tables qt item) := by
    intro item member
    obtain ⟨isItem, valid⟩ := List.mem_filter.mp member
    exact isStatement_item (written item isItem) valid
  have check : IsScriptStatement tables qt (QString.ofString "requireHooqScriptVersion" ++
      Expression.openParenthesis :: (printed tables qt (.int scriptVersion) ++
        [Expression.closeParenthesis, Expression.semicolon])) [versionCall] _ :=
    isStatement_call (by decide) rfl
  have source : tables.sourceText (versionLine tables ++ serialize tables qt.keyName output true) =
      tables.sourceText (QString.ofString "requireHooqScriptVersion" ++
        Expression.openParenthesis :: (printed tables qt (.int scriptVersion) ++
          [Expression.closeParenthesis, Expression.semicolon])) ++ (QString.ofString "\n" ++
            join (QString.ofString "\n") ((output.filter Item.isValid).map fun item =>
              tables.sourceText (statementText tables qt item))) := by
    have line : tables.sourceText (QString.ofString "\n") = QString.ofString "\n" :=
      tables.sourceText_ascii (by decide)
    rw [versionLine_eq, serialize_eq, List.append_assoc, tables.sourceText_append,
      tables.sourceText_append (QString.ofString "\n"), sourceText_join, line, List.map_map]
    rfl
  have known : QString.ofString "requireHooqScriptVersion" ∈ scriptFunctions ∧
      IsPreserved tables qt (.int scriptVersion) := ⟨by decide, trivial⟩
  have units : ∀ unit ∈ QString.ofString "\n" ++ join (QString.ofString "\n")
      ((output.filter Item.isValid).map fun item =>
        tables.sourceText (statementText tables qt item)), IsSource tables unit := by
    intro unit member
    rcases List.mem_append.mp member with line | text
    · exact newLineSource unit line
    · exact Expression.units_join newLineSource statements unit text
  have enough : (output.filter Item.isValid).length ≤ (join (QString.ofString "\n")
      ((output.filter Item.isValid).map fun item =>
        tables.sourceText (statementText tables qt item))).length :=
    Expression.length_le_join statements
  rw [scriptCalls, source]
  rw [check.program_iff _ units, Expression.program_blank newLine,
    Expression.program_join_iff newLine newLineSource _ statements, and_iff_right known]
  · simp only [List.mem_filter, and_imp]
  · have line : (QString.ofString "\n").length = 1 := by decide
    simp only [List.length_append, line]
    omega

/-- The text of a recording's script without variables is read as the check of the version
and the calls of the items, exactly if the parts of each item are kept. -/
theorem parse_reads_iff {options : Options} (noObjects : options.objectVariables = false)
    (noStrings : options.stringVariables = false) {file : List XmlToken} {items output : List Item}
    (complete : parseDocument file = some (items, true))
    (processed : postProcess tables.isLetterOrNumber options items = .ok output) :
    ∃ text, parse tables qt options file = .ok text ∧
      (scriptCalls tables qt text =
          some ([versionCall] :: (output.filter Item.isValid).map calls) ↔
        ∀ item ∈ output, item.isValid = true → IsKept tables qt item) :=
  ⟨_, parse_complete complete processed,
    scriptCalls_iff (isWritten_output noObjects noStrings complete processed)⟩

end

/-- A press of a button, after a pause. -/
def pressFile : List XmlToken :=
  [.startDocument, .startElement "hooq" [],
    .startElement "msec" [], .characters "20", .endElement "msec",
    .startElement "mouseButtonPress" [("target", "window"), ("targetClass", "QWidget"),
      ("x", "1"), ("y", "2"), ("button", "1"), ("buttons", "1"), ("modifiers", "0")],
    .endElement "mouseButtonPress", .endElement "hooq", .endDocument]

def pressItems : List Item :=
  [.ofMethod "msleep" (.int 20),
    ⟨.path "window", "QWidget", "pressMouseButton", .map
      (.entry "button" (.mouseButton 1) (.entry "buttons" (.mouseButtons 1)
        (.entry "modifiers" (.keyboardModifiers 0)
          (.entry "x" (.int 1) (.entry "y" (.int 2) .empty)))))⟩]

/-- The script of the press is read as its calls. -/
theorem pressFile_read :
    ∃ text, parse separatorTables smallNamespace ⟨true, true, false, false, true, true⟩ pressFile =
        .ok text ∧
      scriptCalls separatorTables smallNamespace text =
        some ([versionCall] :: pressItems.map calls) := by
  have complete : parseDocument pressFile = some (pressItems, true) := by decide +kernel
  have processed : postProcess separatorTables.isLetterOrNumber
      ⟨true, true, false, false, true, true⟩ pressItems = .ok pressItems := by decide +kernel
  have copied : IsCopied separatorTables "window" "pressMouseButton" :=
    ⟨List.all_eq_true.mp (by decide), by decide, by decide⟩
  have read : ∃ text, parse separatorTables smallNamespace _ pressFile = .ok text ∧ _ :=
    parse_reads_iff rfl rfl complete processed
  obtain ⟨text, parsed, reads⟩ := read
  refine ⟨text, parsed, reads.mpr ?_⟩
  intro item member _
  rcases List.mem_pair.mp member with rfl | rfl
  · have known : QString.ofString "msleep" ∈ scriptFunctions := by decide
    exact ⟨known, trivial⟩
  · refine ⟨copied, .inr ⟨?_, ?_, ?_, trivial, trivial, trivial⟩⟩
    · exact (by decide : (1 : Int32) ∈ ([0, 0x01, 0x02, 0x04, 0x08, 0x10] : List Int32))
    · exact (by decide : (1 : Int32) &&& buttonMask = 1)
    · exact (by decide : (0 : Int32) &&& modifierMask = 0)

end XmlToQtScript

end Hooq

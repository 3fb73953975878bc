import Hooq.Library.Separator
import Hooq.Script.PostProcessor

/-!
# The six post-processors

Translations of the `process` functions, in the order in which the options
enable them.  Text that Qt's character tables classify enters through
`isLetterOrNumber`.
-/

namespace Hooq

open Library.Separator

/-! ## FilterQtInternals -/

namespace FilterQtInternals

/-- `m_internalClasses`. -/
def internalClasses : List QString := [QString.ofString "QShapedPixmapWidget"]

def process (item : Item) (input : List Item) : Except Fault Outcome :=
  if item.targetClass ∈ internalClasses then
    match input with
    | [] => .error .outOfRange
    | first :: rest =>
        if first.method = QString.ofString "msec" then
          .ok ⟨.empty, rest, []⟩
        else
          .ok ⟨.empty, first :: rest, []⟩
  else
    .ok (.unchanged item input)

/-- A call drops an item on a widget of Qt's own, and leaves any other item as it is. -/
theorem process_ok {item : Item} {input : List Item} {outcome : Outcome}
    (processed : process item input = .ok outcome) :
    item.targetClass ∉ internalClasses ∧ outcome = .unchanged item input ∨
      item.targetClass ∈ internalClasses ∧ ∃ first rest, input = first :: rest ∧
        outcome = ⟨.empty,
          if first.method = QString.ofString "msec" then rest else first :: rest, []⟩ := by
  rw [process.eq_def] at processed
  split at processed
  next internal =>
    right
    refine ⟨internal, ?_⟩
    cases input with
    | nil => cases processed
    | cons first rest =>
        simp only at processed
        refine ⟨first, rest, rfl, ?_⟩
        split at processed
        next isMsec =>
          cases processed
          rw [if_pos isMsec]
        next other =>
          cases processed
          rw [if_neg other]
  next external =>
    cases processed
    exact .inl ⟨external, rfl⟩

end FilterQtInternals

/-! ## SkipMouseMovements -/

namespace StripMouseMovements

def process (item : Item) (input : List Item) : Except Fault Outcome :=
  if item.method = QString.ofString "moveMouse" then
    match input with
    | [] => .ok ⟨.empty, [], []⟩
    | [_] => .error .assertion
    | msec :: next :: rest =>
        if msec.method = QString.ofString "msleep" then
          process next rest
        else
          .error .assertion
  else
    .ok (.unchanged item input)

end StripMouseMovements

/-! ## SimplifyMouseMovements -/

namespace SimplifyMouseMovements

/-- What the loop over a run of movements leaves behind. -/
structure Run where
  iterator : Item
  parameters : QVariantMap
  duration : Int32
  rest : List Item
  deriving DecidableEq, Repr

/-- The loop over the movements that follow on the same target. -/
def collect (target : Target) (iterator : Item) (parameters : QVariantMap) (duration : Int32)
    (input : List Item) : Run :=
  match input with
  | [] => ⟨iterator, parameters, duration, []⟩
  | [msec] => ⟨msec, parameters, duration + msec.parameters.toInt, []⟩
  | msec :: next :: rest =>
      let duration := duration + msec.parameters.toInt
      if next.method ≠ QString.ofString "moveMouse" ∨ next.target ≠ target then
        ⟨msec, parameters, duration, next :: rest⟩
      else
        collect target next next.parameters.toMap duration rest

/-- The movement that stands for a whole run. -/
def simplified (item : Item) (run : Run) : Item :=
  let origin := item.parameters.toMap
  let parameters := ((run.parameters.remove "x").remove "y")
    |>.insert "originX" (.int (origin.value "x").toInt)
    |>.insert "originY" (.int (origin.value "y").toInt)
    |>.insert "destinationX" (.int (run.parameters.value "x").toInt)
    |>.insert "destinationY" (.int (run.parameters.value "y").toInt)
    |>.insert "duration" (.int run.duration)
  ⟨item.target, item.targetClass, "moveMouse", .map parameters⟩

def process (item : Item) (input : List Item) : Outcome :=
  if item.method = QString.ofString "moveMouse" then
    let run := collect item.target item item.parameters.toMap 0 input
    ⟨run.iterator, run.rest, [(simplified item run, .beforeCurrentItem)]⟩
  else
    .unchanged item input

end SimplifyMouseMovements

/-! ## SimplifyStrings -/

namespace SimplifyStrings

def backspaceKey : Int32 := 0x01000003

def returnKey : Int32 := 0x01000004

def enterKey : Int32 := 0x01000005

def shiftKey : Int32 := 0x01000020

def shiftModifier : Int32 := 0x02000000

def isPress (item : Item) : Bool :=
  item.method = QString.ofString "pressKey"

def isRelease (item : Item) : Bool :=
  item.method = QString.ofString "releaseKey"

/-- No modifier but shift is held. -/
def isPlain (parameters : QVariantMap) : Bool :=
  (parameters.value "modifiers").toKeyboardModifiers &&& ~~~shiftModifier = 0

/-- The `switch` over the key of an absorbed press. -/
def typeKey (parameters : QVariantMap) (text : QString) : QString :=
  let key := (parameters.value "key").toKey
  if key = backspaceKey then
    text.dropLast
  else if key = shiftKey then
    text
  else if key = returnKey ∨ key = enterKey then
    text ++ QString.ofString "\n"
  else
    text ++ (parameters.value "text").toText

/-- What the loop over a run of key events leaves behind. -/
structure Run where
  iterator : Item
  text : QString
  msec : Item
  rest : List Item
  deriving DecidableEq, Repr

/-- The loop over the key events that are merged into one text. -/
def collect (target : Target) (iterator : Item) (text : QString) (msec : Item)
    (input : List Item) : Except Fault Run :=
  let parameters := iterator.parameters.toMap
  if ¬isPlain parameters then
    .ok ⟨iterator, text, msec, input⟩
  else
    match input with
    | [] => .ok ⟨iterator, text, msec, []⟩
    | [only] =>
        if isPress iterator then
          .ok ⟨iterator, text, msec, [only]⟩
        else
          .error .outOfRange
    | sleep :: next :: rest =>
        if isPress iterator ∧ ¬((isRelease next ∨ isPress next) ∧ next.target = target) then
          .ok ⟨iterator, text, msec, sleep :: next :: rest⟩
        else
          let text := if isPress iterator then typeKey parameters text else text
          if isPress next ∨ isRelease next then
            collect target next text sleep rest
          else
            .ok ⟨next, text, sleep, rest⟩

def sendText (item : Item) (text : QString) : Item :=
  ⟨item.target, item.targetClass, "sendText", .string text⟩

def process (item : Item) (input : List Item) : Except Fault Outcome :=
  if isPress item then do
    let run ← collect item.target item [] .empty input
    .ok ⟨run.iterator, run.rest,
      if run.text ≠ [] then
        [(sendText item run.text, .beforeCurrentItem), (run.msec, .beforeCurrentItem)]
      else
        []⟩
  else
    .ok (.unchanged item input)

/-- A call leaves an item as it is, or a press begins a run of key events. -/
theorem process_ok {item : Item} {input : List Item} {outcome : Outcome}
    (processed : process item input = .ok outcome) :
    isPress item = false ∧ outcome = .unchanged item input ∨
      isPress item = true ∧ ∃ run, collect item.target item [] .empty input = .ok run ∧
        outcome = ⟨run.iterator, run.rest,
          if run.text ≠ [] then
            [(sendText item run.text, .beforeCurrentItem), (run.msec, .beforeCurrentItem)]
          else
            []⟩ := by
  rw [process] at processed
  split at processed
  next press =>
    right
    refine ⟨press, ?_⟩
    cases collected : collect item.target item [] .empty input with
    | error fault =>
        rw [collected] at processed
        cases processed
    | ok run =>
        rw [collected] at processed
        cases processed
        exact ⟨run, rfl, rfl⟩
  next notPress =>
    cases processed
    exact .inl ⟨Bool.eq_false_of_not_eq_true notPress, rfl⟩

end SimplifyStrings

/-! ## ObjectVariables -/

theorem mem_of_lookup {α β : Type} [BEq α] [LawfulBEq α] {entries : List (α × β)} {key : α}
    {value : β} (found : entries.lookup key = some value) : (key, value) ∈ entries := by
  rcases List.lookup_eq_some_iff.mp found with ⟨front, back, rfl, _⟩
  exact List.mem_append_right _ List.mem_cons_self

namespace ObjectVariables

/-- `m_variables`: the paths that have a name, with their names. -/
abbrev Variables := List (QString × QString)

variable (isLetterOrNumber : QChar → Bool)

/-- `toKeyword`. -/
def toKeyword (text : QString) : QString :=
  text.flatMap fun character =>
    if isLetterOrNumber character then [character] else QString.ofString "_"

def numbered (name : QString) (count : Nat) : QString :=
  name ++ QString.ofString "_" ++ QString.number count

/-- The loop that counts up to a free name.  It ends after at most as many rounds
as there are names. -/
def freeCount (names : List QString) (name : QString) : (rounds count : Nat) → Nat
  | 0, count => count
  | rounds + 1, count =>
      if numbered name count ∈ names then freeCount names name rounds (count + 1) else count

/-- The name for a path that has none yet. -/
def chooseName (known : Variables) (target : QString) : QString :=
  let parts := split (QString.ofString "::") target
  let names := known.map Prod.snd
  let name := toKeyword isLetterOrNumber (parts.getLast?.getD [])
  if name ∉ names then
    name
  else
    let parent := parts.dropLast
    let name :=
      match parent.getLast? with
      | none => name
      | some above => toKeyword isLetterOrNumber above ++ QString.ofString "__" ++ name
    if name ∉ names then
      name
    else
      numbered name (freeCount names name names.length 2)

/-- The method of a declaration, up to the argument of `objectFromPath`. -/
def declarationMethod (name : QString) : QString :=
  QString.ofString "var " ++ name ++ QString.ofString " = objectFromPath"

def declaration (name target : QString) : Item :=
  .ofMethod (declarationMethod name) (.string target)

def process (known : Variables) (item : Item) (input : List Item) :
    Except Fault (Variables × Outcome) :=
  match item.target with
  | .null => .ok (known, .unchanged item input)
  | .variable _ => .error .assertion
  | .path target =>
      match known.lookup target with
      | some name => .ok (known, .unchanged { item with target := .variable name } input)
      | none =>
          let name := chooseName isLetterOrNumber known target
          .ok ((target, name) :: known,
            ⟨{ item with target := .variable name }, input,
              [(declaration name target, .beforeCurrentItem)]⟩)

/-- A call leaves an item that is called on no object as it is, and puts a variable for the
path of any other, which it declares if it does not know it. -/
theorem process_ok {isLetterOrNumber : QChar → Bool} {known next : Variables} {item : Item}
    {input : List Item} {outcome : Outcome}
    (processed : process isLetterOrNumber known item input = .ok (next, outcome)) :
    item.target = .null ∧ next = known ∧ outcome = .unchanged item input ∨
      ∃ path, item.target = .path path ∧
        ((∃ name, known.lookup path = some name ∧ next = known ∧
            outcome = .unchanged { item with target := .variable name } input) ∨
          known.lookup path = none ∧
            next = (path, chooseName isLetterOrNumber known path) :: known ∧
            outcome =
              ⟨{ item with target := .variable (chooseName isLetterOrNumber known path) }, input,
                [(declaration (chooseName isLetterOrNumber known path) path,
                  .beforeCurrentItem)]⟩) := by
  rw [process] at processed
  split at processed
  next isNull =>
    cases processed
    exact .inl ⟨isNull, rfl, rfl⟩
  next => cases processed
  next path isPath =>
    right
    refine ⟨path, isPath, ?_⟩
    split at processed
    next name found =>
      cases processed
      exact .inl ⟨name, found, rfl, rfl⟩
    next isNew =>
      cases processed
      exact .inr ⟨isNew, rfl, rfl⟩

end ObjectVariables

/-! ## StringVariables -/

/-- `XmlToQtScript::escapeString`. -/
def escapeString (text : QString) : QString :=
  let text := replace (QString.ofString "\\") (QString.ofString "\\\\") text
  let text := replace (QString.ofString "\"") (QString.ofString "\\\"") text
  let text := replace (QString.ofString "\r") (QString.ofString "\\r") text
  replace (QString.ofString "\n") (QString.ofString "\\n") text

namespace StringVariables

def variableName (position : Nat) : QString :=
  QString.ofString "string" ++ QString.number position

def declaration (position : Nat) (value : QString) : Item :=
  .ofMethod (QString.ofString "var " ++ variableName position ++ QString.ofString " = \"" ++
    escapeString value ++ QString.ofString "\"") .invalid

def process (known : List QString) (item : Item) (input : List Item) :
    Except Fault (List QString × Outcome) :=
  if item.method ≠ QString.ofString "sendText" then
    .ok (known, .unchanged item input)
  else
    match item.parameters with
    | .string value =>
        if value ∈ known then
          .ok (known,
            .unchanged
              { item with parameters := .variable (variableName (known.idxOf value)) } input)
        else
          .ok (known ++ [value],
            ⟨{ item with parameters := .variable (variableName known.length) }, input,
              [(declaration known.length value, .beginning)]⟩)
    | _ => .error .assertion

/-- A call leaves an item that types no text as it is, and puts a variable for the text of
any other, which it declares if it does not know it. -/
theorem process_ok {known next : List QString} {item : Item} {input : List Item}
    {outcome : Outcome} (processed : process known item input = .ok (next, outcome)) :
    item.method ≠ QString.ofString "sendText" ∧ next = known ∧ outcome = .unchanged item input ∨
      item.method = QString.ofString "sendText" ∧ ∃ value, item.parameters = .string value ∧
        (value ∈ known ∧ next = known ∧
            outcome = .unchanged
              { item with parameters := .variable (variableName (known.idxOf value)) } input ∨
          value ∉ known ∧ next = known ++ [value] ∧
            outcome =
              ⟨{ item with parameters := .variable (variableName known.length) }, input,
                [(declaration known.length value, .beginning)]⟩) := by
  rw [process] at processed
  split at processed
  next other =>
    cases processed
    exact .inl ⟨other, rfl, rfl⟩
  next isText =>
    right
    refine ⟨not_not.mp isText, ?_⟩
    split at processed
    next value isString =>
      refine ⟨value, isString, ?_⟩
      split at processed
      next old =>
        cases processed
        exact .inl ⟨old, rfl, rfl⟩
      next new =>
        cases processed
        exact .inr ⟨new, rfl, rfl⟩
    next => cases processed

end StringVariables

end Hooq

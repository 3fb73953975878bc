import Hooq.Control.Attachment

/-!
# Elements in documents

Whether every element is written in the document of an attached application.  Slots that
make sure of it wait for an attachment first; a document that has been ended stays on
`device()` until `closeApplication` returns.
-/

namespace Hooq

open Library.Run

/-! ## Documents in a history -/

def HasStarted (history : List Milestone) (socket : Nat) : Prop :=
  ∃ attachState, .wrote attachState (some socket) (.startElement "hooq") ∈ history

def HasEnded (history : List Milestone) (socket : Nat) : Prop :=
  ∃ attachState, .wrote attachState (some socket) .endDocument ∈ history

/-- An element is written while the interpreter is attached, in a document that has been
started and not yet ended. -/
def IsInDocument (history : List Milestone) : Milestone → Prop
  | .wrote attachState device (.element _) =>
      attachState = .attached ∧
        ∃ socket, device = some socket ∧ HasStarted history socket ∧ ¬HasEnded history socket
  | _ => True

def AllInDocument (history : List Milestone) : Prop :=
  ∀ before milestone after, history = before ++ milestone :: after →
    IsInDocument before milestone

/-- An milestone that neither starts nor ends a document, and is no element. -/
def Milestone.IsQuiet : Milestone → Prop
  | .wrote _ _ (.line _) | .wrote _ _ .startDocument | .wrote _ _ .endElement => True
  | .wrote _ _ _ => False
  | _ => True

section

variable {history : List Milestone} {milestone : Milestone} {socket : Nat}

theorem HasStarted.concat (started : HasStarted history socket) :
    HasStarted (history ++ [milestone]) socket :=
  started.imp fun _ member => List.mem_append_left _ member

theorem hasEnded_concat : HasEnded (history ++ [milestone]) socket ↔
    HasEnded history socket ∨
      ∃ attachState, milestone = .wrote attachState (some socket) .endDocument := by
  constructor
  · rintro ⟨attachState, member⟩
    rcases List.mem_append.mp member with earlier | last
    · exact .inl ⟨attachState, earlier⟩
    · exact .inr ⟨attachState, (List.mem_singleton.mp last).symm⟩
  · rintro (⟨attachState, earlier⟩ | ⟨attachState, rfl⟩)
    · exact ⟨attachState, List.mem_append_left _ earlier⟩
    · exact ⟨attachState, List.mem_append_right _ List.mem_cons_self⟩

theorem hasEnded_concat_of_ne (other : ∀ attachState, milestone ≠
    .wrote attachState (some socket) .endDocument) :
    HasEnded (history ++ [milestone]) socket ↔ HasEnded history socket := by
  rw [hasEnded_concat]
  exact or_iff_left fun ⟨attachState, same⟩ => other attachState same

theorem Milestone.IsQuiet.ne_endDocument (quiet : milestone.IsQuiet) (attachState : AttachState) :
    milestone ≠ .wrote attachState (some socket) .endDocument := by
  rintro rfl
  exact quiet

theorem Milestone.IsQuiet.isInDocument (quiet : milestone.IsQuiet) :
    IsInDocument history milestone := by
  match milestone, quiet with
  | .wrote _ _ (.line _), _ | .wrote _ _ .startDocument, _ | .wrote _ _ .endElement, _ => trivial
  | .returned _ _ _, _ | .ended _ _, _ => trivial

theorem allInDocument_concat : AllInDocument (history ++ [milestone]) ↔
    AllInDocument history ∧ IsInDocument history milestone := by
  constructor
  · intro all
    refine ⟨fun before other after shape => ?_, all history milestone [] rfl⟩
    exact all before other (after ++ [milestone]) (by rw [shape, List.append_assoc]; rfl)
  · rintro ⟨earlier, last⟩ before other after shape
    rcases List.eq_nil_or_concat after with rfl | ⟨rest, final, rfl⟩
    · obtain ⟨rfl, same⟩ := List.append_inj' shape rfl
      cases same
      exact last
    · have split : history ++ [milestone] = (before ++ other :: rest) ++ [final] := by
        rw [shape, List.concat_eq_append, List.append_assoc, List.cons_append]
      exact earlier before other rest (List.append_inj' split rfl).1

end

/-! ## What the steps keep -/

/-- How the documents, the attachment and the calls that wait go together.  Where a call
waits to be attached, none of the calls around it has ended the document that it will
write to. -/
structure Documents (history : List Milestone) (attachState : AttachState)
    (device : Option Nat) (accepted : List Nat) (calls : List BlockedCall) : Prop where
  inDocument : AllInDocument history
  attached : attachState = .attached → device ≠ none
  accepts : ∀ socket, device = some socket → socket ∈ accepted
  started : ∀ socket, device = some socket → HasStarted history socket
  ended : ∀ socket, device = some socket →
    (HasEnded history socket ↔ socket ∈ calls.filterMap BlockedCall.document)
  endedAccepted : ∀ socket, HasEnded history socket → socket ∈ accepted
  closingAccepted : ∀ socket ∈ calls.filterMap BlockedCall.document, socket ∈ accepted
  waiting : ∀ pending below, .waitForAttach pending :: below <:+ calls →
    attachState = .attached → ∀ socket, device = some socket →
      socket ∉ below.filterMap BlockedCall.document

namespace Documents

variable {history : List Milestone} {attachState : AttachState} {device : Option Nat}
  {accepted : List Nat} {calls : List BlockedCall}

theorem quiet (documents : Documents history attachState device accepted calls)
    (milestone : Milestone) (isQuiet : milestone.IsQuiet) :
    Documents (history ++ [milestone]) attachState device accepted calls where
  inDocument := allInDocument_concat.mpr ⟨documents.inDocument, isQuiet.isInDocument⟩
  attached := documents.attached
  accepts := documents.accepts
  started socket isDevice := (documents.started socket isDevice).concat
  ended socket isDevice :=
    (hasEnded_concat_of_ne isQuiet.ne_endDocument).trans (documents.ended socket isDevice)
  endedAccepted socket isEnded :=
    documents.endedAccepted socket ((hasEnded_concat_of_ne isQuiet.ne_endDocument).mp isEnded)
  closingAccepted := documents.closingAccepted
  waiting := documents.waiting

theorem element (documents : Documents history .attached device accepted calls)
    (isOpen : ∀ socket, device = some socket → socket ∉ calls.filterMap BlockedCall.document)
    (element : Element) :
    Documents (history ++ [.wrote .attached device (.element element)]) .attached device accepted
      calls := by
  have other : ∀ socket attachState, Milestone.wrote .attached device (.element element) ≠
      .wrote attachState (some socket) .endDocument := by
    rintro socket attachState ⟨⟩
  refine
    { inDocument := allInDocument_concat.mpr ⟨documents.inDocument, rfl, ?_⟩
      attached := documents.attached
      accepts := documents.accepts
      started := fun socket isDevice => (documents.started socket isDevice).concat
      ended := fun socket isDevice =>
        (hasEnded_concat_of_ne (other socket)).trans (documents.ended socket isDevice)
      endedAccepted := fun socket isEnded =>
        documents.endedAccepted socket ((hasEnded_concat_of_ne (other socket)).mp isEnded)
      closingAccepted := documents.closingAccepted
      waiting := documents.waiting }
  cases isDevice : device with
  | none => exact absurd isDevice (documents.attached rfl)
  | some socket =>
      refine ⟨socket, rfl, documents.started socket isDevice, fun isEnded => ?_⟩
      exact isOpen socket isDevice ((documents.ended socket isDevice).mp isEnded)

/-- A call that ends no document starts to wait. -/
theorem push (documents : Documents history attachState device accepted calls) {call : BlockedCall}
    (noDocument : call.document = none) (noWait : ∀ pending, call ≠ .waitForAttach pending) :
    Documents history attachState device accepted (call :: calls) := by
  have closing : (call :: calls).filterMap BlockedCall.document =
      calls.filterMap BlockedCall.document := List.filterMap_cons_none noDocument
  refine
    { inDocument := documents.inDocument
      attached := documents.attached
      accepts := documents.accepts
      started := documents.started
      ended := by rw [closing]; exact documents.ended
      endedAccepted := documents.endedAccepted
      closingAccepted := by rw [closing]; exact documents.closingAccepted
      waiting := ?_ }
  intro pending below suffix
  rcases List.suffix_cons_iff.mp suffix with same | inner
  · cases same
    exact absurd rfl (noWait pending)
  · exact documents.waiting pending below inner

/-- The interpreter forgets that it is attached. -/
theorem reset (documents : Documents history attachState device accepted calls) :
    Documents history .notAttached device accepted calls :=
  { documents with
    attached := nofun
    waiting := nofun }

theorem waitForAttach (documents : Documents history attachState device accepted calls)
    (pending : Pending) :
    Documents history .waitingForAttach device accepted (.waitForAttach pending :: calls) where
  inDocument := documents.inDocument
  attached := nofun
  accepts := documents.accepts
  started := documents.started
  ended := documents.ended
  endedAccepted := documents.endedAccepted
  closingAccepted := documents.closingAccepted
  waiting := nofun

/-- A call that ends no document returns. -/
theorem pop {call : BlockedCall}
    (documents : Documents history attachState device accepted (call :: calls))
    (noDocument : call.document = none) :
    Documents history attachState device accepted calls := by
  have closing : (call :: calls).filterMap BlockedCall.document =
      calls.filterMap BlockedCall.document := List.filterMap_cons_none noDocument
  refine
    { inDocument := documents.inDocument
      attached := documents.attached
      accepts := documents.accepts
      started := documents.started
      ended := by rw [← closing]; exact documents.ended
      endedAccepted := documents.endedAccepted
      closingAccepted := by rw [← closing]; exact documents.closingAccepted
      waiting := fun pending below suffix =>
        documents.waiting pending below (suffix.trans (List.suffix_cons call calls)) }

/-- Once the device is given up, calls can return. -/
theorem detach (documents : Documents history attachState device accepted calls)
    {rest : List BlockedCall} (suffix : rest <:+ calls) :
    Documents history .notAttached none accepted rest where
  inDocument := documents.inDocument
  attached := nofun
  accepts := nofun
  started := nofun
  ended := nofun
  endedAccepted := documents.endedAccepted
  closingAccepted socket member := documents.closingAccepted socket
    ((suffix.sublist.filterMap BlockedCall.document).subset member)
  waiting := nofun

/-- Without a device, calls can return. -/
theorem undock (documents : Documents history attachState none accepted calls)
    {rest : List BlockedCall} (suffix : rest <:+ calls) :
    Documents history attachState none accepted rest where
  inDocument := documents.inDocument
  attached := documents.attached
  accepts := nofun
  started := nofun
  ended := nofun
  endedAccepted := documents.endedAccepted
  closingAccepted socket member := documents.closingAccepted socket
    ((suffix.sublist.filterMap BlockedCall.document).subset member)
  waiting _ _ _ isAttached := absurd rfl (documents.attached isAttached)

/-- A call that has ended a document goes on to its next wait. -/
theorem replace {call next : BlockedCall}
    (documents : Documents history attachState device accepted (call :: calls))
    (same : next.document = call.document) (noWait : ∀ pending, next ≠ .waitForAttach pending) :
    Documents history attachState device accepted (next :: calls) := by
  have closing : (next :: calls).filterMap BlockedCall.document =
      (call :: calls).filterMap BlockedCall.document := by
    rw [List.filterMap_cons, List.filterMap_cons, same]
  refine
    { inDocument := documents.inDocument
      attached := documents.attached
      accepts := documents.accepts
      started := documents.started
      ended := by rw [closing]; exact documents.ended
      endedAccepted := documents.endedAccepted
      closingAccepted := by rw [closing]; exact documents.closingAccepted
      waiting := ?_ }
  intro pending below suffix
  rcases List.suffix_cons_iff.mp suffix with head | inner
  · cases head
    exact absurd rfl (noWait pending)
  · exact documents.waiting pending below (inner.trans (List.suffix_cons call calls))

/-- The document of the device is ended by a call that starts to wait. -/
theorem endDocument {socket : Nat}
    (documents : Documents history attachState (some socket) accepted calls) (call : BlockedCall)
    (isDocument : call.document = some socket) (noWait : ∀ pending, call ≠ .waitForAttach pending)
    (written : AttachState) :
    Documents (history ++ [.wrote written (some socket) .endDocument]) attachState (some socket)
      accepted (call :: calls) := by
  have closing : (call :: calls).filterMap BlockedCall.document =
      socket :: calls.filterMap BlockedCall.document := List.filterMap_cons_some isDocument
  refine
    { inDocument := allInDocument_concat.mpr ⟨documents.inDocument, trivial⟩
      attached := documents.attached
      accepts := documents.accepts
      started := fun other isDevice => (documents.started other isDevice).concat
      ended := ?_
      endedAccepted := ?_
      closingAccepted := ?_
      waiting := ?_ }
  · rintro other ⟨⟩
    rw [closing]
    exact ⟨fun _ => List.mem_cons_self, fun _ => hasEnded_concat.mpr (.inr ⟨written, rfl⟩)⟩
  · intro other isEnded
    rcases hasEnded_concat.mp isEnded with earlier | ⟨_, now⟩
    · exact documents.endedAccepted other earlier
    · cases now
      exact documents.accepts socket rfl
  · rw [closing]
    intro other member
    rcases List.mem_cons.mp member with rfl | earlier
    · exact documents.accepts other rfl
    · exact documents.closingAccepted other earlier
  · intro pending below suffix
    rcases List.suffix_cons_iff.mp suffix with head | inner
    · cases head
      exact absurd rfl (noWait pending)
    · exact documents.waiting pending below inner

/-- A new socket comes with a new document. -/
theorem connect (documents : Documents history attachState device accepted calls) {socket : Nat}
    (isNew : socket ∉ accepted) (written : AttachState) :
    Documents (history ++ [.wrote written (some socket) (.startElement "hooq")]) .attached
      (some socket) (socket :: accepted) calls := by
  have other : ∀ attachState, Milestone.wrote written (some socket) (.startElement "hooq") ≠
      .wrote attachState (some socket) .endDocument := nofun
  have notEnded : ¬HasEnded (history ++ [.wrote written (some socket) (.startElement "hooq")])
      socket := fun isEnded =>
    isNew (documents.endedAccepted socket ((hasEnded_concat_of_ne other).mp isEnded))
  have notClosing : socket ∉ calls.filterMap BlockedCall.document := fun member =>
    isNew (documents.closingAccepted socket member)
  refine
    { inDocument := allInDocument_concat.mpr ⟨documents.inDocument, trivial⟩
      attached := nofun
      accepts := ?_
      started := ?_
      ended := ?_
      endedAccepted := ?_
      closingAccepted := fun other member =>
        List.mem_cons_of_mem _ (documents.closingAccepted other member)
      waiting := ?_ }
  · rintro other ⟨⟩
    exact List.mem_cons_self
  · rintro other ⟨⟩
    exact ⟨written, List.mem_append_right _ List.mem_cons_self⟩
  · rintro other ⟨⟩
    exact iff_of_false notEnded notClosing
  · intro other isEnded
    rcases hasEnded_concat.mp isEnded with earlier | ⟨_, now⟩
    · exact List.mem_cons_of_mem _ (documents.endedAccepted other earlier)
    · cases now
  · rintro pending below suffix _ other ⟨⟩ member
    have inner : below <:+ calls := (List.suffix_cons _ below).trans suffix
    exact notClosing ((inner.sublist.filterMap BlockedCall.document).subset member)

end Documents

/-! ## The steps -/

namespace InterpreterState

/-- The document on the device is ended by a call to `closeApplication` that has not
returned. -/
def IsClosing (interpreter : InterpreterState) : Prop :=
  ∃ socket ∈ interpreter.closing, interpreter.device = some socket

def Tidy (interpreter : InterpreterState) : Prop :=
  Documents interpreter.history interpreter.attachState interpreter.device interpreter.accepted
    interpreter.calls

variable {interpreter : InterpreterState}

theorem tidy_new : new.Tidy where
  inDocument := by
    intro before milestone after shape
    cases before <;> cases shape
  attached := nofun
  accepts := nofun
  started := nofun
  ended := nofun
  endedAccepted := by rintro socket ⟨attachState, member⟩; cases member
  closingAccepted := nofun
  waiting := nofun

theorem Tidy.element (tidy : interpreter.Tidy) (isAttached : interpreter.attachState = .attached)
    (isOpen : ¬interpreter.IsClosing) (element : Element) :
    (interpreter.write (.element element)).Tidy := by
  rw [Tidy, isAttached] at tidy
  have written := tidy.element
    (fun socket isDevice member => isOpen ⟨socket, member, isDevice⟩) element
  rw [← isAttached] at written
  exact written

theorem Tidy.writeElement (tidy : interpreter.Tidy)
    (isAttached : interpreter.attachState = .attached) (isOpen : ¬interpreter.IsClosing)
    (element : Element) : (interpreter.writeElement element).Tidy := by
  have written := tidy.element isAttached isOpen element
  apply waitForAck_rule Tidy
  · exact fun _ => written
  · exact fun _ _ => written.push rfl nofun
  · exact fun _ _ => written

theorem Tidy.proceed (tidy : interpreter.Tidy) (isAttached : interpreter.attachState = .attached)
    {pending : Pending}
    (isOpen : (∃ element, pending = .write element) → ¬interpreter.IsClosing) :
    (interpreter.proceed pending).Tidy := by
  cases pending with
  | write element => exact tidy.writeElement isAttached (isOpen ⟨element, rfl⟩) element
  | connected uuid => exact Documents.quiet tidy _ trivial

theorem Tidy.waitForAttach (tidy : interpreter.Tidy) {pending : Pending}
    (isOpen : interpreter.attachState = .attached → (∃ element, pending = .write element) →
      ¬interpreter.IsClosing) :
    (interpreter.waitForAttach pending).Tidy := by
  rw [InterpreterState.waitForAttach]
  cases state : interpreter.attachState with
  | attached => exact tidy.proceed state (isOpen state)
  | notAttached => exact Documents.waitForAttach tidy pending
  | waitingForAttach => exact Documents.waitForAttach tidy pending

theorem Tidy.ensureAttached (tidy : interpreter.Tidy) {pending : Pending}
    (isOpen : interpreter.attachState = .attached → ¬interpreter.IsClosing) :
    (interpreter.ensureAttached pending).Tidy := by
  rw [InterpreterState.ensureAttached]
  cases state : interpreter.attachState with
  | attached => exact tidy.proceed state fun _ => isOpen state
  | notAttached =>
      have started : (interpreter.startApplication none).Tidy := tidy
      exact started.waitForAttach fun isAttached _ => isOpen isAttached
  | waitingForAttach => exact tidy.waitForAttach fun isAttached _ => isOpen isAttached

theorem Tidy.connectRemoteApplication (tidy : interpreter.Tidy) :
    interpreter.connectRemoteApplication.Tidy := by
  apply Tidy.waitForAttach
  · exact tidy
  · rintro _ ⟨element, ⟨⟩⟩

theorem Tidy.setSocket (tidy : interpreter.Tidy) {socket : Nat}
    (isNew : socket ∉ interpreter.accepted) : (interpreter.setSocket socket).Tidy := by
  have played : Documents _ _ _ _ _ := Documents.quiet tidy
    (.wrote interpreter.attachState (some socket) (.line "PLAY\n")) trivial
  have begun := played.quiet (.wrote interpreter.attachState (some socket) .startDocument) trivial
  exact begun.connect isNew interpreter.attachState

/-- Behind the first wait of `closeApplication`, whether it is on the stack or not. -/
theorem Tidy.die {sender : Option Nat} {document : Nat}
    (documents : Documents interpreter.history interpreter.attachState interpreter.device
      interpreter.accepted (.waitForEnd sender document :: interpreter.calls)) :
    (interpreter.die sender document).Tidy := by
  rw [InterpreterState.die]
  cases device : interpreter.device with
  | none =>
      rw [device] at documents
      have undocked := documents.undock (List.suffix_cons _ _)
      rw [← device] at undocked
      exact undocked
  | some socket =>
      have said := (documents.quiet (.wrote interpreter.attachState interpreter.device
        (.line "DIE\n")) trivial).quiet (.ended sender socket) trivial
      apply waitForAck_rule Tidy
      · exact fun none => absurd (device.symm.trans none) nofun
      · exact fun _ _ => said.replace rfl nofun
      · exact fun _ _ => said.detach (List.suffix_cons _ _)

theorem Tidy.closeApplication (tidy : interpreter.Tidy) (sender : Option Nat) :
    (interpreter.closeApplication sender).Tidy := by
  rw [InterpreterState.closeApplication]
  split
  next => exact tidy
  next =>
    cases device : interpreter.device with
    | none => exact tidy
    | some socket =>
        have ending := Documents.quiet tidy (.wrote interpreter.attachState
          interpreter.device .endElement) trivial
        rw [device] at ending
        have ended := (ending.endDocument (.waitForEnd sender socket) rfl nofun
          interpreter.attachState).quiet (.ended sender socket) trivial
        rw [← device] at ended
        apply waitForAck_rule Tidy
        · exact fun none => absurd (device.symm.trans none) nofun
        · intro other isDevice
          have same : socket = other := Option.some.inj (device.symm.trans isDevice)
          rw [← same]
          exact ended
        · exact fun _ _ => Tidy.die ended

theorem Tidy.resume (tidy : interpreter.Tidy) : interpreter.resume.Tidy := by
  rw [InterpreterState.resume]
  cases shape : interpreter.calls with
  | nil => exact tidy
  | cons call calls =>
      have waits : Documents interpreter.history interpreter.attachState interpreter.device
          interpreter.accepted (call :: calls) := by rw [← shape]; exact tidy
      cases call with
      | waitForAttach pending =>
          dsimp only
          split
          next isAttached =>
            have popped : Tidy { interpreter with calls := calls } := waits.pop rfl
            apply popped.proceed isAttached
            rintro _ ⟨socket, member, isDevice⟩
            exact waits.waiting pending calls List.suffix_rfl isAttached socket isDevice member
          next => exact tidy
      | waitForAck socket =>
          dsimp only
          split
          next => exact tidy
          next => exact waits.pop rfl
      | waitForDumpedObject =>
          dsimp only
          split
          next => exact waits.pop rfl
          next => exact tidy
      | waitForEnd sender document =>
          dsimp only
          split
          next => exact tidy
          next => exact Tidy.die waits
      | waitForDeath sender document socket =>
          dsimp only
          split
          next => exact tidy
          next => exact waits.detach (List.suffix_cons _ _)

/-- The slots that do not wait for an attachment are called while there is one, and nothing
is written inside of a call to `closeApplication` that has ended the document. -/
def Attended {Sequence : Type} (interpreter : InterpreterState) : Action Sequence → Prop
  | .write _ => interpreter.attachState = .attached → ¬interpreter.IsClosing
  | .fetchProperty _ | .pickObject =>
      interpreter.attachState = .attached ∧ ¬interpreter.IsClosing
  | _ => True

variable {keys : KeySequences}

theorem Tidy.perform (tidy : interpreter.Tidy) {action : Action keys.Sequence}
    (enabled : interpreter.Enabled action) (attended : interpreter.Attended action) :
    (interpreter.perform keys action).Tidy := by
  cases action with
  | run => exact Documents.reset tidy
  | finish =>
      have finished : Tidy { interpreter with evaluating := false } := tidy
      exact finished.closeApplication none
  | write command => exact tidy.ensureAttached attended
  | fetchProperty path =>
      have written := tidy.element attended.1 attended.2 (dumpElement path)
      exact written.push rfl nofun
  | pickObject => exact tidy.element attended.1 attended.2 pickElement
  | spawnDefaultsAndAttach => exact tidy.connectRemoteApplication
  | close uuid =>
      change (interpreter.close uuid).Tidy
      rw [close]
      split
      next => exact tidy
      next =>
        have closed : Tidy { interpreter with closed := uuid :: interpreter.closed } := tidy
        exact closed.closeApplication (some uuid)
  | accept application => exact tidy.setSocket enabled.2
  | disconnect socket => exact tidy
  | acknowledge =>
      change interpreter.setAck.Tidy
      rw [setAck]
      split <;> exact tidy
  | dump =>
      change interpreter.setDumpedObject.Tidy
      rw [setDumpedObject]
      split <;> exact tidy
  | resume => exact tidy.resume

/-- What an element is written with is what makes the difference. -/
theorem Tidy.not_inDocument (tidy : interpreter.Tidy) {element : Element}
    (outside : ¬(interpreter.attachState = .attached ∧ ¬interpreter.IsClosing)) :
    ¬AllInDocument (interpreter.write (.element element)).history := by
  intro all
  have last := (allInDocument_concat.mp all).2
  rcases last with ⟨isAttached, socket, isDevice, _, notEnded⟩
  apply outside
  refine ⟨isAttached, ?_⟩
  rintro ⟨other, member, same⟩
  rw [isDevice] at same
  cases same
  exact notEnded ((tidy.ended socket isDevice).mpr member)

theorem writeElement_history (element : Element) :
    (interpreter.writeElement element).history =
      (interpreter.write (.element element)).history := by
  apply waitForAck_rule fun written : InterpreterState =>
    written.history = (interpreter.write (.element element)).history
  · exact fun _ => rfl
  · exact fun _ _ => rfl
  · exact fun _ _ => rfl

theorem Tidy.spoiled (tidy : interpreter.Tidy) {action : Action keys.Sequence}
    (unattended : ¬interpreter.Attended action) :
    interpreter.Enabled action ∧ ¬AllInDocument (interpreter.perform keys action).history := by
  cases action with
  | write command =>
      refine ⟨trivial, ?_⟩
      have unattended : ¬(interpreter.attachState = .attached → ¬interpreter.IsClosing) := unattended
      push Not at unattended
      have written : interpreter.perform keys (.write command) =
          interpreter.writeElement (Interpreter.write keys command) := by
        change interpreter.ensureAttached (.write (Interpreter.write keys command)) = _
        rw [InterpreterState.ensureAttached, unattended.1]
        rfl
      rw [written, writeElement_history]
      exact tidy.not_inDocument fun inside => inside.2 unattended.2
  | fetchProperty path => exact ⟨trivial, tidy.not_inDocument unattended⟩
  | pickObject => exact ⟨trivial, tidy.not_inDocument unattended⟩
  | _ => exact absurd trivial unattended

/-- Every element of a run is written in the document of the attached application exactly if
properties are fetched and objects are picked only while an application is attached, and
nothing is written from inside of `closeApplication`. -/
theorem allInDocument_iff_attended (actions : List (Action keys.Sequence)) :
    (∀ before after, actions = before ++ after →
        AllInDocument (before.foldl (next keys) new).history) ↔
      StepsMeet (next keys)
        (fun interpreter action => interpreter.crashed = false → interpreter.Attended action)
        new actions := by
  apply always_iff_stepsMeet (next keys) _ Tidy fun interpreter => AllInDocument interpreter.history
  · intro interpreter action tidy attended
    rw [next]
    split
    next goes => exact tidy.perform goes.2 (attended goes.1)
    next => exact tidy
  · exact fun interpreter tidy => tidy.inDocument
  · intro interpreter action tidy unattended
    push Not at unattended
    have spoiled := tidy.spoiled unattended.2
    rw [next, if_pos ⟨unattended.1, spoiled.1⟩]
    exact spoiled.2
  · exact tidy_new

/-- A script whose first call fetches a property writes before anything is attached. -/
theorem fetch_outside_document :
    ¬∀ (actions : List (Action plainSequences.Sequence)) (before after),
      actions = before ++ after →
        AllInDocument (before.foldl (next plainSequences) new).history := by
  intro always
  have all := always [.fetchProperty "window"] [.fetchProperty "window"] [] rfl
  have inside := all [] (.wrote .notAttached none (.element (dumpElement "window"))) [] rfl
  exact absurd inside.1 nofun

end InterpreterState

end Hooq

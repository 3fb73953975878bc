import Hooq.Control.Attachment

/-!
# Sessions of applications

Which application is behind `device()`.  As long as objects are only spawned while
nothing is attached, each session is that of the application that was started for the
object named by `m_applicationUuid`, or of one that was started without an object.
-/

namespace Hooq

open Library.Run

/-- An application was started for an object. -/
def BelongsTo (started : List (Option Nat)) (uuid socket : Nat) : Prop :=
  started[socket]? = some (some uuid)

instance (started : List (Option Nat)) (uuid socket : Nat) :
    Decidable (BelongsTo started uuid socket) :=
  inferInstanceAs (Decidable (_ = _))

/-- Whether something that has happened fits the applications. -/
def Milestone.Fits (started : List (Option Nat)) : Milestone → Prop
  | .returned uuid applicationUuid device =>
      applicationUuid = some uuid ∧ ∃ socket, device = some socket ∧ BelongsTo started uuid socket
  | .ended (some uuid) socket => BelongsTo started uuid socket
  | _ => True

/-- Whenever `connectRemoteApplication` has returned, the device was the socket of the
application that was started for the object; and what an object asked to close was the
session of that application. -/
def Corresponds (interpreter : InterpreterState) : Prop :=
  ∀ milestone ∈ interpreter.history, milestone.Fits interpreter.started

/-! ## What the steps keep -/

def BlockedCall.pending : BlockedCall → Option Pending
  | .waitForAttach pending => some pending
  | _ => none

/-- A wait for an attachment was begun by `connectRemoteApplication` for the current
object, or by slots that write elements. -/
def Opened (applicationUuid : Option Nat) : List Pending → Prop
  | [] => applicationUuid = none
  | .write _ :: outer => Opened applicationUuid outer
  | .connected uuid :: outer => applicationUuid = some uuid ∧ outer = []

/-- The sender of a call to `closeApplication`, and the socket whose document it has
ended. -/
def BlockedCall.closer : BlockedCall → Option (Option Nat × Nat)
  | .waitForEnd sender document => some (sender, document)
  | .waitForDeath sender document _ => some (sender, document)
  | _ => none

/-- How the applications, the attachment, the waits for it and the calls to
`closeApplication` go together.  An application that has not connected yet is the last
one, and the one that is waited for; applications are closed when nothing waits for one. -/
structure Sessions (history : List Milestone) (started : List (Option Nat)) (accepted : List Nat)
    (attachState : AttachState) (applicationUuid device : Option Nat) (waits : List Pending)
    (closers : List (Option Nat × Nat)) : Prop where
  fits : ∀ milestone ∈ history, milestone.Fits started
  unaccepted : ∀ application < started.length, application ∉ accepted →
    attachState = .waitingForAttach ∧ application + 1 = started.length ∧
      started[application]? = some applicationUuid
  idle : attachState = .notAttached → applicationUuid = none ∧ waits = []
  starting : attachState = .waitingForAttach →
    Opened applicationUuid waits ∧ waits ≠ [] ∧ closers = []
  running : attachState = .attached → (waits = [] ∨ Opened applicationUuid waits) ∧
    ∃ socket, device = some socket ∧ started[socket]? = some applicationUuid
  alone : closers ≠ [] → waits = []
  closing : ∀ closer ∈ closers, ∀ socket, device = some socket → closer.2 = socket
  own : ∀ uuid document, (some uuid, document) ∈ closers → BelongsTo started uuid document

section

variable {started : List (Option Nat)}

theorem BelongsTo.concat {uuid socket : Nat} (belongs : BelongsTo started uuid socket)
    (last : Option Nat) : BelongsTo (started ++ [last]) uuid socket := by
  have bound := (List.getElem?_eq_some_iff.mp belongs).1
  exact (List.getElem?_append_left bound).trans belongs

theorem Milestone.Fits.concat {milestone : Milestone} (fits : milestone.Fits started)
    (last : Option Nat) : milestone.Fits (started ++ [last]) := by
  match milestone, fits with
  | .wrote _ _ _, _ => trivial
  | .returned _ _ _, ⟨same, socket, isDevice, belongs⟩ =>
      exact ⟨same, socket, isDevice, belongs.concat last⟩
  | .ended none _, _ => trivial
  | .ended (some _) _, belongs => exact BelongsTo.concat belongs last

theorem Opened.mem {uuid : Nat} {waits : List Pending} (opened : Opened (some uuid) waits) :
    .connected uuid ∈ waits := by
  induction waits with
  | nil => exact absurd opened nofun
  | cons first rest ih =>
      match first, opened with
      | .write _, opened => exact List.mem_cons_of_mem _ (ih opened)
      | .connected _, ⟨same, _⟩ =>
          cases same
          exact List.mem_cons_self

theorem Opened.tail {applicationUuid : Option Nat} {first : Pending} {rest : List Pending}
    (opened : Opened applicationUuid (first :: rest)) :
    rest = [] ∨ Opened applicationUuid rest := by
  match first, opened with
  | .write _, opened => exact .inr opened
  | .connected _, ⟨_, outermost⟩ => exact .inl outermost

end

namespace Sessions

variable {history : List Milestone} {started : List (Option Nat)} {accepted : List Nat}
  {attachState : AttachState} {applicationUuid device : Option Nat} {waits : List Pending}
  {closers : List (Option Nat × Nat)}

theorem record (sessions : Sessions history started accepted attachState applicationUuid device
    waits closers) (milestone : Milestone) (fits : milestone.Fits started) :
    Sessions (history ++ [milestone]) started accepted attachState applicationUuid device waits
      closers :=
  { sessions with
    fits := by
      intro other member
      rcases List.mem_append.mp member with earlier | last
      · exact sessions.fits other earlier
      · cases List.mem_singleton.mp last
        exact fits }

/-- While nothing is attached and nothing is closed, an application is started. -/
theorem start (sessions : Sessions history started accepted .notAttached applicationUuid device
    waits closers) (quiet : closers = []) (uuid : Option Nat) (pending : Pending)
    (opened : Opened uuid [pending]) :
    Sessions history (started ++ [uuid]) accepted .waitingForAttach uuid device
      (pending :: waits) closers where
  fits milestone member := (sessions.fits milestone member).concat uuid
  unaccepted application bound isNew := by
    rw [List.length_append, List.length_singleton] at bound ⊢
    have last : application = started.length := by
      rcases Nat.lt_succ_iff_lt_or_eq.mp bound with earlier | same
      · exact absurd (sessions.unaccepted application earlier isNew).1 nofun
      · exact same
    refine ⟨rfl, by rw [last], ?_⟩
    rw [last]
    exact List.getElem?_concat_length
  idle := nofun
  starting _ := by
    rw [(sessions.idle rfl).2]
    exact ⟨opened, List.cons_ne_nil _ _, quiet⟩
  running := nofun
  alone busy := absurd quiet busy
  closing := sessions.closing
  own uuid' document member := (sessions.own uuid' document member).concat uuid

/-- Another slot waits for the same application. -/
theorem join (sessions : Sessions history started accepted .waitingForAttach applicationUuid device
    waits closers) (element : Element) :
    Sessions history started accepted .waitingForAttach applicationUuid device
      (.write element :: waits) closers :=
  { sessions with
    idle := nofun
    starting := fun _ =>
      ⟨(sessions.starting rfl).1, List.cons_ne_nil _ _, (sessions.starting rfl).2.2⟩
    running := nofun
    alone := fun busy => absurd (sessions.starting rfl).2.2 busy }

/-- The application that is waited for connects. -/
theorem connect (sessions : Sessions history started accepted attachState applicationUuid device
    waits closers) {application : Nat} (bound : application < started.length)
    (isNew : application ∉ accepted) :
    Sessions history started (application :: accepted) .attached applicationUuid
      (some application) waits closers := by
  obtain ⟨isWaiting, isLast, isCurrent⟩ := sessions.unaccepted application bound isNew
  have starting := sessions.starting isWaiting
  refine
    { sessions with
      unaccepted := ?_
      idle := nofun
      starting := nofun
      running := fun _ => ⟨.inr starting.1, application, rfl, isCurrent⟩
      closing := ?_ }
  · intro other otherBound otherNew
    have otherLast := (sessions.unaccepted other otherBound
      fun member => otherNew (List.mem_cons_of_mem _ member)).2.1
    have same : other = application := Nat.succ.inj (otherLast.trans isLast.symm)
    exact absurd (by rw [same]; exact List.mem_cons_self) otherNew
  · intro closer member
    rw [starting.2.2] at member
    cases member

/-- A slot goes on once the application is attached. -/
theorem pop {pending : Pending} (sessions : Sessions history started accepted .attached
    applicationUuid device (pending :: waits) closers) :
    Sessions history started accepted .attached applicationUuid device waits closers := by
  have opened : Opened applicationUuid (pending :: waits) :=
    (sessions.running rfl).1.resolve_left (List.cons_ne_nil _ _)
  refine
    { sessions with
      idle := nofun
      starting := nofun
      running := fun _ => ⟨opened.tail, (sessions.running rfl).2⟩
      alone := fun busy => absurd (sessions.alone busy) (List.cons_ne_nil _ _) }

/-- `connectRemoteApplication` returns. -/
theorem returned {uuid : Nat} (sessions : Sessions history started accepted .attached
    applicationUuid device (.connected uuid :: waits) closers) :
    Milestone.Fits started (.returned uuid applicationUuid device) := by
  obtain ⟨open', socket, isDevice, isCurrent⟩ := sessions.running rfl
  obtain ⟨same, _⟩ : Opened applicationUuid (.connected uuid :: waits) :=
    open'.resolve_left (List.cons_ne_nil _ _)
  exact ⟨same, socket, isDevice, isCurrent.trans (congrArg some same)⟩

/-- `closeApplication` ends the document of the device. -/
theorem close (sessions : Sessions history started accepted attachState applicationUuid device
    waits closers) {socket : Nat} (isDevice : device = some socket) (noWait : waits = [])
    {sender : Option Nat} (current : sender = none ∨ sender = applicationUuid) :
    Sessions history started accepted attachState applicationUuid device waits
      ((sender, socket) :: closers) where
  fits := sessions.fits
  unaccepted := sessions.unaccepted
  idle := sessions.idle
  starting isWaiting := absurd noWait (sessions.starting isWaiting).2.1
  running := sessions.running
  alone _ := noWait
  closing := by
    intro closer member other same
    rcases List.mem_cons.mp member with rfl | earlier
    · exact Option.some.inj (isDevice.symm.trans same)
    · exact sessions.closing closer earlier other same
  own := by
    intro uuid document member
    rcases List.mem_cons.mp member with same | earlier
    · cases same
      have isCurrent : some uuid = applicationUuid := current.resolve_left nofun
      cases state : attachState with
      | notAttached =>
          have none := (sessions.idle state).1
          exact absurd (isCurrent.trans none) nofun
      | waitingForAttach => exact absurd noWait (sessions.starting state).2.1
      | attached =>
          obtain ⟨other, same, belongs⟩ := (sessions.running state).2
          have isOther : socket = other := Option.some.inj (isDevice.symm.trans same)
          rw [← isOther, ← isCurrent] at belongs
          exact belongs
    · exact sessions.own uuid document earlier

/-- A session is ended by who has asked for it. -/
theorem ended {sender : Option Nat} {document socket : Nat}
    (sessions : Sessions history started accepted attachState applicationUuid device waits
      ((sender, document) :: closers)) (isDevice : device = some socket) :
    Milestone.Fits started (.ended sender socket) := by
  have same : document = socket := sessions.closing _ List.mem_cons_self socket isDevice
  cases sender with
  | none => trivial
  | some uuid =>
      have belongs := sessions.own uuid document List.mem_cons_self
      rw [same] at belongs
      exact belongs

theorem forget {closer : Option Nat × Nat}
    (sessions : Sessions history started accepted attachState applicationUuid device waits
      (closer :: closers)) :
    Sessions history started accepted attachState applicationUuid device waits closers :=
  { sessions with
    starting := fun isWaiting =>
      absurd (sessions.starting isWaiting).2.2 (List.cons_ne_nil _ _)
    alone := fun _ => sessions.alone (List.cons_ne_nil _ _)
    closing := fun closer member => sessions.closing closer (List.mem_cons_of_mem _ member)
    own := fun uuid document member =>
      sessions.own uuid document (List.mem_cons_of_mem _ member) }

/-- The interpreter gives up its device, or only forgets what it was for. -/
theorem reset (sessions : Sessions history started accepted attachState applicationUuid device
    waits closers) (noWait : waits = []) {rest : Option Nat}
    (subset : ∀ socket, rest = some socket → device = some socket) :
    Sessions history started accepted .notAttached none rest waits closers where
  fits := sessions.fits
  unaccepted application bound isNew := by
    have isWaiting := (sessions.unaccepted application bound isNew).1
    exact absurd noWait (sessions.starting isWaiting).2.1
  idle _ := ⟨rfl, noWait⟩
  starting := nofun
  running := nofun
  alone _ := noWait
  closing closer member socket isDevice := sessions.closing closer member socket
    (subset socket isDevice)
  own := sessions.own

theorem detach {closer : Option Nat × Nat}
    (sessions : Sessions history started accepted attachState applicationUuid device waits
      (closer :: closers)) :
    Sessions history started accepted .notAttached none none waits closers :=
  sessions.forget.reset (sessions.alone (List.cons_ne_nil _ _)) nofun

end Sessions

/-! ## The steps -/

namespace InterpreterState

def Matched (interpreter : InterpreterState) : Prop :=
  Sessions interpreter.history interpreter.started interpreter.accepted interpreter.attachState
    interpreter.applicationUuid interpreter.device
    (interpreter.calls.filterMap BlockedCall.pending)
    (interpreter.calls.filterMap BlockedCall.closer)

variable {interpreter : InterpreterState}

theorem matched_new : new.Matched where
  fits := nofun
  unaccepted := nofun
  idle _ := ⟨rfl, rfl⟩
  starting := nofun
  running := nofun
  alone _ := rfl
  closing := nofun
  own := nofun

theorem Matched.write (matched : interpreter.Matched) (output : Output) :
    (interpreter.write output).Matched :=
  Sessions.record matched _ trivial

theorem Matched.writeElement (matched : interpreter.Matched) (element : Element) :
    (interpreter.writeElement element).Matched := by
  have written := matched.write (.element element)
  apply waitForAck_rule Matched
  · exact fun _ => written
  · exact fun _ _ => written
  · exact fun _ _ => written

theorem Matched.proceed (matched : interpreter.Matched) {pending : Pending}
    (fits : ∀ uuid, pending = .connected uuid → Milestone.Fits interpreter.started
      (.returned uuid interpreter.applicationUuid interpreter.device)) :
    (interpreter.proceed pending).Matched := by
  cases pending with
  | write element => exact matched.writeElement element
  | connected uuid => exact Sessions.record matched _ (fits uuid rfl)

theorem closing_eq : interpreter.closing =
    (interpreter.calls.filterMap BlockedCall.closer).map Prod.snd := by
  have same : BlockedCall.document = fun call => call.closer.map Prod.snd := by
    funext call
    cases call <;> rfl
  rw [closing, same, List.map_filterMap]

theorem Matched.start (matched : interpreter.Matched)
    (isIdle : interpreter.attachState = .notAttached) (alone : interpreter.closing = [])
    (uuid : Option Nat) (pending : Pending) (opened : Opened uuid [pending]) :
    Sessions interpreter.history (interpreter.started ++ [uuid]) interpreter.accepted
      .waitingForAttach uuid interpreter.device
      (pending :: interpreter.calls.filterMap BlockedCall.pending)
      (interpreter.calls.filterMap BlockedCall.closer) := by
  rw [closing_eq, List.map_eq_nil_iff] at alone
  rw [Matched, isIdle] at matched
  exact Sessions.start matched alone uuid pending opened

theorem Matched.waitForAttach {pending : Pending} (notYet : interpreter.attachState ≠ .attached)
    (waiting : Sessions interpreter.history interpreter.started interpreter.accepted
      .waitingForAttach interpreter.applicationUuid interpreter.device
      (pending :: interpreter.calls.filterMap BlockedCall.pending)
      (interpreter.calls.filterMap BlockedCall.closer)) :
    (interpreter.waitForAttach pending).Matched := by
  rw [waitForAttach_of_ne notYet]
  exact waiting

theorem Matched.ensureAttached (matched : interpreter.Matched)
    (separate : interpreter.attachState = .notAttached → interpreter.closing = [])
    (element : Element) : (interpreter.ensureAttached (.write element)).Matched := by
  rw [InterpreterState.ensureAttached]
  cases state : interpreter.attachState with
  | notAttached =>
      have noObject : interpreter.applicationUuid = none := (matched.idle state).1
      have started := matched.start state (separate state) none (.write element) rfl
      apply Matched.waitForAttach
      · change interpreter.attachState ≠ .attached
        rw [state]
        exact nofun
      · change Sessions _ (interpreter.started ++ [none]) _ _ interpreter.applicationUuid _ _ _
        rw [noObject]
        exact started
  | waitingForAttach =>
      apply Matched.waitForAttach
      · rw [state]
        exact nofun
      · rw [Matched, state] at matched
        exact matched.join element
  | attached => exact matched.proceed nofun

theorem Matched.connectRemoteApplication (matched : interpreter.Matched)
    (isIdle : interpreter.attachState = .notAttached) (alone : interpreter.closing = []) :
    interpreter.connectRemoteApplication.Matched := by
  have started := matched.start isIdle alone (some interpreter.objects)
    (.connected interpreter.objects) ⟨rfl, rfl⟩
  apply Matched.waitForAttach
  · change interpreter.attachState ≠ .attached
    rw [isIdle]
    exact nofun
  · exact started

theorem Matched.setSocket (matched : interpreter.Matched) {application : Nat}
    (bound : application < interpreter.started.length) (isNew : application ∉ interpreter.accepted) :
    (interpreter.setSocket application).Matched := by
  have connected := Sessions.connect matched bound isNew
  have played := connected.record
    (.wrote interpreter.attachState (some application) (.line "PLAY\n")) trivial
  have begun := played.record
    (.wrote interpreter.attachState (some application) .startDocument) trivial
  exact begun.record
    (.wrote interpreter.attachState (some application) (.startElement "hooq")) trivial

/-- Behind the first wait of `closeApplication`, whether it is on the stack or not. -/
theorem Matched.die {sender : Option Nat} {document : Nat}
    (sessions : Sessions interpreter.history interpreter.started interpreter.accepted
      interpreter.attachState interpreter.applicationUuid interpreter.device
      (interpreter.calls.filterMap BlockedCall.pending)
      ((sender, document) :: interpreter.calls.filterMap BlockedCall.closer)) :
    (interpreter.die sender document).Matched := by
  rw [InterpreterState.die]
  split
  next => exact sessions.forget
  next socket isDevice =>
    have said := sessions.record
      (.wrote interpreter.attachState interpreter.device (.line "DIE\n")) trivial
    have ended := said.record (.ended sender socket) (sessions.ended isDevice)
    apply waitForAck_rule Matched
    · exact fun _ => ended.forget
    · exact fun _ _ => ended
    · exact fun _ _ => ended.detach

theorem Matched.closeApplication (matched : interpreter.Matched) {sender : Option Nat}
    (noWait : ¬interpreter.IsStale sender →
      interpreter.calls.filterMap BlockedCall.pending = []) :
    (interpreter.closeApplication sender).Matched := by
  rw [InterpreterState.closeApplication]
  split
  next => exact matched
  next current =>
    split
    next => exact matched
    next socket isDevice =>
      have isCurrent : sender = none ∨ sender = interpreter.applicationUuid := by
        rw [IsStale] at current
        by_contra neither
        exact current (not_or.mp neither)
      have closing := Sessions.close matched isDevice (noWait current) isCurrent
      have element := closing.record
        (.wrote interpreter.attachState interpreter.device .endElement) trivial
      have document := element.record
        (.wrote interpreter.attachState interpreter.device .endDocument) trivial
      have ended := document.record (.ended sender socket) (document.ended isDevice)
      apply waitForAck_rule Matched
      · exact fun _ => ended.forget
      · intro other same
        have isOther : socket = other := Option.some.inj (isDevice.symm.trans same)
        rw [← isOther]
        exact ended
      · exact fun _ _ => Matched.die ended

/-- An object that the script has is closed while nothing waits for its application. -/
theorem Matched.noWait (matched : interpreter.Matched) {uuid : Nat}
    (handed : .waitForAttach (.connected uuid) ∉ interpreter.calls)
    (current : ¬interpreter.IsStale (some uuid)) :
    interpreter.calls.filterMap BlockedCall.pending = [] := by
  have isCurrent : interpreter.applicationUuid = some uuid := by
    rw [IsStale] at current
    by_contra other
    exact current ⟨nofun, fun same => other same.symm⟩
  have notOpened : ¬Opened interpreter.applicationUuid
      (interpreter.calls.filterMap BlockedCall.pending) := by
    intro opened
    rw [isCurrent] at opened
    rcases List.mem_filterMap.mp opened.mem with ⟨call, member, isWait⟩
    cases call <;> cases isWait
    exact handed member
  cases state : interpreter.attachState with
  | notAttached => exact (matched.idle state).2
  | waitingForAttach => exact absurd (matched.starting state).1 notOpened
  | attached => exact (matched.running state).1.resolve_right notOpened

theorem Matched.resume (matched : interpreter.Matched) : interpreter.resume.Matched := by
  rw [InterpreterState.resume]
  split
  next => exact matched
  next pending calls shape =>
    split
    next isAttached =>
      rw [Matched, shape, isAttached] at matched
      have popped : Matched { interpreter with calls := calls } := by
        rw [Matched, isAttached]
        exact matched.pop
      apply popped.proceed
      rintro uuid rfl
      exact matched.returned
    next => exact matched
  next socket calls shape =>
    split
    next => exact matched
    next =>
      rw [Matched, shape] at matched
      exact matched
  next calls shape =>
    split
    next =>
      rw [Matched, shape] at matched
      exact matched
    next => exact matched
  next sender document calls shape =>
    split
    next => exact matched
    next =>
      rw [Matched, shape] at matched
      exact Matched.die matched
  next sender document socket calls shape =>
    split
    next => exact matched
    next =>
      rw [Matched, shape] at matched
      exact matched.detach

/-- Objects are spawned only while nothing is attached or waited for, and no application is
started inside of a call to `closeApplication`. -/
def Separate {Sequence : Type} (interpreter : InterpreterState) : Action Sequence → Prop
  | .spawnDefaultsAndAttach =>
      interpreter.attachState = .notAttached ∧ interpreter.closing = []
  | .write _ => interpreter.attachState = .notAttached → interpreter.closing = []
  | _ => True

instance {Sequence : Type} (interpreter : InterpreterState) (action : Action Sequence) :
    Decidable (interpreter.Separate action) :=
  match action with
  | .spawnDefaultsAndAttach => inferInstanceAs (Decidable (_ ∧ _))
  | .write _ =>
      inferInstanceAs
        (Decidable (interpreter.attachState = .notAttached → interpreter.closing = []))
  | .run | .finish | .fetchProperty _ | .pickObject | .close _ | .accept _ | .disconnect _
  | .acknowledge | .dump | .resume => isTrue trivial

variable {keys : KeySequences}

theorem Matched.perform (matched : interpreter.Matched) {action : Action keys.Sequence}
    (enabled : interpreter.Enabled action) (separate : interpreter.Separate action) :
    (interpreter.perform keys action).Matched := by
  cases action with
  | run =>
      have idle : interpreter.calls.filterMap BlockedCall.pending = [] := by
        rw [enabled.2]
        rfl
      exact Sessions.reset matched idle fun _ isDevice => isDevice
  | finish =>
      have finished : Matched { interpreter with evaluating := false } := matched
      apply finished.closeApplication
      intro _
      change interpreter.calls.filterMap BlockedCall.pending = []
      rw [enabled.2]
      rfl
  | write command => exact matched.ensureAttached separate (Interpreter.write keys command)
  | fetchProperty path => exact matched.write (.element (dumpElement path))
  | pickObject => exact matched.write (.element pickElement)
  | spawnDefaultsAndAttach => exact matched.connectRemoteApplication separate.1 separate.2
  | close uuid =>
      change (interpreter.close uuid).Matched
      rw [close]
      split
      next => exact matched
      next =>
        have closed : Matched { interpreter with closed := uuid :: interpreter.closed } := matched
        exact closed.closeApplication (matched.noWait enabled.2)
  | accept application => exact matched.setSocket enabled.1 enabled.2
  | disconnect socket => exact matched
  | acknowledge =>
      change interpreter.setAck.Matched
      rw [setAck]
      split <;> exact matched
  | dump =>
      change interpreter.setDumpedObject.Matched
      rw [setDumpedObject]
      split <;> exact matched
  | resume => exact matched.resume

/-- Sessions are those of the applications that were started for the objects, in every run
that spawns an object only while nothing is attached. -/
theorem corresponds_of_separate (actions : List (Action keys.Sequence))
    (separate : StepsMeet (next keys) Separate new actions) :
    Corresponds (actions.foldl (next keys) new) := by
  have matched : (actions.foldl (next keys) new).Matched := by
    refine invariant_foldl ?_ matched_new separate
    intro interpreter action matched separate
    rw [next]
    split
    next goes => exact matched.perform goes.2 separate
    next => exact matched
  exact matched.fits

/-- Two applications, one after the other; the first object is destroyed while the script
waits for the second application. -/
theorem oneAfterTheOther_corresponds :
    StepsMeet (next plainSequences) Separate new
        [.spawnDefaultsAndAttach, .accept 0, .resume, .write (.close "a"), .acknowledge, .resume,
          .close 0, .acknowledge, .resume, .acknowledge, .resume, .spawnDefaultsAndAttach,
          .close 0, .accept 1, .resume] ∧
      Corresponds ([.spawnDefaultsAndAttach, .accept 0, .resume, .write (.close "a"), .acknowledge,
        .resume, .close 0, .acknowledge, .resume, .acknowledge, .resume, .spawnDefaultsAndAttach,
        .close 0, .accept 1, .resume].foldl (next plainSequences) new) := by
  have separate : StepsMeet (next plainSequences) Separate new
      [.spawnDefaultsAndAttach, .accept 0, .resume, .write (.close "a"), .acknowledge, .resume,
        .close 0, .acknowledge, .resume, .acknowledge, .resume, .spawnDefaultsAndAttach,
        .close 0, .accept 1, .resume] := by decide +kernel
  exact ⟨separate, corresponds_of_separate _ separate⟩

/-- The second of two applications: `connectRemoteApplication` returns at once, with the
socket of the first. -/
theorem second_spawn_keeps_first_socket :
    ¬∀ actions : List (Action plainSequences.Sequence),
      Corresponds (actions.foldl (next plainSequences) new) := by
  intro always
  have corresponds := always
    [.spawnDefaultsAndAttach, .accept 0, .resume, .spawnDefaultsAndAttach]
  have member : Milestone.returned 1 (some 1) (some 0) ∈
      ([.spawnDefaultsAndAttach, .accept 0, .resume, .spawnDefaultsAndAttach].foldl
        (next plainSequences) new).history := by decide +kernel
  obtain ⟨_, socket, isDevice, belongs⟩ := corresponds _ member
  cases isDevice
  revert belongs
  decide +kernel

end InterpreterState

end Hooq

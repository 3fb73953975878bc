import Hooq.Script.Typing
import Hooq.Script.Variables

/-!
# Where the loop over typed keys runs off its list

The loop that merges key events takes a sleep and an event behind each release.  It
looks whether the list is empty, not whether it has an event.  A list that ends in a
sleep behind a release is what dropped movements leave of a recording that ends in
movements.
-/

namespace Hooq

namespace SimplifyStrings

/-! ## How far a text has got -/

/-- The loop is not in a text, or at a press or a release of a text on a target. -/
inductive KeyRun where
  | idle
  | pressed (target : Target)
  | released (target : Target)
  deriving DecidableEq, Repr

namespace KeyRun

def isReleased : KeyRun → Bool
  | .released _ => true
  | _ => false

/-- A press starts a text on its own target, if no modifier but shift is held. -/
def start (event : Item) : KeyRun :=
  if isPress event && isPlain event.parameters.toMap then .pressed event.target else .idle

/-- A key event in a text. -/
def advance (target : Target) (event : Item) : KeyRun :=
  if isPlain event.parameters.toMap then
    if isPress event then .pressed target else .released target
  else
    .idle

/-- The next event.  Behind a press it has to be a key event on the same target. -/
def step : KeyRun → Item → KeyRun
  | .idle, event => start event
  | .pressed target, event =>
      if event.isKey && event.target = target then advance target event else start event
  | .released target, event => if event.isKey then advance target event else .idle

/-- The next event of a recording whose movements are dropped.  A dropped event on an
internal widget leaves its sleep behind, which ends a text. -/
def next (dropsInternals : Bool) (run : KeyRun) (event : Item) : KeyRun :=
  if dropsInternals && FilterQtInternals.isInternal event then
    .idle
  else if event.method = QString.ofString "moveMouse" then
    run
  else
    run.step event

end KeyRun

def endsInMove (events : List Item) : Bool :=
  events.getLast?.any fun event => event.method = QString.ofString "moveMouse"

/-- The events end in movements directly behind a release that belongs to a text. -/
def fallsOff (dropsInternals : Bool) (run : KeyRun) (events : List Item) : Bool :=
  (events.foldl (KeyRun.next dropsInternals) run).isReleased && endsInMove events

/-! ## Completing the pass -/

/-- The pass completes on the list. -/
def Completes (input : List Item) : Prop :=
  ∃ calls, simplifyStrings.calls () input = .ok calls

/-- The loop goes on from a key event without a fault, and the pass completes behind it. -/
def Resumes (target : Target) (iterator : Item) (text : QString) (msec : Item)
    (input : List Item) : Prop :=
  ∃ run, collect target iterator text msec input = .ok run ∧ Completes run.rest

theorem completes_nil : Completes [] :=
  ⟨[], simplifyStrings.calls_nil ()⟩

theorem completes_iff_of_process {item : Item} {rest : List Item} {outcome : Outcome}
    (processed : process item rest = .ok outcome) :
    Completes (item :: rest) ↔ Completes outcome.rest := by
  have called : simplifyStrings.process () item rest = .ok ((), outcome) := by
    change (process item rest).map _ = _
    rw [processed]
    rfl
  rw [Completes, Completes, simplifyStrings.calls_cons_ok called]
  cases simplifyStrings.calls () outcome.rest with
  | error fault => simp [Except.map]
  | ok later => simp [Except.map]

theorem completes_cons_of_not_press {item : Item} (notPress : isPress item = false)
    (rest : List Item) : Completes (item :: rest) ↔ Completes rest :=
  completes_iff_of_process (process_other notPress rest)

theorem completes_cons_of_press {item : Item} (press : isPress item = true)
    (rest : List Item) :
    Completes (item :: rest) ↔ Resumes item.target item [] .empty rest := by
  cases collected : collect item.target item [] .empty rest with
  | error fault =>
      have failed : simplifyStrings.process () item rest = .error fault := by
        change (process item rest).map _ = _
        rw [process, if_pos press, collected]
        rfl
      simp [Completes, Resumes, simplifyStrings.calls_cons_error failed, collected]
  | ok run =>
      have processed : process item rest = .ok (runCall item rest run).outcome := by
        rw [process, if_pos press, collected]
        rfl
      rw [completes_iff_of_process processed, Resumes, collected]
      constructor
      · intro completes
        exact ⟨run, rfl, completes⟩
      · rintro ⟨_, same, completes⟩
        cases same
        exact completes

section

variable {target : Target} {iterator : Item} {text : QString} {msec sleep event : Item}
  {input rest : List Item}

theorem resumes_of_collect {run : Run} (collected : collect target iterator text msec input = .ok run) :
    Resumes target iterator text msec input ↔ Completes run.rest := by
  rw [Resumes, collected]
  constructor
  · rintro ⟨_, same, completes⟩
    cases same
    exact completes
  · intro completes
    exact ⟨run, rfl, completes⟩

theorem resumes_of_not_plain (held : isPlain iterator.parameters.toMap = false) :
    Resumes target iterator text msec input ↔ Completes input :=
  resumes_of_collect (collect_of_not_plain held)

theorem resumes_nil : Resumes target iterator text msec [] := by
  cases plain : isPlain iterator.parameters.toMap with
  | false => exact (resumes_of_not_plain plain).mpr completes_nil
  | true =>
      have collected : collect target iterator text msec [] = .ok ⟨iterator, text, msec, []⟩ := by
        rw [collect.eq_def]
        simp [plain]
      exact (resumes_of_collect collected).mpr completes_nil

theorem resumes_press_single (press : isPress iterator = true) :
    Resumes target iterator text msec [sleep] ↔ Completes [sleep] := by
  have collected : collect target iterator text msec [sleep] =
      .ok ⟨iterator, text, msec, [sleep]⟩ := by
    rw [collect.eq_def]
    simp [press]
  exact resumes_of_collect collected

/-- The fault: only one item is left behind a release. -/
theorem not_resumes_release_single (notPress : isPress iterator = false)
    (plain : isPlain iterator.parameters.toMap = true) :
    ¬Resumes target iterator text msec [sleep] := by
  have failed : collect target iterator text msec [sleep] = .error .outOfRange := by
    rw [collect.eq_def]
    simp [plain, notPress]
  rw [Resumes, failed]
  simp

theorem resumes_press_pair (press : isPress iterator = true)
    (plain : isPlain iterator.parameters.toMap = true) :
    Resumes target iterator text msec (sleep :: event :: rest) ↔
      if event.isKey && event.target = target then
        Resumes target event (typeKey iterator.parameters.toMap text) sleep rest
      else
        Completes (sleep :: event :: rest) := by
  have merges_eq : merges target iterator (event :: rest) =
      (event.isKey && event.target = target) := by
    rw [merges, plain, Bool.true_and]
  cases merged : (event.isKey && event.target = target : Bool) with
  | true =>
      rw [Resumes, collect_of_merges press (merges_eq.trans merged)]
      rfl
  | false =>
      rw [resumes_of_collect (collect_of_not_merges press (merges_eq.trans merged))]
      rfl

theorem resumes_release_pair (notPress : isPress iterator = false)
    (plain : isPlain iterator.parameters.toMap = true) :
    Resumes target iterator text msec (sleep :: event :: rest) ↔
      if event.isKey then Resumes target event text sleep rest else Completes rest := by
  cases key : event.isKey with
  | true =>
      rw [Resumes, collect_of_release notPress plain key]
      rfl
  | false =>
      rw [resumes_of_collect (collect_of_other notPress plain key)]
      rfl

end

/-! ## What decides -/

/-- Behind a sleep and `later`, completion is up to how far the loop has got. -/
structure Decided (later : List Item) (survives : KeyRun → Prop) : Prop where
  idle : ∀ {sleep : Item}, sleep.isSleep = true →
    (Completes (sleep :: later) ↔ survives .idle)
  pressed : ∀ {sleep iterator msec : Item} {target : Target} {text : QString},
    sleep.isSleep = true → isPress iterator = true →
    isPlain iterator.parameters.toMap = true →
    (Resumes target iterator text msec (sleep :: later) ↔ survives (.pressed target))
  released : ∀ {sleep iterator msec : Item} {target : Target} {text : QString},
    sleep.isSleep = true → isPress iterator = false →
    isPlain iterator.parameters.toMap = true →
    (Resumes target iterator text msec (sleep :: later) ↔ survives (.released target))

theorem completes_cons_of_isSleep {sleep : Item} (isSleep : sleep.isSleep = true)
    (rest : List Item) : Completes (sleep :: rest) ↔ Completes rest :=
  completes_cons_of_not_press (not_isPress_of_isSleep isSleep) rest

theorem isKey_of_isSleep {sleep : Item} (isSleep : sleep.isSleep = true) :
    sleep.isKey = false := by
  cases key : sleep.isKey with
  | false => rfl
  | true =>
      rw [Item.isSleep_of_isKey key] at isSleep
      cases isSleep

/-- With nothing behind the sleep, a release of a text runs off the list. -/
theorem decided_nil : Decided [] fun run => run.isReleased = false := by
  have completes : ∀ {sleep : Item}, sleep.isSleep = true → Completes [sleep] := by
    intro sleep isSleep
    exact (completes_cons_of_isSleep isSleep []).mpr completes_nil
  constructor
  · intro sleep isSleep
    exact iff_of_true (completes isSleep) rfl
  · intro sleep iterator msec target text isSleep press plain
    rw [resumes_press_single press]
    exact iff_of_true (completes isSleep) rfl
  · intro sleep iterator msec target text isSleep notPress plain
    exact iff_of_false (not_resumes_release_single notPress plain) Bool.noConfusion

theorem decided_singleton (event : Item) : Decided [event] fun _ => True := by
  have single : Completes [event] := by
    cases press : isPress event with
    | false => exact (completes_cons_of_not_press press []).mpr completes_nil
    | true => exact (completes_cons_of_press press []).mpr resumes_nil
  constructor
  · intro sleep isSleep
    rw [completes_cons_of_isSleep isSleep]
    exact iff_of_true single trivial
  · intro sleep iterator msec target text isSleep press plain
    rw [resumes_press_pair press plain]
    apply iff_of_true _ trivial
    split
    · exact resumes_nil
    · exact (completes_cons_of_isSleep isSleep _).mpr single
  · intro sleep iterator msec target text isSleep notPress plain
    rw [resumes_release_pair notPress plain]
    apply iff_of_true _ trivial
    split
    · exact resumes_nil
    · exact completes_nil

namespace Decided

variable {later : List Item} {survives : KeyRun → Prop}

theorem congr (decided : Decided later survives) {other : KeyRun → Prop}
    (same : ∀ run, survives run ↔ other run) : Decided later other := by
  rw [← funext fun run => propext (same run)]
  exact decided

/-- Two sleeps in a row end a text. -/
theorem sleep (decided : Decided later survives) {sleep : Item} (isSleep : sleep.isSleep = true) :
    Decided (sleep :: later) fun _ => survives .idle := by
  have notKey := isKey_of_isSleep isSleep
  constructor
  · intro first isFirst
    rw [completes_cons_of_isSleep isFirst]
    exact decided.idle isSleep
  · intro first iterator msec target text isFirst press plain
    rw [resumes_press_pair press plain, notKey, Bool.false_and, if_neg Bool.false_ne_true,
      completes_cons_of_isSleep isFirst]
    exact decided.idle isSleep
  · intro first iterator msec target text isFirst notPress plain
    rw [resumes_release_pair notPress plain, notKey, if_neg Bool.false_ne_true,
      ← completes_cons_of_isSleep isSleep]
    exact decided.idle isSleep

/-- A key event in a text, with its sleep behind it. -/
theorem advance (decided : Decided later survives) {sleep event msec : Item} {text : QString}
    (isSleep : sleep.isSleep = true) (target : Target) :
    Resumes target event text msec (sleep :: later) ↔ survives (KeyRun.advance target event) := by
  rw [KeyRun.advance]
  cases plain : isPlain event.parameters.toMap with
  | false =>
      rw [resumes_of_not_plain plain]
      exact decided.idle isSleep
  | true =>
      cases press : isPress event with
      | true => exact decided.pressed isSleep press plain
      | false => exact decided.released isSleep press plain

theorem start (decided : Decided later survives) {sleep event : Item}
    (isSleep : sleep.isSleep = true) :
    Completes (event :: sleep :: later) ↔ survives (KeyRun.start event) := by
  rw [KeyRun.start]
  cases press : isPress event with
  | false =>
      rw [completes_cons_of_not_press press]
      exact decided.idle isSleep
  | true =>
      rw [completes_cons_of_press press, decided.advance isSleep, KeyRun.advance, press]
      rfl

/-- One more event in front. -/
theorem event (decided : Decided later survives) {sleep : Item} (isSleep : sleep.isSleep = true)
    (event : Item) :
    Decided (event :: sleep :: later) fun run => survives (run.step event) := by
  constructor
  · intro first isFirst
    rw [completes_cons_of_isSleep isFirst]
    exact decided.start isSleep
  · intro first iterator msec target text isFirst press plain
    rw [resumes_press_pair press plain, KeyRun.step]
    split
    · exact decided.advance isSleep target
    · rw [completes_cons_of_isSleep isFirst]
      exact decided.start isSleep
  · intro first iterator msec target text isFirst notPress plain
    rw [resumes_release_pair notPress plain, KeyRun.step]
    split
    · exact decided.advance isSleep target
    · exact decided.idle isSleep

end Decided

end SimplifyStrings

/-! ## Recordings without movements -/

/-- What is left when each movement is dropped with the item behind it. -/
def withoutMoves : List Item → List Item
  | [] => []
  | [item] => if item.method = QString.ofString "moveMouse" then [] else [item]
  | item :: following :: rest =>
      if item.method = QString.ofString "moveMouse" then
        withoutMoves rest
      else
        item :: withoutMoves (following :: rest)

theorem withoutMoves_cons_of_not {item : Item}
    (notMove : item.method ≠ QString.ofString "moveMouse") (rest : List Item) :
    withoutMoves (item :: rest) = item :: withoutMoves rest := by
  cases rest with
  | nil => exact if_neg notMove
  | cons following rest => exact if_neg notMove

theorem withoutMoves_cons_of_move {item : Item}
    (isMove : item.method = QString.ofString "moveMouse") (rest : List Item) :
    withoutMoves (item :: rest) = withoutMoves rest.tail := by
  cases rest with
  | nil => exact if_pos isMove
  | cons following rest => exact if_pos isMove

/-- A list without the events on internal widgets, if they are dropped. -/
def keptFrom (dropsInternals : Bool) (items : List Item) : List Item :=
  if dropsInternals then external items else items

theorem keptFrom_cons {dropsInternals : Bool} {item : Item}
    (kept : (dropsInternals && FilterQtInternals.isInternal item) = false) (rest : List Item) :
    keptFrom dropsInternals (item :: rest) = item :: keptFrom dropsInternals rest := by
  rw [keptFrom, keptFrom]
  cases dropsInternals with
  | false => rfl
  | true =>
      rw [Bool.true_and] at kept
      rw [if_pos rfl, external, List.filter_cons_of_pos (by simp [kept])]
      rfl

theorem keptFrom_cons_of_dropped {dropsInternals : Bool} {item : Item}
    (dropped : (dropsInternals && FilterQtInternals.isInternal item) = true) (rest : List Item) :
    keptFrom dropsInternals (item :: rest) = keptFrom dropsInternals rest := by
  rcases Bool.and_eq_true_iff.mp dropped with ⟨drops, internal⟩
  rw [keptFrom, keptFrom, drops, if_pos rfl, if_pos rfl, external,
    List.filter_cons_of_neg (by simp [internal])]
  rfl

section

variable (dropsInternals : Bool)

/-- A sleep comes out of both passes. -/
theorem withoutMoves_keptFrom_sleep (duration : Int32) (rest : List Item) :
    withoutMoves (keptFrom dropsInternals (.ofMethod "msleep" (.int duration) :: rest)) =
      .ofMethod "msleep" (.int duration) :: withoutMoves (keptFrom dropsInternals rest) := by
  have unclassed : FilterQtInternals.isInternal (.ofMethod "msleep" (.int duration)) = false := by
    change decide ([] ∈ FilterQtInternals.internalClasses) = false
    decide
  rw [keptFrom_cons (by rw [unclassed, Bool.and_false]), withoutMoves_cons_of_not]
  change QString.ofString "msleep" ≠ QString.ofString "moveMouse"
  decide

open SimplifyStrings

theorem fallsOff_singleton (run : KeyRun) (event : Item) :
    fallsOff dropsInternals run [event] =
      ((KeyRun.next dropsInternals run event).isReleased &&
        (event.method = QString.ofString "moveMouse" : Bool)) := rfl

theorem fallsOff_cons {events : List Item} (nonempty : events ≠ []) (run : KeyRun)
    (event : Item) :
    fallsOff dropsInternals run (event :: events) =
      fallsOff dropsInternals (KeyRun.next dropsInternals run event) events := by
  cases events with
  | nil => exact absurd rfl nonempty
  | cons second events =>
      rw [fallsOff, endsInMove, List.getLast?_cons_cons]
      rfl

/-- Behind a first sleep and a movement, the sleep takes the place of the next one. -/
theorem withoutMoves_keptFrom_move {event : Item} {rest : List Item}
    (isMove : event.method = QString.ofString "moveMouse")
    (kept : (dropsInternals && FilterQtInternals.isInternal event) = false)
    (isRecording : IsRecording rest) :
    withoutMoves (keptFrom dropsInternals (event :: rest)) =
      (withoutMoves (keptFrom dropsInternals rest)).tail := by
  rw [keptFrom_cons kept, withoutMoves_cons_of_move isMove]
  cases isRecording with
  | nil => cases dropsInternals <;> rfl
  | pair duration isEvent isRecording =>
      rw [withoutMoves_keptFrom_sleep]
      cases dropsInternals <;> rfl

/-- Completion behind the first sleep of a recording, once its movements are dropped. -/
theorem decided_withoutMoves {items : List Item} (isRecording : IsRecording items)
    (nonempty : items ≠ [])
    (ends : (dropsInternals && (eventsOf items).getLast?.any FilterQtInternals.isInternal) =
      false) :
    Decided (withoutMoves (keptFrom dropsInternals items)).tail fun run =>
      fallsOff dropsInternals run (eventsOf items) = false := by
  induction isRecording with
  | nil => exact absurd rfl nonempty
  | @pair duration event rest isEvent isRecording ih =>
      rw [withoutMoves_keptFrom_sleep, List.tail_cons]
      cases isRecording with
      | nil =>
          have kept : (dropsInternals && FilterQtInternals.isInternal event) = false := ends
          by_cases isMove : event.method = QString.ofString "moveMouse"
          · have nothing : withoutMoves (keptFrom dropsInternals [event]) = [] := by
              rw [withoutMoves_keptFrom_move dropsInternals isMove kept .nil]
              cases dropsInternals <;> rfl
            change Decided (withoutMoves (keptFrom dropsInternals [event])) fun run =>
              fallsOff dropsInternals run [event] = false
            rw [nothing]
            apply decided_nil.congr
            intro run
            rw [fallsOff_singleton, KeyRun.next, kept, if_neg Bool.false_ne_true, if_pos isMove,
              decide_eq_true isMove, Bool.and_true]
          · have only : withoutMoves (keptFrom dropsInternals [event]) = [event] := by
              rw [keptFrom_cons kept, withoutMoves_cons_of_not isMove]
              cases dropsInternals <;> rfl
            change Decided (withoutMoves (keptFrom dropsInternals [event])) fun run =>
              fallsOff dropsInternals run [event] = false
            rw [only]
            apply (decided_singleton event).congr
            intro run
            rw [fallsOff_singleton, decide_eq_false isMove, Bool.and_false]
            exact ⟨fun _ => rfl, fun _ => trivial⟩
      | @pair nextDuration following later isFollowing isRecording =>
          have isSleep : (Item.ofMethod "msleep" (.int nextDuration)).isSleep = true := rfl
          have decided := ih (List.cons_ne_nil _ _) (by
            rw [eventsOf] at ends
            exact ends)
          rw [withoutMoves_keptFrom_sleep, List.tail_cons] at decided
          change Decided _ fun run =>
            fallsOff dropsInternals run (following :: eventsOf later) = false at decided
          change Decided _ fun run =>
            fallsOff dropsInternals run (event :: following :: eventsOf later) = false
          simp only [fallsOff_cons dropsInternals (List.cons_ne_nil following _) _ event]
          cases dropped : (dropsInternals && FilterQtInternals.isInternal event) with
          | true =>
              rw [keptFrom_cons_of_dropped dropped, withoutMoves_keptFrom_sleep]
              apply (decided.sleep isSleep).congr
              intro run
              rw [KeyRun.next, if_pos dropped]
          | false =>
              by_cases isMove : event.method = QString.ofString "moveMouse"
              · rw [withoutMoves_keptFrom_move dropsInternals isMove dropped
                  (.pair nextDuration isFollowing isRecording), withoutMoves_keptFrom_sleep,
                  List.tail_cons]
                apply decided.congr
                intro run
                rw [KeyRun.next, dropped, if_neg Bool.false_ne_true, if_pos isMove]
              · rw [keptFrom_cons dropped, withoutMoves_cons_of_not isMove,
                  withoutMoves_keptFrom_sleep]
                apply (decided.event isSleep event).congr
                intro run
                rw [KeyRun.next, dropped, if_neg Bool.false_ne_true, if_neg isMove]

end

end Hooq

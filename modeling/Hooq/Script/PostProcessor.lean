import Hooq.Script.Item

/-!
# Running post-processors

The driver takes the items of a list one by one, hands each to a post-processor
together with the items behind it, and collects what the call leaves behind.
The post-processors that the options enable run one after the other, each on the
output of the one before.
-/

namespace Hooq

/-- What stops a post-processor. -/
inductive Fault where
  | outOfRange
  | assertion
  deriving DecidableEq, Repr

/-- What one call of `process` leaves behind: the item it was given, the items
behind it, and its calls of `insertItem` in order.  No post-processor reads the
list that it inserts into. -/
structure Outcome where
  iterator : Item
  rest : List Item
  insertions : List (Item × Position)
  deriving DecidableEq, Repr

namespace Outcome

/-- A call that leaves everything as it is. -/
def unchanged (item : Item) (input : List Item) : Outcome := ⟨item, input, []⟩

/-- The effect of a call, and of the driver behind it, on the output. -/
def perform (outcome : Outcome) (inserter : Inserter Item) : Inserter Item :=
  let inserted := inserter.insertAll outcome.insertions
  let emitted :=
    if outcome.iterator.isValid then inserted.append outcome.iterator else inserted
  emitted.next

end Outcome

/-- One call of `process`: what it was given and what it left behind. -/
structure Call where
  item : Item
  following : List Item
  outcome : Outcome
  deriving DecidableEq, Repr

/-- A post-processor, with its members as state.  A call only ever consumes the
list that it looks ahead in. -/
structure PostProcessor where
  State : Type
  initial : State
  process : State → Item → List Item → Except Fault (State × Outcome)
  process_suffix : ∀ {state item input next outcome},
    process state item input = .ok (next, outcome) → outcome.rest <:+ input

namespace PostProcessor

variable (processor : PostProcessor)

/-- The loop of `XmlToQtScript::itemString` over the items of one list. -/
def run (state : processor.State) (input : List Item) (inserter : Inserter Item) :
    Except Fault (Inserter Item) :=
  match input with
  | [] => .ok inserter
  | item :: following =>
      match _processed : processor.process state item following with
      | .error fault => .error fault
      | .ok (next, outcome) => run next outcome.rest (outcome.perform inserter)
termination_by input.length
decreasing_by
  exact Nat.lt_succ_of_le (processor.process_suffix _processed).length_le

/-- The calls that the loop makes. -/
def calls (state : processor.State) (input : List Item) : Except Fault (List Call) :=
  match input with
  | [] => .ok []
  | item :: following =>
      match _processed : processor.process state item following with
      | .error fault => .error fault
      | .ok (next, outcome) => (calls next outcome.rest).map (⟨item, following, outcome⟩ :: ·)
termination_by input.length
decreasing_by
  exact Nat.lt_succ_of_le (processor.process_suffix _processed).length_le

theorem run_nil (state : processor.State) (inserter : Inserter Item) :
    processor.run state [] inserter = .ok inserter := by
  rw [run]

theorem run_cons_ok {state next : processor.State} {item : Item} {following : List Item}
    {outcome : Outcome} (inserter : Inserter Item)
    (processed : processor.process state item following = .ok (next, outcome)) :
    processor.run state (item :: following) inserter =
      processor.run next outcome.rest (outcome.perform inserter) := by
  rw [run]
  split
  next fault failed => simp [processed] at failed
  next otherNext otherOutcome otherProcessed =>
    rw [processed] at otherProcessed
    cases otherProcessed
    rfl

theorem run_cons_error {state : processor.State} {item : Item} {following : List Item}
    {fault : Fault} (inserter : Inserter Item)
    (failed : processor.process state item following = .error fault) :
    processor.run state (item :: following) inserter = .error fault := by
  rw [run]
  split
  next otherFault otherFailed =>
    rw [failed] at otherFailed
    cases otherFailed
    rfl
  next next outcome processed => simp [failed] at processed

theorem calls_nil (state : processor.State) : processor.calls state [] = .ok [] := by
  rw [calls]

theorem calls_cons_ok {state next : processor.State} {item : Item} {following : List Item}
    {outcome : Outcome}
    (processed : processor.process state item following = .ok (next, outcome)) :
    processor.calls state (item :: following) =
      (processor.calls next outcome.rest).map (⟨item, following, outcome⟩ :: ·) := by
  rw [calls]
  split
  next fault failed => simp [processed] at failed
  next otherNext otherOutcome otherProcessed =>
    rw [processed] at otherProcessed
    cases otherProcessed
    rfl

theorem calls_cons_error {state : processor.State} {item : Item} {following : List Item}
    {fault : Fault} (failed : processor.process state item following = .error fault) :
    processor.calls state (item :: following) = .error fault := by
  rw [calls]
  split
  next otherFault otherFailed =>
    rw [failed] at otherFailed
    cases otherFailed
    rfl
  next next outcome processed => simp [failed] at processed

/-- Induction along the calls of a run that completes. -/
theorem runInduction {motive : processor.State → List Item → Inserter Item → Prop}
    {final : Inserter Item}
    (nil : ∀ state, motive state [] final)
    (cons : ∀ state item following next outcome inserter,
      processor.process state item following = .ok (next, outcome) →
      processor.run next outcome.rest (outcome.perform inserter) = .ok final →
      motive next outcome.rest (outcome.perform inserter) →
      motive state (item :: following) inserter)
    {state : processor.State} {input : List Item} {inserter : Inserter Item}
    (completes : processor.run state input inserter = .ok final) :
    motive state input inserter := by
  induction size : input.length using Nat.strong_induction_on
    generalizing state input inserter with
  | _ size ih =>
      subst size
      cases input with
      | nil =>
          rw [run_nil] at completes
          cases completes
          exact nil state
      | cons item following =>
          cases processed : processor.process state item following with
          | error fault => simp [processor.run_cons_error inserter processed] at completes
          | ok result =>
              rcases result with ⟨next, outcome⟩
              rw [processor.run_cons_ok inserter processed] at completes
              have shorter := (processor.process_suffix processed).length_le
              exact cons state item following next outcome inserter processed completes
                (ih _ (Nat.lt_succ_of_le shorter) completes rfl)

/-- A run performs the outcomes of its calls one after the other. -/
theorem run_eq_calls (state : processor.State) (input : List Item) (inserter : Inserter Item) :
    processor.run state input inserter =
      (processor.calls state input).map
        (List.foldl (fun inserter call => call.outcome.perform inserter) inserter) := by
  induction size : input.length using Nat.strong_induction_on
    generalizing state input inserter with
  | _ size ih =>
      subst size
      cases input with
      | nil => rw [run_nil, calls_nil]; rfl
      | cons item following =>
          cases processed : processor.process state item following with
          | error fault =>
              rw [processor.run_cons_error inserter processed,
                processor.calls_cons_error processed]
              rfl
          | ok result =>
              rcases result with ⟨next, outcome⟩
              have shorter := (processor.process_suffix processed).length_le
              rw [processor.run_cons_ok inserter processed, processor.calls_cons_ok processed,
                ih _ (Nat.lt_succ_of_le shorter) next outcome.rest _ rfl]
              cases processor.calls next outcome.rest <;> rfl

end PostProcessor

/-- The loop of `XmlToQtScript::itemString` over the post-processors. -/
def runAll : List PostProcessor → List Item → Inserter Item → Except Fault (List Item)
  | [], input, _ => .ok input
  | processor :: rest, input, inserter => do
      let collected ← processor.run processor.initial input inserter.clear
      runAll rest collected.rootList collected.reset

end Hooq

import Hooq.Playback.Interleaving

/-!
# How calls nest

An event loop calls the player only where it is the innermost call.  Between two event
loops there is then one call of the player, with one of `processEvents` inside of
`readNext` at most.
-/

namespace Hooq

/-- The innermost call is an event loop of the application. -/
def AtLoop (stack : List Frame) : Prop :=
  stack = [] ∨ stack.head? = some .flushing

/-- The calls that can be active, innermost first. -/
inductive Nested : List Frame → Prop where
  | idle : Nested []
  | call {frame : Frame} {stack : List Frame} (isCall : frame ≠ .flushing) (turn : AtLoop stack)
      (nested : Nested stack) : Nested (frame :: stack)
  | element {stack : List Frame} (nested : Nested (.readElement :: stack)) :
      Nested (.processing :: .readElement :: stack)
  | flush {stack : List Frame} (nested : Nested (.processing :: stack)) :
      Nested (.flushing :: .processing :: stack)

namespace Nested

variable {frame : Frame} {stack : List Frame}

theorem tail (nested : Nested (frame :: stack)) : Nested stack := by
  cases nested with
  | call isCall turn nested => exact nested
  | element nested => exact nested
  | flush nested => exact nested

/-- `readNext` is called by an event loop. -/
theorem atLoop (nested : Nested (frame :: stack)) (reads : frame = .reading ∨ frame = .readElement) :
    AtLoop stack := by
  cases nested with
  | call isCall turn nested => exact turn
  | element nested => exact absurd reads (by decide)
  | flush nested => exact absurd reads (by decide)

/-- An event loop of a flush runs inside of the queue loop. -/
theorem processing_mem (nested : Nested stack) (flushes : .flushing ∈ stack) :
    .processing ∈ stack := by
  induction nested with
  | idle => cases flushes
  | call isCall turn nested ih =>
      rcases List.mem_cons.mp flushes with same | inside
      · exact absurd same.symm isCall
      · exact List.mem_cons_of_mem _ (ih inside)
  | element nested ih => exact List.mem_cons_self
  | flush nested ih => exact List.mem_cons_of_mem _ List.mem_cons_self

/-- Without a flush there is one call of the event loop of the application. -/
theorem shape (nested : Nested stack) (noFlush : .flushing ∉ stack) :
    stack = [] ∨ (∃ frame, stack = [frame]) ∨ stack = [.processing, .readElement] := by
  have bottom {outer : List Frame} (turn : AtLoop outer) (noFlush : .flushing ∉ outer) :
      outer = [] := by
    rcases turn with none | flushing
    · exact none
    · exact absurd (List.mem_of_mem_head? flushing) noFlush
  cases nested with
  | idle => exact .inl rfl
  | @call frame stack isCall turn nested =>
      have none := bottom turn fun member => noFlush (List.mem_cons_of_mem _ member)
      exact .inr (.inl ⟨frame, by rw [none]⟩)
  | @element stack nested =>
      have none := bottom (nested.atLoop (.inr rfl)) fun member =>
        noFlush (List.mem_cons_of_mem _ (List.mem_cons_of_mem _ member))
      exact .inr (.inr (by rw [none]))
  | flush nested => exact absurd List.mem_cons_self noFlush

end Nested

namespace Player

section

variable {Object Sequence : Type} {player : Player Object Sequence}

theorem nested_processEvents (nested : Nested player.stack)
    (called : AtLoop player.stack ∨ ∃ stack, player.stack = .readElement :: stack) :
    Nested player.processEvents.stack := by
  rw [processEvents]
  split
  next => exact nested
  next =>
      rcases called with turn | ⟨stack, shape⟩
      · exact .call (by decide) turn nested
      · rw [shape] at nested
        exact shape ▸ .element nested

theorem ack_stack (player : Player Object Sequence) :
    player.ack.stack = player.stack ∨ player.ack.stack = [] := by
  rcases player.ack_eq with ⟨_, same⟩ | ⟨_, same⟩
  · exact .inl (by rw [same])
  · exact .inr (by rw [same]; rfl)

theorem nested_endElement {stack : List Frame} (nested : Nested stack) (turn : AtLoop stack) :
    Nested (player.endElement stack).stack := by
  rw [endElement]
  split
  next =>
      rcases ack_stack { player with connected := false, stack := stack } with same | none
      · apply nested_processEvents
        · rw [same]
          exact nested
        · rw [same]
          exact .inl turn
      · apply nested_processEvents
        · rw [none]
          exact .idle
        · exact .inl (.inl none)
  next => exact .call (by decide) turn nested

theorem endProcessing_stack (player : Player Object Sequence) :
    player.endProcessing.stack = player.stack.tail := by
  rw [endProcessing]
  split <;> rfl

theorem nested_readyRead (nested : Nested player.stack) (turn : AtLoop player.stack)
    (arrived : List Token) : Nested (player.readyRead arrived).stack := by
  simp only [readyRead]
  split
  · exact .call (by decide) turn nested
  · exact nested

theorem nested_endFlush (nested : Nested player.stack)
    (flushing : player.stack.head? = some .flushing) : Nested player.endFlush.stack := by
  obtain ⟨stack, shape⟩ := List.head?_eq_some_iff.mp flushing
  rw [shape] at nested
  rw [endFlush, leave, shape]
  exact nested.tail

theorem nested_waitFinished (nested : Nested player.stack) (turn : AtLoop player.stack) :
    Nested player.waitFinished.stack := by
  have shape := ack_stack { player with timers := player.timers - 1 }
  rw [waitFinished]
  generalize { player with timers := player.timers - 1 }.ack = acked at shape ⊢
  rcases shape with same | none
  · have nestedAcked : Nested acked.stack := by
      rw [same]
      exact nested
    have turnAcked : AtLoop acked.stack := by
      rw [same]
      exact turn
    exact nested_processEvents nestedAcked (.inl turnAcked)
  · have nestedAcked : Nested acked.stack := by
      rw [none]
      exact .idle
    exact nested_processEvents nestedAcked (.inl (.inl none))

end

section

variable {Object : Type} [DecidableEq Object] (keys : KeySequences)
  (application : Application Object) {player : Player Object keys.Sequence}

/-- A step keeps the way in which calls nest. -/
theorem nested_step (nested : Nested player.stack) :
    Nested (player.step keys application).stack := by
  cases player.stepCase keys application with
  | idle turn step =>
      rw [step]
      exact nested
  | performs stack event rest shape queue step =>
      have outcome := perform_outcome application event { player with eventQueue := rest }
      rw [shape] at nested
      rw [step]
      revert outcome
      generalize { player with eventQueue := rest }.perform application event = next
      intro outcome
      cases outcome with
      | answered => exact shape ▸ nested
      | failing => exact .idle
      | flushing =>
          dsimp only
          rw [shape]
          exact .flush nested
      | picking =>
          dsimp only
          rw [shape]
          exact nested.tail
      | sleeping =>
          dsimp only
          rw [shape]
          exact nested.tail
  | settles stack shape queue step =>
      rw [shape] at nested
      rw [step, endProcessing_stack, shape]
      exact nested.tail
  | closes stack shape step =>
      rw [shape] at nested
      rw [step]
      exact nested_endElement nested.tail (nested.atLoop (.inr rfl))
  | stops stack shape ending step =>
      rw [shape] at nested
      rw [step]
      exact nested_processEvents nested.tail (.inl (nested.atLoop (.inl rfl)))
  | parses stack shape more starts step =>
      rw [shape] at nested
      rw [step]
      have entered : Nested (.readElement :: stack) :=
        .call (by decide) (nested.atLoop (.inl rfl)) nested.tail
      rcases handleElement_stack keys application
        { player.readToken with stack := .readElement :: stack } with same | none
      · apply nested_processEvents
        · rw [same]
          exact entered
        · exact .inr ⟨stack, same⟩
      · apply nested_processEvents
        · rw [none]
          exact .idle
        · exact .inl (.inl none)
  | passes stack shape more other step =>
      rw [shape] at nested
      rw [step]
      exact nested_endElement nested.tail (nested.atLoop (.inl rfl))

end

end Player

end Hooq

import Hooq.Script.Pipeline

/-!
# Where inserted items end up

The inserter finds the place of the current item through an index that it
advances itself.  To tell equal items apart, this module repeats the run of a
pass on items that remember the call they come from, and settles for which runs
an item inserted before the current one really ends up there.
-/

namespace Hooq

/-- Where an element of the output of a pass comes from: the call of `process`,
counted from zero, and whether the call inserted or emitted it. -/
inductive Origin where
  | beginning (call : Nat)
  | before (call : Nat)
  | emitted (call : Nat)
  deriving DecidableEq, Repr

structure Placed where
  origin : Origin
  item : Item
  deriving DecidableEq, Repr

def Position.origin (call : Nat) : Position → Origin
  | .beginning => .beginning call
  | .beforeCurrentItem => .before call

namespace Inserter

variable {α β : Type}

def map (image : α → β) (inserter : Inserter α) : Inserter β where
  rootList := inserter.rootList.map image
  originalStart := inserter.originalStart
  itemIndex := inserter.itemIndex
  appendedItems := inserter.appendedItems

theorem map_insert (image : α → β) (inserter : Inserter α) (item : α) (position : Position) :
    (inserter.insert item position).map image =
      (inserter.map image).insert (image item) position := by
  cases position <;> simp [insert, map, map_insertAt]

theorem map_insertAll (image : α → β) (inserter : Inserter α)
    (insertions : List (α × Position)) :
    (inserter.insertAll insertions).map image =
      (inserter.map image).insertAll
        (insertions.map fun insertion => (image insertion.1, insertion.2)) := by
  induction insertions generalizing inserter with
  | nil => rfl
  | cons insertion rest ih =>
      simp only [insertAll, List.foldl_cons, List.map_cons] at ih ⊢
      rw [ih, map_insert]

/-- How far the index is ahead of the end of the list. -/
def lag (inserter : Inserter α) : Int :=
  inserter.itemIndex - inserter.rootList.length

@[simp] theorem lag_insert (inserter : Inserter α) (item : α) (position : Position) :
    (inserter.insert item position).lag = inserter.lag := by
  cases position <;> simp [insert, lag]

@[simp] theorem appendedItems_insert (inserter : Inserter α) (item : α) (position : Position) :
    (inserter.insert item position).appendedItems = inserter.appendedItems := by
  cases position <;> rfl

theorem insertAll_cons (inserter : Inserter α) (insertion : α × Position)
    (rest : List (α × Position)) :
    inserter.insertAll (insertion :: rest) =
      (inserter.insert insertion.1 insertion.2).insertAll rest := rfl

@[simp] theorem lag_insertAll (inserter : Inserter α) (insertions : List (α × Position)) :
    (inserter.insertAll insertions).lag = inserter.lag := by
  induction insertions generalizing inserter with
  | nil => rfl
  | cons insertion rest ih => rw [insertAll_cons, ih, lag_insert]

@[simp] theorem appendedItems_insertAll (inserter : Inserter α)
    (insertions : List (α × Position)) :
    (inserter.insertAll insertions).appendedItems = inserter.appendedItems := by
  induction insertions generalizing inserter with
  | nil => rfl
  | cons insertion rest ih => rw [insertAll_cons, ih, appendedItems_insert]

theorem sublist_insertAll (inserter : Inserter α) (insertions : List (α × Position)) :
    inserter.rootList.Sublist (inserter.insertAll insertions).rootList := by
  induction insertions generalizing inserter with
  | nil => exact List.Sublist.refl _
  | cons insertion rest ih =>
      rw [insertAll_cons]
      refine List.Sublist.trans ?_ (ih _)
      cases insertion.2 <;> exact sublist_insertAt _ _ _

end Inserter

namespace Outcome

/-- Some insertion of the call goes before the current item. -/
def InsertsBefore (outcome : Outcome) : Prop :=
  ∃ insertion ∈ outcome.insertions, insertion.2 = .beforeCurrentItem

/-- The call inserts in one kind of place only. -/
def Uniform (outcome : Outcome) : Prop :=
  ∃ position, ∀ insertion ∈ outcome.insertions, insertion.2 = position

/-- The insertions of a call, with their origin. -/
def marked (outcome : Outcome) (call : Nat) : List (Placed × Position) :=
  outcome.insertions.map fun insertion =>
    (⟨insertion.2.origin call, insertion.1⟩, insertion.2)

/-- The effect of a call on an output that remembers origins. -/
def place (outcome : Outcome) (call : Nat) (inserter : Inserter Placed) : Inserter Placed :=
  let inserted := inserter.insertAll (outcome.marked call)
  let emitted :=
    if outcome.iterator.isValid then
      inserted.append ⟨.emitted call, outcome.iterator⟩
    else
      inserted
  emitted.next

/-- Forgetting the origins gives the run of the program. -/
theorem map_place (outcome : Outcome) (call : Nat) (inserter : Inserter Placed) :
    (outcome.place call inserter).map Placed.item =
      outcome.perform (inserter.map Placed.item) := by
  have inserted : (inserter.insertAll (outcome.marked call)).map Placed.item =
      (inserter.map Placed.item).insertAll outcome.insertions := by
    rw [Inserter.map_insertAll, marked, List.map_map]
    simp [Function.comp_def]
  rw [place, perform, ← inserted]
  cases outcome.iterator.isValid <;> simp [Inserter.map, Inserter.append, Inserter.next]

theorem lag_place (outcome : Outcome) (call : Nat) {inserter : Inserter Placed}
    (appended : inserter.appendedItems = 0) :
    (outcome.place call inserter).lag =
      inserter.lag + (if outcome.iterator.isValid then 0 else 1) := by
  have kept := inserter.lag_insertAll (outcome.marked call)
  rw [place]
  cases outcome.iterator.isValid <;>
    simp [Inserter.lag, Inserter.append, Inserter.next, appended] at kept ⊢ <;>
    omega

@[simp] theorem appendedItems_place (outcome : Outcome) (call : Nat)
    (inserter : Inserter Placed) : (outcome.place call inserter).appendedItems = 0 := rfl

theorem sublist_place (outcome : Outcome) (call : Nat) (inserter : Inserter Placed) :
    inserter.rootList.Sublist (outcome.place call inserter).rootList := by
  refine (inserter.sublist_insertAll (outcome.marked call)).trans ?_
  rw [place]
  split
  · exact List.sublist_append_left _ _
  · exact List.Sublist.refl _

end Outcome

/-! ## The passes of a pipeline -/

/-- A pass that completes: the index that its inserter starts from and what its
calls leave behind. -/
structure PassRun where
  itemIndex : Int
  outcomes : List Outcome
  deriving DecidableEq, Repr

namespace PassRun

def placeAll : (call : Nat) → List Outcome → Inserter Placed → Inserter Placed
  | _, [], inserter => inserter
  | call, outcome :: rest, inserter => placeAll (call + 1) rest (outcome.place call inserter)

/-- The output of the pass, with origins. -/
def output (run : PassRun) : List Placed :=
  (placeAll 0 run.outcomes ⟨[], 0, run.itemIndex, 0⟩).rootList

theorem map_placeAll (call : Nat) (outcomes : List Outcome) (inserter : Inserter Placed) :
    (placeAll call outcomes inserter).map Placed.item =
      outcomes.foldl (fun inserter outcome => outcome.perform inserter)
        (inserter.map Placed.item) := by
  induction outcomes generalizing call inserter with
  | nil => rfl
  | cons outcome rest ih => rw [placeAll, ih, Outcome.map_place, List.foldl_cons]

theorem placeAll_append (call : Nat) (front back : List Outcome) (inserter : Inserter Placed) :
    placeAll call (front ++ back) inserter =
      placeAll (call + front.length) back (placeAll call front inserter) := by
  induction front generalizing call inserter with
  | nil => rfl
  | cons outcome front ih =>
      rw [List.cons_append, placeAll, ih, placeAll, List.length_cons]
      congr 1
      omega

theorem sublist_placeAll (call : Nat) (outcomes : List Outcome) (inserter : Inserter Placed) :
    inserter.rootList.Sublist (placeAll call outcomes inserter).rootList := by
  induction outcomes generalizing call inserter with
  | nil => exact List.Sublist.refl _
  | cons outcome rest ih => exact (outcome.sublist_place call inserter).trans (ih _ _)

end PassRun

/-- The passes of a pipeline that complete. -/
def passRuns : List PostProcessor → List Item → Inserter Item → List PassRun
  | [], _, _ => []
  | processor :: rest, input, inserter =>
      match processor.calls processor.initial input with
      | .error _ => []
      | .ok calls =>
          let run : PassRun := ⟨inserter.itemIndex, calls.map Call.outcome⟩
          let output := run.output.map Placed.item
          run :: passRuns rest output (.new output)

/-! ## Order of origins -/

namespace Origin

/-- Everything inserted at the beginning comes first, then the calls in order,
each with its insertions before the item that it emits. -/
def rank : Origin → Nat
  | .beginning _ => 0
  | .before call => 2 * call + 1
  | .emitted call => 2 * call + 2

/-- Two elements in the order of their origins; a call emits at most one item. -/
def Precedes (first second : Origin) : Prop :=
  first.rank ≤ second.rank ∧ ∀ call, first = .emitted call → second ≠ .emitted call

theorem Precedes.of_rank_lt {first second : Origin} (lower : first.rank < second.rank) :
    first.Precedes second := by
  constructor
  · exact lower.le
  · intro call isFirst isSecond
    rw [isFirst, isSecond] at lower
    exact lower.false

theorem precedes_beginning {first : Origin} (call : Nat) (lowest : first.rank = 0) :
    first.Precedes (.beginning call) := by
  constructor
  · rw [lowest]
    exact Nat.zero_le _
  · intro emitter isFirst
    simp [isFirst, rank] at lowest

theorem beginning_precedes (call : Nat) (second : Origin) :
    (Origin.beginning call).Precedes second := by
  constructor
  · exact Nat.zero_le _
  · intro emitter impossible
    cases impossible

theorem precedes_before {first : Origin} {call : Nat} (bounded : first.rank ≤ 2 * call + 1) :
    first.Precedes (.before call) := by
  constructor
  · exact bounded
  · intro emitter _ impossible
    cases impossible

end Origin

/-- Every item inserted before the current one stands behind all items emitted by
earlier calls, and directly before the item that its own call emits. -/
def InPlace (output : List Placed) : Prop :=
  ∀ front inserted back call, output = front ++ inserted :: back →
    inserted.origin = .before call →
      (∀ placed ∈ back, ∀ earlier, placed.origin = .emitted earlier → call ≤ earlier) ∧
      (∀ placed ∈ front, placed.origin ≠ .emitted call) ∧
      ∀ between current behind, back = between ++ current :: behind →
        current.origin = .emitted call → ∀ placed ∈ between, placed.origin = .before call

/-- The elements of an output in the order of their origins. -/
def InOrder (output : List Placed) : Prop :=
  output.Pairwise fun first second => first.origin.Precedes second.origin

theorem InOrder.inPlace {output : List Placed} (ordered : InOrder output) :
    InPlace output := by
  intro front inserted back call shape isBefore
  rw [InOrder, shape, List.pairwise_append, List.pairwise_cons] at ordered
  rcases ordered with ⟨_, ⟨behind, backOrdered⟩, ahead⟩
  refine ⟨?_, ?_, ?_⟩
  · intro placed member earlier isEmitted
    have ranks := (behind placed member).1
    rw [isBefore, isEmitted] at ranks
    simp only [Origin.rank] at ranks
    omega
  · intro placed member isEmitted
    have ranks := (ahead placed member inserted List.mem_cons_self).1
    rw [isBefore, isEmitted] at ranks
    simp only [Origin.rank] at ranks
    omega
  · intro between current rest splitting isEmitted placed member
    have lower := (behind placed (splitting ▸ List.mem_append_left _ member)).1
    rw [splitting, List.pairwise_append] at backOrdered
    have upper := backOrdered.2.2 placed member current List.mem_cons_self
    have upperRank := upper.1
    rw [isBefore] at lower
    rw [isEmitted] at upperRank
    cases origin : placed.origin with
    | beginning other =>
        rw [origin] at lower
        simp [Origin.rank] at lower
    | before other =>
        rw [origin] at lower upperRank
        simp only [Origin.rank] at lower upperRank
        have same : other = call := by omega
        rw [same]
    | emitted other =>
        rw [origin] at lower upperRank
        simp only [Origin.rank] at lower upperRank
        have same : other = call := by omega
        exact absurd isEmitted (upper.2 call (same ▸ origin))

/-- A list in order whose first part is what `originalStart` counts, and that
holds nothing behind `bound`. -/
structure Arranged (bound : Nat) (inserter : Inserter Placed) : Prop where
  ordered : InOrder inserter.rootList
  bounded : ∀ placed ∈ inserter.rootList, placed.origin.rank ≤ bound
  beginnings : ∃ front back, inserter.rootList = front ++ back ∧
    inserter.originalStart = front.length ∧ ∀ placed ∈ front, placed.origin.rank = 0

namespace Arranged

theorem empty (bound : Nat) (itemIndex appendedItems : Int) :
    Arranged bound ⟨[], 0, itemIndex, appendedItems⟩ := by
  constructor
  · exact List.Pairwise.nil
  · intro placed member
    cases member
  · exact ⟨[], [], rfl, rfl, by simp⟩

theorem mono {bound higher : Nat} {inserter : Inserter Placed}
    (arranged : Arranged bound inserter) (above : bound ≤ higher) : Arranged higher inserter := by
  constructor
  · exact arranged.ordered
  · intro placed member
    exact (arranged.bounded placed member).trans above
  · exact arranged.beginnings

/-- Adding an element that everything precedes keeps the arrangement. -/
theorem append {bound : Nat} {inserter : Inserter Placed} (arranged : Arranged bound inserter)
    {added : Placed} (itemIndex appendedItems : Int)
    (last : ∀ placed ∈ inserter.rootList, placed.origin.Precedes added.origin)
    (below : added.origin.rank ≤ bound) :
    Arranged bound
      ⟨inserter.rootList ++ [added], inserter.originalStart, itemIndex, appendedItems⟩ := by
  rcases arranged.beginnings with ⟨front, back, shape, start, lowest⟩
  constructor
  · rw [InOrder, List.pairwise_append]
    refine ⟨arranged.ordered, List.pairwise_singleton _ _, ?_⟩
    intro placed member other isAdded
    rw [List.mem_singleton.mp isAdded]
    exact last placed member
  · intro placed member
    rcases List.mem_append.mp member with old | isAdded
    · exact arranged.bounded placed old
    · rw [List.mem_singleton.mp isAdded]
      exact below
  · exact ⟨front, back ++ [added], by simp [shape], start, lowest⟩

theorem insert_beginning {bound : Nat} {inserter : Inserter Placed}
    (arranged : Arranged bound inserter) (call : Nat) (item : Item) :
    Arranged bound (inserter.insert ⟨.beginning call, item⟩ .beginning) := by
  rcases arranged.beginnings with ⟨front, back, shape, start, lowest⟩
  have ordered := arranged.ordered
  have inserted : insertAt inserter.rootList inserter.originalStart ⟨.beginning call, item⟩ =
      front ++ ⟨.beginning call, item⟩ :: back := by
    rw [shape, insertAt_append start]
  rw [InOrder, shape, List.pairwise_append] at ordered
  rcases ordered with ⟨frontOrdered, backOrdered, across⟩
  constructor
  · simp only [Inserter.insert, inserted, InOrder, List.pairwise_append, List.pairwise_cons]
    refine ⟨frontOrdered, ⟨?_, backOrdered⟩, ?_⟩
    · intro placed _
      exact Origin.beginning_precedes call placed.origin
    · intro placed member other isOther
      rcases List.mem_cons.mp isOther with isNew | old
      · rw [isNew]
        exact Origin.precedes_beginning call (lowest placed member)
      · exact across placed member other old
  · intro placed member
    rcases mem_insertAt.mp member with isNew | old
    · rw [isNew]
      exact Nat.zero_le _
    · exact arranged.bounded placed old
  · refine ⟨front ++ [⟨.beginning call, item⟩], back, ?_, ?_, ?_⟩
    · simp [Inserter.insert, inserted]
    · simp [Inserter.insert, start]
    · intro placed member
      rcases List.mem_append.mp member with old | isNew
      · exact lowest placed old
      · rw [List.mem_singleton.mp isNew]
        rfl

theorem insert_before {call : Nat} {inserter : Inserter Placed}
    (arranged : Arranged (2 * call + 1) inserter) (ahead : 0 ≤ inserter.lag) (item : Item) :
    Arranged (2 * call + 1) (inserter.insert ⟨.before call, item⟩ .beforeCurrentItem) := by
  have beyond : (inserter.rootList.length : Int) ≤ inserter.itemIndex := by
    rw [Inserter.lag] at ahead
    omega
  rw [Inserter.insert, insertAt_of_length_le beyond]
  apply arranged.append
  · intro placed member
    exact Origin.precedes_before (arranged.bounded placed member)
  · exact Nat.le_refl _

/-- With the index at or behind the end of the list, all insertions of a call keep
the arrangement. -/
theorem insertAll {call : Nat} {inserter : Inserter Placed}
    (arranged : Arranged (2 * call + 1) inserter) (outcome : Outcome)
    (ahead : outcome.InsertsBefore → 0 ≤ inserter.lag) :
    Arranged (2 * call + 1) (inserter.insertAll (outcome.marked call)) := by
  rw [Outcome.marked]
  rw [Outcome.InsertsBefore] at ahead
  generalize outcome.insertions = insertions at ahead ⊢
  induction insertions generalizing inserter with
  | nil => exact arranged
  | cons insertion rest ih =>
      rw [List.map_cons, Inserter.insertAll_cons]
      apply ih
      · rcases insertion with ⟨item, position⟩
        cases position with
        | beginning => exact arranged.insert_beginning call item
        | beforeCurrentItem => exact arranged.insert_before (ahead ⟨_, List.mem_cons_self, rfl⟩) item
      · rintro ⟨other, member, isBefore⟩
        rw [Inserter.lag_insert]
        exact ahead ⟨other, List.mem_cons_of_mem _ member, isBefore⟩

/-- The driver's part of a call keeps the arrangement. -/
theorem place_of_inserted {call : Nat} {outcome : Outcome} {inserter : Inserter Placed}
    (arranged : Arranged (2 * call + 1) (inserter.insertAll (outcome.marked call))) :
    Arranged (2 * (call + 1)) (outcome.place call inserter) := by
  rw [Outcome.place]
  have raised := arranged.mono (show 2 * call + 1 ≤ 2 * (call + 1) by omega)
  cases outcome.iterator.isValid with
  | false => exact ⟨raised.ordered, raised.bounded, raised.beginnings⟩
  | true =>
      apply raised.append
      · intro placed member
        apply Origin.Precedes.of_rank_lt
        exact Nat.lt_of_le_of_lt (arranged.bounded placed member) (by simp [Origin.rank])
      · simp only [Origin.rank]
        omega

theorem place {call : Nat} {inserter : Inserter Placed} (arranged : Arranged (2 * call) inserter)
    (outcome : Outcome) (ahead : outcome.InsertsBefore → 0 ≤ inserter.lag) :
    Arranged (2 * (call + 1)) (outcome.place call inserter) :=
  place_of_inserted ((arranged.mono (Nat.le_succ _)).insertAll outcome ahead)

end Arranged

namespace PassRun

/-- Every insertion before the current item is asked for in the first call, or
after a call that left nothing to emit. -/
def InsertsInTime (outcomes : List Outcome) : Prop :=
  ∀ earlier outcome later, outcomes = earlier ++ outcome :: later → outcome.InsertsBefore →
    earlier = [] ∨ ∃ dropped ∈ earlier, dropped.iterator.isValid = false

theorem arranged_placeAll {call : Nat} {outcomes : List Outcome} {inserter : Inserter Placed}
    (arranged : Arranged (2 * call) inserter) (appended : inserter.appendedItems = 0)
    (floor : -1 ≤ inserter.lag)
    (inTime : ∀ earlier outcome later, outcomes = earlier ++ outcome :: later →
      outcome.InsertsBefore →
      0 ≤ inserter.lag ∨ ∃ dropped ∈ earlier, dropped.iterator.isValid = false) :
    InOrder (placeAll call outcomes inserter).rootList := by
  induction outcomes generalizing call inserter with
  | nil => exact arranged.ordered
  | cons outcome rest ih =>
      have lag := outcome.lag_place call appended
      apply ih
      · apply arranged.place
        intro inserts
        rcases inTime [] outcome rest rfl inserts with ahead | ⟨dropped, impossible, _⟩
        · exact ahead
        · cases impossible
      · rfl
      · rw [lag]
        split <;> omega
      · intro earlier other later shape inserts
        rcases inTime (outcome :: earlier) other later (by rw [shape]; rfl) inserts with
          ahead | ⟨dropped, member, invalid⟩
        · left
          rw [lag]
          split <;> omega
        · rcases List.mem_cons.mp member with isFirst | old
          · left
            rw [lag, ← isFirst, invalid]
            simp only [Bool.false_eq_true, if_false]
            omega
          · exact .inr ⟨dropped, old, invalid⟩

/-- A call that only inserts before its own item adds nothing else. -/
theorem insertAll_before (call : Nat) {outcome : Outcome}
    (uniform : ∀ insertion ∈ outcome.insertions, insertion.2 = .beforeCurrentItem)
    (inserter : Inserter Placed) :
    (inserter.insertAll (outcome.marked call)).originalStart = inserter.originalStart ∧
      ∀ placed ∈ (inserter.insertAll (outcome.marked call)).rootList,
        placed ∈ inserter.rootList ∨ placed.origin = .before call := by
  rw [Outcome.marked]
  generalize outcome.insertions = insertions at uniform ⊢
  induction insertions generalizing inserter with
  | nil =>
      constructor
      · rfl
      · intro placed member
        exact .inl member
  | cons insertion rest ih =>
      rcases insertion with ⟨item, position⟩
      have isBefore : position = .beforeCurrentItem := uniform _ List.mem_cons_self
      subst isBefore
      rw [List.map_cons, Inserter.insertAll_cons]
      have inserted := ih (inserter.insert (⟨.before call, item⟩ : Placed) .beforeCurrentItem)
        (fun other member => uniform other (List.mem_cons_of_mem _ member))
      constructor
      · exact inserted.1
      · intro placed member
        rcases inserted.2 placed member with old | isNew
        · rcases mem_insertAt.mp old with isThis | older
          · right
            rw [isThis]
          · exact .inl older
        · exact .inr isNew

/-- In a call on an empty list the insertions are arranged wherever the index
points, because they all go to one kind of place. -/
theorem arranged_first {outcome : Outcome} (uniform : outcome.Uniform) (itemIndex : Int) :
    Arranged (2 * 0 + 1) (Inserter.insertAll ⟨[], 0, itemIndex, 0⟩ (outcome.marked 0)) := by
  rcases uniform with ⟨position, uniform⟩
  cases position with
  | beginning =>
      apply (Arranged.empty (2 * 0 + 1) itemIndex 0).insertAll
      rintro ⟨insertion, member, isBefore⟩
      rw [uniform insertion member] at isBefore
      cases isBefore
  | beforeCurrentItem =>
      have inserted := insertAll_before 0 uniform ⟨[], 0, itemIndex, 0⟩
      rcases inserted with ⟨start, origins⟩
      have allBefore : ∀ placed ∈
          (Inserter.insertAll ⟨[], 0, itemIndex, 0⟩ (outcome.marked 0)).rootList,
          placed.origin = .before 0 := by
        intro placed member
        rcases origins placed member with impossible | isBefore
        · cases impossible
        · exact isBefore
      constructor
      · apply List.pairwise_of_forall_mem_list
        intro first isFirst second isSecond
        rw [allBefore first isFirst, allBefore second isSecond]
        exact Origin.precedes_before (Nat.le_refl _)
      · intro placed member
        rw [allBefore placed member]
        exact Nat.le_refl _
      · exact ⟨[], _, rfl, start, by simp⟩

/-- The first pass starts with its index before the list. -/
def IsFirst (run : PassRun) : Prop :=
  run.itemIndex = -1

theorem inOrder_of_insertsInTime {run : PassRun} (isFirst : run.IsFirst)
    (uniform : ∀ outcome ∈ run.outcomes, outcome.Uniform)
    (inTime : InsertsInTime run.outcomes) : InOrder run.output := by
  rcases run with ⟨itemIndex, outcomes⟩
  cases isFirst
  cases outcomes with
  | nil => exact List.Pairwise.nil
  | cons outcome rest =>
      have arranged := Arranged.place_of_inserted
        (arranged_first (uniform outcome List.mem_cons_self) (-1))
      have lag := outcome.lag_place 0 (show (⟨[], 0, -1, 0⟩ : Inserter Placed).appendedItems = 0
        from rfl)
      apply arranged_placeAll arranged rfl
      · rw [lag]
        split <;> decide
      · intro earlier other later shape inserts
        rcases inTime (outcome :: earlier) other later (by simp only at shape ⊢; rw [shape]; rfl)
          inserts with impossible | ⟨dropped, member, invalid⟩
        · cases impossible
        · rcases List.mem_cons.mp member with isHead | old
          · left
            rw [lag, ← isHead, invalid]
            decide
          · exact .inr ⟨dropped, old, invalid⟩

/-- A pass whose index starts at or behind the end of the empty list appends. -/
theorem inOrder_of_nonneg {run : PassRun} (ahead : 0 ≤ run.itemIndex) :
    InOrder run.output := by
  apply arranged_placeAll (Arranged.empty (2 * 0) run.itemIndex 0) rfl
  · simp only [Inserter.lag, List.length_nil]
    omega
  · intro earlier outcome later _ _
    left
    simp only [Inserter.lag, List.length_nil]
    omega

/-! ### Insertions that come too late -/

/-- The beginning of the list is counted within the list. -/
def StartsWithin (inserter : Inserter Placed) : Prop :=
  0 ≤ inserter.originalStart ∧ inserter.originalStart ≤ inserter.rootList.length

theorem StartsWithin.insertAll {inserter : Inserter Placed} (within : StartsWithin inserter)
    (insertions : List (Placed × Position)) : StartsWithin (inserter.insertAll insertions) := by
  induction insertions generalizing inserter with
  | nil => exact within
  | cons insertion rest ih =>
      rw [Inserter.insertAll_cons]
      apply ih
      rcases within with ⟨nonneg, within⟩
      cases insertion.2 <;>
        · constructor <;> simp only [Inserter.insert, length_insertAt] <;> omega

/-- The index points at the last element of the list. -/
def PointsAtLast (last : Placed) (inserter : Inserter Placed) : Prop :=
  ∃ front, inserter.rootList = front ++ [last] ∧ inserter.itemIndex = front.length ∧
    0 ≤ inserter.originalStart ∧ inserter.originalStart ≤ front.length

theorem PointsAtLast.insert {last : Placed} {inserter : Inserter Placed}
    (points : PointsAtLast last inserter) (placed : Placed) (position : Position) :
    PointsAtLast last (inserter.insert placed position) := by
  rcases points with ⟨front, shape, index, nonneg, within⟩
  cases position with
  | beginning =>
      refine ⟨insertAt front inserter.originalStart placed, ?_, ?_, ?_, ?_⟩
      · have inside : inserter.originalStart.toNat ≤ front.length := by omega
        simp [Inserter.insert, shape, insertAt, List.take_append_of_le_length inside,
          List.drop_append_of_le_length inside]
      all_goals simp only [Inserter.insert, length_insertAt]; omega
  | beforeCurrentItem =>
      refine ⟨front ++ [placed], ?_, ?_, ?_, ?_⟩
      · simp [Inserter.insert, shape, insertAt_append index]
      · simp [Inserter.insert, index]
      · exact nonneg
      · simp only [Inserter.insert, List.length_append, List.length_singleton]
        omega

/-- What such a list takes before the current item overtakes its last element. -/
theorem PointsAtLast.overtakes {last : Placed} {inserter : Inserter Placed}
    (points : PointsAtLast last inserter) (placed : Placed) :
    [placed, last].Sublist (inserter.insert placed .beforeCurrentItem).rootList := by
  rcases points with ⟨front, shape, index, _⟩
  rw [Inserter.insert, shape, insertAt_append index]
  exact List.sublist_append_right _ _

theorem PointsAtLast.insertAll_overtakes (call : Nat) {last : Placed} {inserter : Inserter Placed}
    (points : PointsAtLast last inserter) {outcome : Outcome} (inserts : outcome.InsertsBefore) :
    ∃ item, [⟨.before call, item⟩, last].Sublist
      (inserter.insertAll (outcome.marked call)).rootList := by
  rw [Outcome.marked]
  rw [Outcome.InsertsBefore] at inserts
  generalize outcome.insertions = insertions at inserts ⊢
  induction insertions generalizing inserter with
  | nil =>
      rcases inserts with ⟨insertion, impossible, _⟩
      cases impossible
  | cons insertion rest ih =>
      rcases insertion with ⟨item, position⟩
      rw [List.map_cons, Inserter.insertAll_cons]
      cases position with
      | beforeCurrentItem =>
          refine ⟨item, (points.overtakes ⟨.before call, item⟩).trans ?_⟩
          exact Inserter.sublist_insertAll _ _
      | beginning =>
          apply ih (points.insert _ _)
          rcases inserts with ⟨other, member, isBefore⟩
          rcases List.mem_cons.mp member with isHead | inRest
          · rw [isHead] at isBefore
            cases isBefore
          · exact ⟨other, inRest, isBefore⟩

/-- As long as the first pass drops no item, its index points at the item that was
emitted last. -/
theorem pointsAtLast_placeAll (call : Nat) {outcomes : List Outcome} {inserter : Inserter Placed}
    (nonempty : outcomes ≠ []) (appended : inserter.appendedItems = 0)
    (lag : inserter.lag = -1) (within : StartsWithin inserter)
    (kept : ∀ outcome ∈ outcomes, outcome.iterator.isValid = true) :
    ∃ item, PointsAtLast ⟨.emitted (call + outcomes.length - 1), item⟩
      (placeAll call outcomes inserter) := by
  induction outcomes generalizing call inserter with
  | nil => exact absurd rfl nonempty
  | cons outcome rest ih =>
      have isValid := kept outcome List.mem_cons_self
      have nextLag : (outcome.place call inserter).lag = -1 := by
        rw [outcome.lag_place call appended, isValid, lag]
        rfl
      have inserted := within.insertAll (outcome.marked call)
      have shape : (outcome.place call inserter).rootList =
          (inserter.insertAll (outcome.marked call)).rootList ++
            [⟨.emitted call, outcome.iterator⟩] := by
        simp [Outcome.place, isValid, Inserter.append, Inserter.next]
      have start : (outcome.place call inserter).originalStart =
          (inserter.insertAll (outcome.marked call)).originalStart := by
        simp [Outcome.place, isValid, Inserter.append, Inserter.next]
      rw [placeAll]
      cases rest with
      | nil =>
          refine ⟨outcome.iterator, (inserter.insertAll (outcome.marked call)).rootList,
            shape, ?_, ?_, ?_⟩
          · rw [Inserter.lag, shape] at nextLag
            simp only [List.length_append, List.length_singleton] at nextLag
            simp only [placeAll]
            omega
          · rw [placeAll, start]
            exact inserted.1
          · rw [placeAll, start]
            exact inserted.2
      | cons following rest =>
          have later := ih (call + 1) (by simp) rfl nextLag
            (by
              rw [StartsWithin, start, shape, List.length_append]
              exact ⟨inserted.1, inserted.2.trans (by simp)⟩)
            (fun other member => kept other (List.mem_cons_of_mem _ member))
          rcases later with ⟨item, points⟩
          refine ⟨item, ?_⟩
          have same : call + (outcome :: following :: rest).length - 1 =
              call + 1 + (following :: rest).length - 1 := by
            simp only [List.length_cons]
            omega
          rw [same]
          exact points

theorem insertsInTime_of_inPlace {run : PassRun} (isFirst : run.IsFirst)
    (inPlace : InPlace run.output) : InsertsInTime run.outcomes := by
  rcases run with ⟨itemIndex, outcomes⟩
  cases isFirst
  intro earlier outcome later shape inserts
  by_contra late
  rcases not_or.mp late with ⟨nonempty, keptAll⟩
  have kept : ∀ dropped ∈ earlier, dropped.iterator.isValid = true := by
    intro dropped member
    cases isValid : dropped.iterator.isValid with
    | true => rfl
    | false => exact absurd ⟨dropped, member, isValid⟩ keptAll
  have reached := pointsAtLast_placeAll 0 nonempty
    (show (⟨[], 0, -1, 0⟩ : Inserter Placed).appendedItems = 0 from rfl) rfl
    ⟨Int.le_refl 0, Int.le_refl 0⟩ kept
  rcases reached with ⟨lastItem, points⟩
  rcases points.insertAll_overtakes (0 + earlier.length) inserts with ⟨item, overtakes⟩
  have overtaken : [⟨.before (0 + earlier.length), item⟩,
      ⟨.emitted (0 + earlier.length - 1), lastItem⟩].Sublist
        (output ⟨-1, outcomes⟩) := by
    simp only at shape
    rw [output, shape, placeAll_append, placeAll]
    refine overtakes.trans (List.Sublist.trans ?_ (sublist_placeAll _ _ _))
    rw [Outcome.place]
    split
    · exact List.sublist_append_left _ _
    · exact List.Sublist.refl _
  rcases List.cons_sublist_iff.mp overtaken with ⟨front, back, splitting, member, behind⟩
  rcases List.append_of_mem member with ⟨ahead, between, frontShape⟩
  have outputShape : output ⟨-1, outcomes⟩ =
      ahead ++ ⟨.before (0 + earlier.length), item⟩ :: (between ++ back) := by
    rw [splitting, frontShape, List.append_assoc, List.cons_append]
  have notEarlier := (inPlace ahead _ _ _ outputShape rfl).1
    ⟨.emitted (0 + earlier.length - 1), lastItem⟩
    (List.mem_append_right _ (List.singleton_sublist.mp behind)) _ rfl
  have positive := List.length_pos_iff.mpr nonempty
  omega

end PassRun

end Hooq

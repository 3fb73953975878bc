import Hooq.Script.InsertionOrder
import Hooq.Script.Recording

/-!
# The frame survives the passes that look ahead

Four post-processors consume items behind the one they are called for.  Each is
shown to keep the frame of its input and to hand on a list of the shape that the
passes behind it rely on.
-/

namespace Hooq

open Library.Spacing

/-- Items that only name methods of scripts without variables. -/
abbrev AreScripted (items : List Item) : Prop :=
  ∀ item ∈ items, item.IsScripted

theorem emitted_of_scripted {outcome : Outcome} (scripted : outcome.iterator.IsScripted) :
    outcome.emitted = [outcome.iterator] := by
  rw [Outcome.emitted, scripted.isValid, if_pos rfl]

theorem frame_insertAt {item : Item} (notFrame : item.isFrame = false) (items : List Item)
    (index : Int) : frame (insertAt items index item) = frame items :=
  filter_insertAt_of_rejected notFrame

theorem IsGuarded.insertAt {items back : List Item} {item : Item}
    (guarded : IsGuarded (items ++ back)) (notKey : item.isKey = false)
    (notFrame : item.isFrame = false) (index : Int) :
    IsGuarded (insertAt items index item ++ back) := by
  rw [← List.take_append_drop index.toNat items, List.append_assoc] at guarded
  rw [Hooq.insertAt, List.append_assoc, List.cons_append]
  apply Guarded.insert guarded
  · simp [notKey]
  · simp [notFrame]

/-- How far a pass has come that is to leave `image` of the frame of its input. -/
structure Kept (image : List Item → List Item) (expected : List Item)
    (inserter : Inserter Item) (remaining : List Item) : Prop where
  frame : frame inserter.rootList ++ image (frame remaining) = expected
  scripted : AreScripted (inserter.rootList ++ remaining)

namespace Kept

variable {image : List Item → List Item} {expected : List Item}

theorem start {input : List Item} (scripted : AreScripted input) (list : List Item) :
    Kept image (image (Hooq.frame input)) (Inserter.new list).clear input :=
  ⟨rfl, scripted⟩

theorem frame_final {inserter : Inserter Item} (kept : Kept id expected inserter []) :
    Hooq.frame inserter.rootList = expected := by
  rw [← kept.frame]
  exact (List.append_nil _).symm

theorem scripted_final {inserter : Inserter Item} (kept : Kept image expected inserter []) :
    AreScripted inserter.rootList := by
  intro item member
  exact kept.scripted item (List.mem_append_left _ member)

theorem scripted_remaining {inserter : Inserter Item} {remaining : List Item}
    (kept : Kept image expected inserter remaining) : AreScripted remaining := by
  intro item member
  exact kept.scripted item (List.mem_append_right _ member)

end Kept

/-- Inserting items outside the frame leaves the pass where it is. -/
theorem Kept.insertAll {image : List Item → List Item} {expected : List Item}
    {inserter : Inserter Item} {remaining : List Item}
    (kept : Kept image expected inserter remaining) {insertions : List (Item × Position)}
    (inserts : ∀ insertion ∈ insertions,
      insertion.1.IsScripted ∧ insertion.1.isFrame = false) :
    Kept image expected (inserter.insertAll insertions) remaining := by
  constructor
  · rw [← kept.frame]
    congr 1
    apply Inserter.insertAll_keeps (fun list => Hooq.frame list = Hooq.frame inserter.rootList)
    · intro insertion member list index same
      rw [frame_insertAt (inserts insertion member).2, same]
    · rfl
  · apply Inserter.insertAll_keeps (fun list => AreScripted (list ++ remaining))
    · intro insertion member list index scripted other isOther
      rcases List.mem_append.mp isOther with old | later
      · rcases mem_insertAt.mp old with isNew | older
        · rw [isNew]
          exact (inserts insertion member).1
        · exact scripted other (List.mem_append_left _ older)
      · exact scripted other (List.mem_append_right _ later)
    · exact kept.scripted

/-- A call that keeps the frame of what it consumes keeps the pass on its way. -/
theorem Kept.perform {expected : List Item} {inserter : Inserter Item} {item : Item}
    {remaining : List Item} (kept : Kept id expected inserter (item :: remaining))
    {outcome : Outcome}
    (inserts : ∀ insertion ∈ outcome.insertions,
      insertion.1.IsScripted ∧ insertion.1.isFrame = false)
    (framed : Hooq.frame (outcome.emitted ++ outcome.rest) = Hooq.frame (item :: remaining))
    (members : ∀ other ∈ outcome.emitted ++ outcome.rest, other ∈ item :: remaining) :
    Kept id expected (outcome.perform inserter) outcome.rest := by
  have inserted := kept.insertAll inserts
  constructor
  · rw [outcome.rootList_perform, ← inserted.frame, frame_append, List.append_assoc]
    congr 1
    exact (frame_append _ _).symm.trans framed
  · rw [outcome.rootList_perform, List.append_assoc]
    intro other member
    rcases List.mem_append.mp member with old | later
    · exact inserted.scripted other (List.mem_append_left _ old)
    · exact inserted.scripted_remaining other (members other later)

/-- A pass that calls with no insertions leaves the list alone before emitting. -/
theorem rootList_perform_of_no_insertions {outcome : Outcome} (nothing : outcome.insertions = [])
    (inserter : Inserter Item) :
    (outcome.perform inserter).rootList = inserter.rootList ++ outcome.emitted := by
  rw [outcome.rootList_perform, nothing]
  rfl

/-! ## FilterQtInternals -/

namespace FilterQtInternals

def isInternal (item : Item) : Bool :=
  item.targetClass ∈ internalClasses

/-- On a recording a call drops its item, or leaves everything as it is. -/
theorem process_cases {item : Item} {input : List Item} {outcome : Outcome}
    (processed : process item input = .ok outcome) (scripted : AreScripted (item :: input)) :
    (isInternal item = true ∧ outcome.emitted = [] ∨
      isInternal item = false ∧ outcome.emitted = [item]) ∧ outcome.rest = input := by
  have noMsec : QString.ofString "msec" ∉ frameMethods ++ passingMethods := by decide
  have isScripted := scripted item List.mem_cons_self
  rcases process_ok processed with ⟨external, rfl⟩ | ⟨internal, first, rest, rfl, rfl⟩
  · constructor
    · right
      exact ⟨decide_eq_false external, emitted_of_scripted isScripted⟩
    · rfl
  · have other : first.method ≠ QString.ofString "msec" := by
      intro isMsec
      have firstScripted := scripted first (List.mem_cons_of_mem _ List.mem_cons_self)
      rw [Item.IsScripted, isMsec] at firstScripted
      exact noMsec firstScripted
    constructor
    · left
      exact ⟨decide_eq_true internal, rfl⟩
    · exact if_neg other

end FilterQtInternals

/-- Sleeps are called on no object. -/
def SleepsUnclassed (items : List Item) : Prop :=
  ∀ item ∈ items, item.isSleep = true → item.targetClass = []

theorem SleepsUnclassed.isLoud {items : List Item} (unclassed : SleepsUnclassed items)
    {item : Item} (member : item ∈ items) (internal : FilterQtInternals.isInternal item = true) :
    ¬item.isSleep = true := by
  intro isSleep
  have isClass := of_decide_eq_true internal
  rw [unclassed item member isSleep] at isClass
  exact absurd isClass (by decide)

/-- The frame items on objects of the application itself. -/
def external (items : List Item) : List Item :=
  items.filter fun item => !FilterQtInternals.isInternal item

theorem filterQtInternals_step {item : Item} {remaining : List Item} {outcome : Outcome}
    (processed : FilterQtInternals.process item remaining = .ok outcome) {expected : List Item}
    {inserter : Inserter Item} (kept : Kept external expected inserter (item :: remaining))
    (spaced : IsSpaced (inserter.rootList ++ item :: remaining))
    (unclassed : SleepsUnclassed (item :: remaining)) :
    Kept external expected (outcome.perform inserter) outcome.rest ∧
      IsSpaced ((outcome.perform inserter).rootList ++ outcome.rest) ∧
      SleepsUnclassed outcome.rest := by
  have shape := FilterQtInternals.process_cases processed kept.scripted_remaining
  rcases shape with ⟨effect, rest⟩
  have unclassedRest : SleepsUnclassed remaining := fun other member =>
    unclassed other (List.mem_cons_of_mem _ member)
  have performed := rootList_perform_of_no_insertions
    (FilterQtInternals.process_insertions processed) inserter
  rcases effect with ⟨internal, emitted⟩ | ⟨isExternal, emitted⟩
  · rw [emitted, List.append_nil] at performed
    rw [rest, performed]
    refine ⟨⟨?_, ?_⟩, ?_, unclassedRest⟩
    · rw [performed, ← kept.frame]
      simp only [frame, external, List.filter_cons]
      split <;> simp [internal]
    · rw [performed]
      intro other member
      apply kept.scripted
      rcases List.mem_append.mp member with old | later
      · exact List.mem_append_left _ old
      · exact List.mem_append_right _ (List.mem_cons_of_mem _ later)
    · exact Spaced.remove spaced (unclassed.isLoud List.mem_cons_self internal)
  · rw [emitted] at performed
    rw [rest, performed]
    refine ⟨⟨?_, ?_⟩, ?_, unclassedRest⟩
    · rw [performed, ← kept.frame]
      simp only [frame, external, List.filter_cons, List.filter_append]
      split <;> simp [isExternal]
    · rw [performed, List.append_assoc]
      exact kept.scripted
    · rw [List.append_assoc]
      exact spaced

theorem filterQtInternals_run {input list : List Item} {final : Inserter Item}
    (completes : filterQtInternals.run () input (Inserter.new list).clear = .ok final)
    (scripted : AreScripted input) (spaced : IsSpaced input) (unclassed : SleepsUnclassed input) :
    frame final.rootList = external (frame input) ∧
      AreScripted final.rootList ∧ IsSpaced final.rootList := by
  have start : Kept external (external (frame input)) (Inserter.new list).clear input ∧
      IsSpaced ((Inserter.new list).clear.rootList ++ input) ∧ SleepsUnclassed input :=
    ⟨Kept.start scripted list, spaced, unclassed⟩
  have invariant := filterQtInternals.run_invariant
    (fun _ inserter remaining => Kept external (external (frame input)) inserter remaining ∧
      IsSpaced (inserter.rootList ++ remaining) ∧ SleepsUnclassed remaining)
    (by
      rintro state inserter item remaining next outcome processed ⟨kept, spaced, unclassed⟩
      exact filterQtInternals_step (ofProcess_ok processed) kept spaced unclassed)
    start completes
  rcases invariant with ⟨_, kept, spaced, _⟩
  have framed := kept.frame
  rw [List.append_nil] at spaced
  rw [frame_nil, external, List.filter_nil, List.append_nil] at framed
  exact ⟨framed, kept.scripted_final, spaced⟩

/-! ## SkipMouseMovements -/

theorem isSleep_of_move {item : Item} (isMove : item.method = QString.ofString "moveMouse") :
    ¬item.isSleep = true := by
  rw [Item.isSleep, isMove]
  decide

theorem IsSpaced.isSleep_of_cons_cons {item msec : Item} {rest : List Item}
    (spaced : IsSpaced (item :: msec :: rest))
    (isMove : item.method = QString.ofString "moveMouse") : msec.isSleep = true := by
  have quiet := Spaced.quiet_of_cons_cons spaced (isSleep_of_move isMove)
  exact quiet

theorem isFrame_of_move {item : Item} (isMove : item.method = QString.ofString "moveMouse") :
    item.isFrame = false := by
  apply Item.isFrame_of_passing
  rw [isMove]
  decide

/-- A call drops movements, each with the sleep behind it. -/
theorem StripMouseMovements.process_shape {item : Item} {input : List Item} {outcome : Outcome}
    (processed : process item input = .ok outcome) (scripted : AreScripted (item :: input)) :
    frame (outcome.emitted ++ outcome.rest) = frame (item :: input) ∧
      (∀ other ∈ outcome.emitted ++ outcome.rest, other ∈ item :: input) ∧
      ∀ front, IsSpaced (front ++ item :: input) →
        IsSpaced (front ++ (outcome.emitted ++ outcome.rest)) := by
  fun_induction process item input with
  | case1 item isMove =>
      cases processed
      refine ⟨?_, ?_, ?_⟩
      · exact (frame_cons_of_not (isFrame_of_move isMove) []).symm
      · intro other member
        cases member
      · intro front spaced
        exact Spaced.remove spaced (isSleep_of_move isMove)
  | case2 | case4 => cases processed
  | case3 item isMove msec following rest isSleep ih =>
      have further := ih processed (fun other member =>
        scripted other (List.mem_cons_of_mem _ (List.mem_cons_of_mem _ member)))
      rcases further with ⟨framed, members, spacing⟩
      refine ⟨?_, ?_, ?_⟩
      · rw [framed, frame_cons_of_not (isFrame_of_move isMove),
          frame_cons_of_not (Item.isFrame_of_isSleep (decide_eq_true isSleep))]
      · intro other member
        exact List.mem_cons_of_mem _ (List.mem_cons_of_mem _ (members other member))
      · intro front spaced
        exact spacing front (Spaced.remove_pair spaced (isSleep_of_move isMove))
  | case5 input item notMove =>
      cases processed
      have emitted : (Outcome.unchanged item input).emitted = [item] :=
        emitted_of_scripted (scripted item List.mem_cons_self)
      rw [emitted]
      refine ⟨rfl, ?_, ?_⟩
      · intro other member
        exact member
      · intro front spaced
        exact spaced

theorem stripMouseMovements_step {item : Item} {remaining : List Item} {outcome : Outcome}
    (processed : StripMouseMovements.process item remaining = .ok outcome)
    {expected : List Item} {inserter : Inserter Item}
    (kept : Kept id expected inserter (item :: remaining))
    (spaced : IsSpaced (inserter.rootList ++ item :: remaining)) :
    Kept id expected (outcome.perform inserter) outcome.rest ∧
      IsSpaced ((outcome.perform inserter).rootList ++ outcome.rest) := by
  have shape := StripMouseMovements.process_shape processed kept.scripted_remaining
  rcases shape with ⟨framed, members, spacing⟩
  have performed := rootList_perform_of_no_insertions
    (StripMouseMovements.process_insertions processed) inserter
  refine ⟨kept.perform ?_ framed members, ?_⟩
  · rw [StripMouseMovements.process_insertions processed]
    intro insertion member
    cases member
  · rw [performed, List.append_assoc]
    exact spacing _ spaced

theorem stripMouseMovements_run {input list : List Item} {final : Inserter Item}
    (completes : stripMouseMovements.run () input (Inserter.new list).clear = .ok final)
    (scripted : AreScripted input) (spaced : IsSpaced input) :
    frame final.rootList = frame input ∧ AreScripted final.rootList ∧
      IsSpaced final.rootList := by
  have start : Kept id (id (frame input)) (Inserter.new list).clear input ∧
      IsSpaced ((Inserter.new list).clear.rootList ++ input) :=
    ⟨Kept.start scripted list, spaced⟩
  have invariant := stripMouseMovements.run_invariant
    (fun _ inserter remaining => Kept id (id (frame input)) inserter remaining ∧
      IsSpaced (inserter.rootList ++ remaining))
    (by
      rintro state inserter item remaining next outcome processed ⟨kept, spaced⟩
      exact stripMouseMovements_step (ofProcess_ok processed) kept spaced)
    start completes
  rcases invariant with ⟨_, kept, spaced⟩
  rw [List.append_nil] at spaced
  exact ⟨kept.frame_final, kept.scripted_final, spaced⟩

/-! ## SimplifyMouseMovements -/

/-- The loop stops at a sleep, or at the last movement of the list. -/
theorem SimplifyMouseMovements.collect_shape (target : Target) (iterator : Item)
    (parameters : QVariantMap) (duration : Int32) (input : List Item)
    (isMove : iterator.method = QString.ofString "moveMouse")
    (spaced : IsSpaced (iterator :: input)) :
    let run := collect target iterator parameters duration input
    run.iterator.isFrame = false ∧ frame run.rest = frame input ∧
      IsSpaced (run.iterator :: run.rest) ∧
      ∀ other ∈ run.iterator :: run.rest, other ∈ iterator :: input := by
  fun_induction collect target iterator parameters duration input with
  | case1 iterator =>
      refine ⟨isFrame_of_move isMove, rfl, spaced, ?_⟩
      intro other member
      exact member
  | case2 iterator parameters duration msec =>
      have notFrame := Item.isFrame_of_isSleep (spaced.isSleep_of_cons_cons isMove)
      refine ⟨notFrame, (frame_cons_of_not notFrame []).symm, List.isChain_singleton _, ?_⟩
      intro other member
      exact List.mem_cons_of_mem _ member
  | case3 iterator parameters duration msec following rest =>
      have notFrame := Item.isFrame_of_isSleep (spaced.isSleep_of_cons_cons isMove)
      refine ⟨notFrame, (frame_cons_of_not notFrame _).symm, List.IsChain.tail spaced, ?_⟩
      intro other member
      exact List.mem_cons_of_mem _ member
  | case4 iterator parameters duration msec following rest total continues ih =>
      have sleeps := spaced.isSleep_of_cons_cons isMove
      have followingMoves : following.method = QString.ofString "moveMouse" := by
        by_contra other
        exact continues (.inl other)
      rcases ih followingMoves (List.IsChain.tail (List.IsChain.tail spaced)) with
        ⟨notFrame, framed, further, members⟩
      refine ⟨notFrame, ?_, further, ?_⟩
      · rw [framed, frame_cons_of_not (Item.isFrame_of_isSleep sleeps),
          frame_cons_of_not (isFrame_of_move followingMoves)]
      · intro other member
        exact List.mem_cons_of_mem _ (List.mem_cons_of_mem _ (members other member))

theorem SimplifyMouseMovements.isScripted_simplified (item : Item) (run : Run) :
    (simplified item run).IsScripted ∧ (simplified item run).isKey = false ∧
      (simplified item run).isFrame = false := by
  have isMove : (simplified item run).method = QString.ofString "moveMouse" := rfl
  refine ⟨?_, ?_, isFrame_of_move isMove⟩
  · rw [Item.IsScripted, isMove]
    decide
  · rw [Item.isKey, SimplifyStrings.isPress, SimplifyStrings.isRelease, isMove]
    decide

theorem simplifyMouseMovements_step {item : Item} {remaining : List Item} {expected : List Item}
    {inserter : Inserter Item} (kept : Kept id expected inserter (item :: remaining))
    (guarded : IsGuarded (inserter.rootList ++ item :: remaining))
    (spaced : IsSpaced (item :: remaining)) :
    let outcome := SimplifyMouseMovements.process item remaining
    Kept id expected (outcome.perform inserter) outcome.rest ∧
      IsGuarded ((outcome.perform inserter).rootList ++ outcome.rest) ∧
      IsSpaced outcome.rest := by
  intro outcome
  by_cases isMove : item.method = QString.ofString "moveMouse"
  · have process : outcome =
        let run := SimplifyMouseMovements.collect item.target item item.parameters.toMap 0 remaining
        ⟨run.iterator, run.rest,
          [(SimplifyMouseMovements.simplified item run, .beforeCurrentItem)]⟩ := by
      simp only [outcome, SimplifyMouseMovements.process, if_pos isMove]
    have shape := SimplifyMouseMovements.collect_shape item.target item item.parameters.toMap 0
      remaining isMove spaced
    generalize SimplifyMouseMovements.collect item.target item item.parameters.toMap 0 remaining =
      run at process shape
    rcases shape with ⟨notFrame, framed, further, members⟩
    rcases SimplifyMouseMovements.isScripted_simplified item run with
      ⟨newScripted, newNotKey, newNotFrame⟩
    have emitted : outcome.emitted = [run.iterator] := by
      rw [process]
      exact emitted_of_scripted
        (kept.scripted_remaining run.iterator (members _ List.mem_cons_self))
    have rest : outcome.rest = run.rest := by rw [process]
    refine ⟨kept.perform ?_ ?_ ?_, ?_, ?_⟩
    · rw [process]
      intro insertion member
      rw [List.mem_singleton.mp member]
      exact ⟨newScripted, newNotFrame⟩
    · rw [emitted, rest, List.singleton_append, frame_cons_of_not notFrame, framed,
        frame_cons_of_not (isFrame_of_move isMove)]
    · rw [emitted, rest]
      exact members
    · rw [outcome.rootList_perform, emitted, rest, List.append_assoc, List.singleton_append]
      have placed : IsGuarded ((inserter.insertAll outcome.insertions).rootList ++
          item :: remaining) := by
        rw [process]
        exact guarded.insertAt newNotKey newNotFrame _
      apply Guarded.replace placed (IsSpaced.isGuarded further)
      intro first isFirst
      cases isFirst
      simp [notFrame]
    · rw [rest]
      exact List.IsChain.tail further
  · have process : outcome = .unchanged item remaining := by
      simp only [outcome, SimplifyMouseMovements.process, if_neg isMove]
    have emitted : outcome.emitted = [item] := by
      rw [process]
      exact emitted_of_scripted (kept.scripted_remaining item List.mem_cons_self)
    have rest : outcome.rest = remaining := by
      rw [process]
      rfl
    refine ⟨kept.perform ?_ ?_ ?_, ?_, ?_⟩
    · rw [process]
      intro insertion member
      cases member
    · rw [emitted, rest, List.singleton_append]
    · rw [emitted, rest]
      intro other member
      exact member
    · rw [outcome.rootList_perform, emitted, rest, List.append_assoc, process]
      exact guarded
    · rw [rest]
      exact List.IsChain.tail spaced

theorem simplifyMouseMovements_run {input list : List Item} {final : Inserter Item}
    (completes : simplifyMouseMovements.run () input (Inserter.new list).clear = .ok final)
    (scripted : AreScripted input) (spaced : IsSpaced input) :
    frame final.rootList = frame input ∧ AreScripted final.rootList ∧
      IsGuarded final.rootList := by
  have start : Kept id (id (frame input)) (Inserter.new list).clear input ∧
      IsGuarded ((Inserter.new list).clear.rootList ++ input) ∧ IsSpaced input :=
    ⟨Kept.start scripted list, spaced.isGuarded, spaced⟩
  have invariant := simplifyMouseMovements.run_invariant
    (fun _ inserter remaining => Kept id (id (frame input)) inserter remaining ∧
      IsGuarded (inserter.rootList ++ remaining) ∧ IsSpaced remaining)
    (by
      rintro state inserter item remaining next outcome processed ⟨kept, guarded, spaced⟩
      cases processed
      exact simplifyMouseMovements_step kept guarded spaced)
    start completes
  rcases invariant with ⟨_, kept, guarded, _⟩
  rw [List.append_nil] at guarded
  exact ⟨kept.frame_final, kept.scripted_final, guarded⟩

/-! ## SimplifyStrings -/

namespace SimplifyStrings

/-- The loop only consumes key events and the sleeps between them; once it has
collected text it has a sleep at hand. -/
theorem collect_shape {target : Target} {iterator : Item} {text : QString} {msec : Item}
    {input : List Item} {run : Run}
    (collected : collect target iterator text msec input = .ok run)
    (isKey : iterator.isKey = true) (guarded : IsGuarded (iterator :: input))
    (scripted : AreScripted input)
    (atHand : text ≠ [] → msec.IsScripted ∧ msec.isFrame = false) :
    frame (run.iterator :: run.rest) = frame (iterator :: input) ∧
      IsGuarded (run.iterator :: run.rest) ∧
      (∀ other ∈ run.iterator :: run.rest, other ∈ iterator :: input) ∧
      (run.text ≠ [] → run.msec.IsScripted ∧ run.msec.isFrame = false) := by
  fun_induction collect target iterator text msec input with
  | case1 | case2 | case3 | case5 =>
      cases collected
      refine ⟨rfl, guarded, ?_, atHand⟩
      intro other member
      exact member
  | case4 => cases collected
  | case6 iterator text msec parameters _ sleep following rest _ _ followingKey ih =>
      have notFrame : sleep.isFrame = false := by
        have free := Guarded.not_guarded_of_cons_cons guarded isKey
        simpa using free
      have followingIsKey : following.isKey = true := Bool.or_eq_true_iff.mpr followingKey
      have further := ih collected followingIsKey (List.IsChain.tail (List.IsChain.tail guarded))
        (fun other member => scripted other (List.mem_cons_of_mem _ (List.mem_cons_of_mem _ member)))
        (fun _ => ⟨scripted sleep List.mem_cons_self, notFrame⟩)
      rcases further with ⟨framed, restGuarded, members, furtherAtHand⟩
      refine ⟨?_, restGuarded, ?_, furtherAtHand⟩
      · rw [framed, frame_cons_of_not (Item.isFrame_of_isKey isKey), frame_cons_of_not notFrame]
      · intro other member
        exact List.mem_cons_of_mem _ (List.mem_cons_of_mem _ (members other member))
  | case7 iterator text msec parameters _ sleep following rest =>
      have notFrame : sleep.isFrame = false := by
        have free := Guarded.not_guarded_of_cons_cons guarded isKey
        simpa using free
      cases collected
      refine ⟨?_, List.IsChain.tail (List.IsChain.tail guarded), ?_, ?_⟩
      · rw [frame_cons_of_not (Item.isFrame_of_isKey isKey), frame_cons_of_not notFrame]
      · intro other member
        exact List.mem_cons_of_mem _ (List.mem_cons_of_mem _ member)
      · intro _
        exact ⟨scripted sleep List.mem_cons_self, notFrame⟩

end SimplifyStrings

theorem simplifyStrings_step {item : Item} {remaining : List Item} {outcome : Outcome}
    (processed : SimplifyStrings.process item remaining = .ok outcome)
    {expected : List Item} {inserter : Inserter Item}
    (kept : Kept id expected inserter (item :: remaining))
    (guarded : IsGuarded (item :: remaining)) :
    Kept id expected (outcome.perform inserter) outcome.rest ∧ IsGuarded outcome.rest := by
  rcases SimplifyStrings.process_ok processed with ⟨_, rfl⟩ | ⟨isPress, run, collected, rfl⟩
  · have emitted : (Outcome.unchanged item remaining).emitted = [item] :=
      emitted_of_scripted (kept.scripted_remaining item List.mem_cons_self)
    refine ⟨kept.perform ?_ ?_ ?_, List.IsChain.tail guarded⟩
    · intro insertion member
      cases member
    · rw [emitted]
      rfl
    · rw [emitted]
      intro other member
      exact member
  · have isKey : item.isKey = true := by simp [Item.isKey, isPress]
    have shape := SimplifyStrings.collect_shape collected isKey guarded
      (fun other member => kept.scripted_remaining other (List.mem_cons_of_mem _ member))
      (fun impossible => absurd rfl impossible)
    rcases shape with ⟨framed, further, members, atHand⟩
    have emitted : ∀ insertions : List (Item × Position),
        (⟨run.iterator, run.rest, insertions⟩ : Outcome).emitted = [run.iterator] := by
      intro insertions
      exact emitted_of_scripted
        (kept.scripted_remaining run.iterator (members _ List.mem_cons_self))
    refine ⟨kept.perform ?_ ?_ ?_, List.IsChain.tail further⟩
    · intro insertion member
      simp only at member
      split at member
      next hasText =>
        rcases List.mem_cons.mp member with isText | isMsec
        · rw [isText]
          constructor
          · change QString.ofString "sendText" ∈ frameMethods ++ passingMethods
            decide
          · apply Item.isFrame_of_passing
            change QString.ofString "sendText" ∈ passingMethods
            decide
        · rw [List.mem_singleton.mp isMsec]
          exact atHand hasText
      next => cases member
    · rw [emitted]
      exact framed
    · rw [emitted]
      exact members

theorem simplifyStrings_run {input list : List Item} {final : Inserter Item}
    (completes : simplifyStrings.run () input (Inserter.new list).clear = .ok final)
    (scripted : AreScripted input) (guarded : IsGuarded input) :
    frame final.rootList = frame input ∧ AreScripted final.rootList := by
  have start : Kept id (id (frame input)) (Inserter.new list).clear input ∧ IsGuarded input :=
    ⟨Kept.start scripted list, guarded⟩
  have invariant := simplifyStrings.run_invariant
    (fun _ inserter remaining => Kept id (id (frame input)) inserter remaining ∧
      IsGuarded remaining)
    (by
      rintro state inserter item remaining next outcome processed ⟨kept, guarded⟩
      exact simplifyStrings_step (ofProcess_ok processed) kept guarded)
    start completes
  rcases invariant with ⟨_, kept, _⟩
  exact ⟨kept.frame_final, kept.scripted_final⟩

end Hooq

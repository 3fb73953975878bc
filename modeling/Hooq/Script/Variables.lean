import Mathlib.Data.List.Nodup
import Mathlib.Data.List.Perm.Subperm
import Mathlib.Data.List.Range
import Hooq.Script.Frame

/-!
# Variables stand for what they were declared with

The last two post-processors replace paths and typed texts by variables that they
declare.  Names are new when they are declared, so that each one leads back to
the one path that it stands for.
-/

namespace Hooq

namespace ObjectVariables

/-! ## Names -/

theorem numbered_injective (name : QString) : Function.Injective (numbered name) := by
  intro first second same
  rw [numbered, numbered] at same
  exact Int.ofNat.inj (QString.number_injective (List.append_cancel_left same))

/-- If the name that the loop ends with is taken, all names it tried are. -/
theorem mem_of_numbered_freeCount_mem {names : List QString} {name : QString}
    {rounds count : Nat} (taken : numbered name (freeCount names name rounds count) ∈ names) :
    ∀ offset ≤ rounds, numbered name (count + offset) ∈ names := by
  induction rounds generalizing count with
  | zero =>
      intro offset within
      rw [Nat.le_zero.mp within]
      exact taken
  | succ rounds ih =>
      rw [freeCount] at taken
      split at taken
      next first =>
        intro offset within
        cases offset with
        | zero => exact first
        | succ offset =>
            have further := ih taken offset (Nat.le_of_succ_le_succ within)
            rw [Nat.add_right_comm, Nat.add_assoc] at further
            exact further
      next free => exact absurd taken free

/-- There are more candidates than names, so the loop ends at a free one. -/
theorem numbered_freeCount_not_mem (names : List QString) (name : QString) (count : Nat) :
    numbered name (freeCount names name names.length count) ∉ names := by
  intro taken
  have candidates : (List.range (names.length + 1)).map (fun offset => numbered name (count + offset))
      ⊆ names := by
    intro candidate member
    rcases List.mem_map.mp member with ⟨offset, within, rfl⟩
    exact mem_of_numbered_freeCount_mem taken offset
      (Nat.le_of_lt_succ (List.mem_range.mp within))
  have distinct : ((List.range (names.length + 1)).map
      fun offset => numbered name (count + offset)).Nodup := by
    apply List.Nodup.map _ List.nodup_range
    intro first second same
    exact Nat.add_left_cancel (numbered_injective name same)
  have tooMany := (List.subperm_of_subset distinct candidates).length_le
  rw [List.length_map, List.length_range] at tooMany
  exact absurd tooMany (Nat.not_succ_le_self _)

theorem numbered_or_free_not_mem (names : List QString) (name : QString) :
    (if name ∉ names then name else numbered name (freeCount names name names.length 2)) ∉
      names := by
  split
  next free => exact free
  next => exact numbered_freeCount_not_mem names name 2

theorem chooseName_not_mem (isLetterOrNumber : QChar → Bool) (known : Variables)
    (target : QString) : chooseName isLetterOrNumber known target ∉ known.map Prod.snd := by
  rw [chooseName]
  dsimp only
  split
  next free => exact free
  next => exact numbered_or_free_not_mem _ _

theorem declarationMethod_injective : Function.Injective declarationMethod := by
  intro first second same
  rw [declarationMethod, declarationMethod] at same
  exact List.append_cancel_left (List.append_cancel_right same)

theorem isDeclaration_declaration (name target : QString) :
    (declaration name target).isDeclaration = true := by
  rw [Item.isDeclaration, List.isPrefixOf_iff_prefix]
  change QString.ofString "var " <+: declarationMethod name
  rw [declarationMethod, List.append_assoc]
  exact List.prefix_append _ _

theorem isValid_declaration (name target : QString) :
    (declaration name target).isValid = true := by
  apply decide_eq_true
  change declarationMethod name ≠ []
  rw [declarationMethod, List.append_assoc]
  intro impossible
  exact absurd (List.append_eq_nil_iff.mp impossible).1 (by decide)

end ObjectVariables

/-! ## What variables stand for -/

/-- The path that a script declares a name for. -/
def declaredPath (script : List Item) (name : QString) : Option QString :=
  (script.find? fun item => item.method = ObjectVariables.declarationMethod name).map
    fun item => item.parameters.toText

/-- An item with the path of its object in place of a variable. -/
def resolve (script : List Item) (item : Item) : Item :=
  match item.target with
  | .variable name =>
      match declaredPath script name with
      | some path => { item with target := .path path }
      | none => item
  | _ => item

theorem resolve_of_not_variable {item : Item} (plain : ∀ name, item.target ≠ .variable name)
    (script : List Item) : resolve script item = item := by
  rw [resolve]
  split
  next name isVariable => exact absurd isVariable (plain name)
  next => rfl

/-- All declarations of the name in the script give it the path, and there is one. -/
structure Declares (script : List Item) (name path : QString) : Prop where
  exists_declaration : ∃ item ∈ script, item.method = ObjectVariables.declarationMethod name
  unique : ∀ item ∈ script, item.method = ObjectVariables.declarationMethod name →
    item.parameters = .string path

theorem Declares.declaredPath {script : List Item} {name path : QString}
    (declares : Declares script name path) : Hooq.declaredPath script name = some path := by
  rw [Hooq.declaredPath]
  cases found : script.find? _ with
  | none =>
      rcases declares.exists_declaration with ⟨item, member, isDeclaration⟩
      have notFound := List.find?_eq_none.mp found item member
      exact absurd (decide_eq_true isDeclaration) notFound
  | some item =>
      have isDeclaration := List.find?_some found
      have parameters := declares.unique item (List.mem_of_find?_eq_some found)
        (of_decide_eq_true isDeclaration)
      rw [Option.map_some, parameters]
      rfl

/-! ## ObjectVariables -/

namespace ObjectVariables

/-- The item that the pass emits for an original one. -/
def StandsFor (known : Variables) (emitted original : Item) : Prop :=
  emitted = original ∧ original.target = .null ∨
    ∃ path name, (path, name) ∈ known ∧ original.target = .path path ∧
      emitted = { original with target := .variable name }

/-- Every known name is declared, once and for its own path, and what the pass has
emitted so far stands for the frame that it has consumed. -/
structure Declared (expected : List Item) (known : Variables) (emitted remaining : List Item) :
    Prop where
  valid : ∀ item ∈ emitted, item.isValid = true
  scripted : AreScripted remaining
  declared : ∀ path name, (path, name) ∈ known →
    ∃ item ∈ emitted, item.method = declarationMethod name
  unique : ∀ item ∈ emitted, ∀ name, item.method = declarationMethod name →
    ∃ path, (path, name) ∈ known ∧ item.parameters = .string path
  distinct : ∀ path other name, (path, name) ∈ known → (other, name) ∈ known → path = other
  frames : ∃ consumed, expected = consumed ++ frame remaining ∧
    List.Forall₂ (StandsFor known) (frame emitted) consumed

namespace Declared

variable {expected : List Item} {known : Variables} {emitted remaining : List Item}

theorem declares (declared : Declared expected known emitted remaining) {path name : QString}
    (isKnown : (path, name) ∈ known) : Declares emitted name path := by
  constructor
  · exact declared.declared path name isKnown
  · intro item member isDeclaration
    rcases declared.unique item member name isDeclaration with ⟨other, otherKnown, parameters⟩
    rw [parameters, declared.distinct path other name isKnown otherKnown]

/-- A new name can be declared anywhere in front. -/
theorem declare (declared : Declared expected known emitted remaining) {path name : QString}
    (isNew : name ∉ known.map Prod.snd) (index : Int) :
    Declared expected ((path, name) :: known) (insertAt emitted index (declaration name path))
      remaining := by
  have notKnown : ∀ other, (other, name) ∉ known := by
    intro other member
    exact isNew (List.mem_map.mpr ⟨(other, name), member, rfl⟩)
  constructor
  · intro item member
    rcases mem_insertAt.mp member with isDeclaration | old
    · rw [isDeclaration]
      exact isValid_declaration name path
    · exact declared.valid item old
  · exact declared.scripted
  · intro other otherName member
    rcases List.mem_cons.mp member with isFirst | old
    · cases isFirst
      exact ⟨declaration name path, mem_insertAt.mpr (.inl rfl), rfl⟩
    · rcases declared.declared other otherName old with ⟨item, itemMember, isDeclaration⟩
      exact ⟨item, mem_insertAt.mpr (.inr itemMember), isDeclaration⟩
  · intro item member otherName isDeclaration
    rcases mem_insertAt.mp member with isThis | old
    · rw [isThis] at isDeclaration ⊢
      cases declarationMethod_injective isDeclaration
      exact ⟨path, List.mem_cons_self, rfl⟩
    · rcases declared.unique item old otherName isDeclaration with ⟨other, isKnown, parameters⟩
      exact ⟨other, List.mem_cons_of_mem _ isKnown, parameters⟩
  · intro first second otherName isFirst isSecond
    rcases List.mem_cons.mp isFirst with firstNew | firstOld
    · rcases List.mem_cons.mp isSecond with secondNew | secondOld
      · cases firstNew
        cases secondNew
        rfl
      · cases firstNew
        exact absurd secondOld (notKnown second)
    · rcases List.mem_cons.mp isSecond with secondNew | secondOld
      · cases secondNew
        exact absurd firstOld (notKnown first)
      · exact declared.distinct first second otherName firstOld secondOld
  · rcases declared.frames with ⟨consumed, split, related⟩
    refine ⟨consumed, split, ?_⟩
    rw [frame_insertAt (Item.isFrame_of_isDeclaration (isDeclaration_declaration name path))]
    apply List.Forall₂.imp _ related
    intro emittedItem original standsFor
    rcases standsFor with same | ⟨other, otherName, isKnown, further⟩
    · exact .inl same
    · exact .inr ⟨other, otherName, List.mem_cons_of_mem _ isKnown, further⟩

theorem isFrame_congr {first second : Item} (same : first.method = second.method) :
    first.isFrame = second.isFrame := by
  rw [Item.isFrame, Item.isFrame, Item.isDeclaration, Item.isDeclaration, same]

/-- Emitting what stands for the next item. -/
theorem emit {item replacement : Item}
    (declared : Declared expected known emitted (item :: remaining))
    (standsFor : StandsFor known replacement item)
    (sameMethod : replacement.method = item.method) :
    Declared expected known (emitted ++ [replacement]) remaining := by
  have scripted := declared.scripted item List.mem_cons_self
  have replacementScripted : replacement.IsScripted := by
    rw [Item.IsScripted, sameMethod]
    exact scripted
  constructor
  · intro other member
    rcases List.mem_append.mp member with old | isNew
    · exact declared.valid other old
    · rw [List.mem_singleton.mp isNew]
      exact replacementScripted.isValid
  · intro other member
    exact declared.scripted other (List.mem_cons_of_mem _ member)
  · intro path name isKnown
    rcases declared.declared path name isKnown with ⟨other, member, isDeclaration⟩
    exact ⟨other, List.mem_append_left _ member, isDeclaration⟩
  · intro other member name isDeclaration
    rcases List.mem_append.mp member with old | isNew
    · exact declared.unique other old name isDeclaration
    · have notDeclaration := replacementScripted.isDeclaration
      rw [List.mem_singleton.mp isNew] at isDeclaration
      have declares := isDeclaration_declaration name []
      rw [Item.isDeclaration] at notDeclaration declares
      rw [isDeclaration] at notDeclaration
      exact absurd (declares.symm.trans notDeclaration) (by decide)
  · exact declared.distinct
  · rcases declared.frames with ⟨consumed, split, related⟩
    have sameFrame := isFrame_congr sameMethod
    cases isFrame : item.isFrame with
    | false =>
        refine ⟨consumed, ?_, ?_⟩
        · rw [split, frame_cons_of_not isFrame]
        · rw [frame_append, frame_cons_of_not (sameFrame.trans isFrame), frame_nil,
            List.append_nil]
          exact related
    | true =>
        refine ⟨consumed ++ [item], ?_, ?_⟩
        · rw [split, frame, List.filter_cons_of_pos isFrame, List.append_assoc]
          rfl
        · have emits : frame [replacement] = [replacement] := by
            rw [frame, List.filter_cons_of_pos (sameFrame.trans isFrame), List.filter_nil]
          rw [frame_append, emits]
          exact List.rel_append related (.cons standsFor .nil)

/-- At the end of the pass the frame is that of the input, up to variables. -/
theorem resolves (declared : Declared expected known emitted []) :
    (frame emitted).map (resolve emitted) = expected := by
  rcases declared.frames with ⟨consumed, split, related⟩
  rw [frame_nil, List.append_nil] at split
  rw [split, ← List.forall₂_eq_eq_eq, List.forall₂_map_left_iff]
  apply List.Forall₂.imp _ related
  intro item original standsFor
  rcases standsFor with ⟨same, isNull⟩ | ⟨path, name, isKnown, isPath, isVariable⟩
  · rw [same]
    apply resolve_of_not_variable
    intro name impossible
    rw [isNull] at impossible
    cases impossible
  · rw [isVariable, resolve]
    simp only [(declared.declares isKnown).declaredPath, ← isPath]

end Declared

end ObjectVariables

theorem objectVariables_step {isLetterOrNumber : QChar → Bool}
    {known next : ObjectVariables.Variables} {item : Item} {remaining : List Item}
    {outcome : Outcome}
    (processed : ObjectVariables.process isLetterOrNumber known item remaining =
      .ok (next, outcome)) {expected : List Item} {inserter : Inserter Item}
    (declared : ObjectVariables.Declared expected known inserter.rootList (item :: remaining)) :
    ObjectVariables.Declared expected next (outcome.perform inserter).rootList outcome.rest := by
  have isValid := (declared.scripted item List.mem_cons_self).isValid
  rw [outcome.rootList_perform]
  rcases ObjectVariables.process_ok processed with
    ⟨isNull, rfl, rfl⟩ | ⟨path, isPath, ⟨name, found, rfl, rfl⟩ | ⟨_, rfl, rfl⟩⟩
  · have emitted : (Outcome.unchanged item remaining).emitted = [item] := if_pos isValid
    rw [emitted]
    exact declared.emit (.inl ⟨rfl, isNull⟩) rfl
  · have isKnown : (path, name) ∈ next := mem_of_lookup found
    have emitted : (Outcome.unchanged { item with target := .variable name }
        remaining).emitted = [{ item with target := .variable name }] := if_pos isValid
    rw [emitted]
    exact declared.emit (.inr ⟨path, name, isKnown, isPath, rfl⟩) rfl
  · have fresh := ObjectVariables.chooseName_not_mem isLetterOrNumber known path
    generalize ObjectVariables.chooseName isLetterOrNumber known path = name at fresh ⊢
    have emitted : ∀ insertions : List (Item × Position),
        (⟨{ item with target := .variable name }, remaining, insertions⟩ : Outcome).emitted =
          [{ item with target := .variable name }] := fun _ => if_pos isValid
    rw [emitted]
    apply (declared.declare fresh inserter.itemIndex).emit
    · exact .inr ⟨path, name, List.mem_cons_self, isPath, rfl⟩
    · rfl

/-- The pass only renames objects in the frame, and declares what it names them. -/
theorem objectVariables_run {isLetterOrNumber : QChar → Bool} {input list : List Item}
    {final : Inserter Item}
    (completes : (objectVariables isLetterOrNumber).run [] input (Inserter.new list).clear =
      .ok final) (scripted : AreScripted input) :
    (frame final.rootList).map (resolve final.rootList) = frame input ∧
      ∀ item ∈ final.rootList, item.isValid = true := by
  have start : ObjectVariables.Declared (frame input) []
      (Inserter.new list).clear.rootList input := by
    constructor
    · intro item member
      cases member
    · exact scripted
    · intro path name member
      cases member
    · intro item member
      cases member
    · intro path other name member
      cases member
    · exact ⟨[], rfl, .nil⟩
  have invariant := (objectVariables isLetterOrNumber).run_invariant
    (fun known inserter remaining =>
      ObjectVariables.Declared (frame input) known inserter.rootList remaining)
    (by
      intro known inserter item remaining next outcome processed declared
      exact objectVariables_step processed declared)
    start completes
  rcases invariant with ⟨_, declared⟩
  exact ⟨declared.resolves, declared.valid⟩

/-! ## StringVariables -/

namespace StringVariables

theorem isDeclaration_declaration (position : Nat) (value : QString) :
    (declaration position value).isDeclaration = true := by
  rw [Item.isDeclaration, List.isPrefixOf_iff_prefix]
  simp only [declaration, Item.ofMethod, List.append_assoc]
  exact List.prefix_append _ _

/-- A declaration of a text ends in a quotation mark, one of an object does not. -/
theorem method_declaration_ne (position : Nat) (value name : QString) :
    (declaration position value).method ≠ ObjectVariables.declarationMethod name := by
  intro same
  have ends := congrArg List.getLast? same
  simp only [declaration, Item.ofMethod, ObjectVariables.declarationMethod,
    List.getLast?_append] at ends
  have quote : (QString.ofString "\"").getLast? = some 34 := by decide
  have letter : (QString.ofString " = objectFromPath").getLast? = some 104 := by decide
  rw [quote, letter, Option.some_or, Option.some_or] at ends
  exact absurd ends (by decide)

/-- A filter that neither typed texts nor their declarations pass. -/
structure Overlooks (keep : Item → Bool) : Prop where
  sendText : ∀ item : Item, item.method = QString.ofString "sendText" → keep item = false
  declaration : ∀ position value, keep (declaration position value) = false

theorem overlooks_isFrame : Overlooks Item.isFrame := by
  constructor
  · intro item isText
    apply Item.isFrame_of_passing
    rw [isText]
    decide
  · intro position value
    exact Item.isFrame_of_isDeclaration (isDeclaration_declaration position value)

theorem overlooks_declarationMethod (name : QString) :
    Overlooks fun item => item.method = ObjectVariables.declarationMethod name := by
  constructor
  · intro item isText
    apply decide_eq_false
    rw [isText]
    intro same
    have starts := ObjectVariables.isDeclaration_declaration name []
    rw [Item.isDeclaration] at starts
    change List.isPrefixOf _ (ObjectVariables.declarationMethod name) = true at starts
    rw [← same] at starts
    exact absurd starts (by decide)
  · intro position value
    exact decide_eq_false (method_declaration_ne position value name)

end StringVariables

theorem stringVariables_step {known next : List QString} {item : Item} {remaining : List Item}
    {outcome : Outcome}
    (processed : StringVariables.process known item remaining = .ok (next, outcome))
    (isValid : item.isValid = true) {keep : Item → Bool}
    (overlooks : StringVariables.Overlooks keep) (inserter : Inserter Item) :
    (outcome.perform inserter).rootList.filter keep ++ outcome.rest.filter keep =
      inserter.rootList.filter keep ++ (item :: remaining).filter keep := by
  rw [outcome.rootList_perform, List.filter_append, List.append_assoc]
  rcases StringVariables.process_ok processed with ⟨_, _, rfl⟩ | ⟨isText, value, _, known⟩
  · have emitted : (Outcome.unchanged item remaining).emitted = [item] := if_pos isValid
    rw [emitted, ← List.filter_append]
    rfl
  · have overlooked := overlooks.sendText item isText
    have replaced : ∀ name insertions,
        (⟨{ item with parameters := .variable name }, remaining, insertions⟩ :
          Outcome).emitted.filter keep = [] := by
      intro name insertions
      have emitted : (⟨{ item with parameters := .variable name }, remaining, insertions⟩ :
          Outcome).emitted = [{ item with parameters := .variable name }] := if_pos isValid
      rw [emitted]
      apply List.filter_cons_of_neg
      rw [overlooks.sendText { item with parameters := .variable name } isText]
      exact Bool.false_ne_true
    rw [List.filter_cons_of_neg (by simp [overlooked])]
    rcases known with ⟨_, _, rfl⟩ | ⟨_, _, rfl⟩
    · rw [Outcome.unchanged, replaced]
      rfl
    · rw [replaced, List.nil_append]
      congr 1
      exact filter_insertAt_of_rejected (overlooks.declaration _ value)

/-- The pass changes nothing but typed texts. -/
theorem stringVariables_run {input list : List Item} {final : Inserter Item}
    (completes : stringVariables.run [] input (Inserter.new list).clear = .ok final)
    (valid : ∀ item ∈ input, item.isValid = true) {keep : Item → Bool}
    (overlooks : StringVariables.Overlooks keep) :
    final.rootList.filter keep = input.filter keep := by
  have start : (Inserter.new list).clear.rootList.filter keep ++ input.filter keep =
      input.filter keep ∧ ∀ item ∈ input, item.isValid = true := ⟨rfl, valid⟩
  have invariant := stringVariables.run_invariant
    (fun _ inserter remaining => inserter.rootList.filter keep ++ remaining.filter keep =
      input.filter keep ∧ ∀ item ∈ remaining, item.isValid = true)
    (by
      rintro known inserter item remaining next outcome processed ⟨kept, valid⟩
      constructor
      · rw [stringVariables_step processed (valid item List.mem_cons_self) overlooks, kept]
      · rw [StringVariables.process_rest processed]
        intro other member
        exact valid other (List.mem_cons_of_mem _ member))
    start completes
  rcases invariant with ⟨_, kept, _⟩
  rw [List.filter_nil, List.append_nil] at kept
  exact kept

theorem declaredPath_congr {first second : List Item} {name : QString}
    (same : first.filter (fun item => item.method = ObjectVariables.declarationMethod name) =
      second.filter (fun item => item.method = ObjectVariables.declarationMethod name)) :
    declaredPath first name = declaredPath second name := by
  rw [declaredPath, declaredPath, ← List.head?_filter, ← List.head?_filter, same]

theorem resolve_congr {first second : List Item}
    (same : ∀ name, declaredPath first name = declaredPath second name) :
    resolve first = resolve second := by
  funext item
  rw [resolve, resolve]
  split
  · rw [same]
  · rfl

/-! ## The whole pipeline -/

/-- The first processor of a pipeline, if it is enabled, runs before the others. -/
theorem runAll_stage {enabled : Bool} {processor : PostProcessor} {rest : List PostProcessor}
    {input list output : List Item}
    (completes : runAll ((if enabled then [processor] else []) ++ rest) input (.new list) =
      .ok output) :
    (enabled = false ∧ runAll rest input (.new list) = .ok output) ∨
      enabled = true ∧ ∃ final,
        processor.run processor.initial input (Inserter.new list).clear = .ok final ∧
        runAll rest final.rootList (.new final.rootList) = .ok output := by
  cases enabled with
  | false => exact .inl ⟨rfl, completes⟩
  | true =>
      right
      simp only [if_true, List.singleton_append, runAll] at completes
      cases ran : processor.run processor.initial input (Inserter.new list).clear with
      | error fault =>
          rw [ran] at completes
          cases completes
      | ok final =>
          rw [ran] at completes
          exact ⟨rfl, final, rfl, completes⟩

section

variable {isLetterOrNumber : QChar → Bool} {enabled : Bool} {input list output : List Item}

theorem stringVariables_stage
    (completes : runAll (if enabled then [stringVariables] else []) input (.new list) =
      .ok output) (valid : ∀ item ∈ input, item.isValid = true) :
    frame output = frame input ∧ resolve output = resolve input := by
  rw [← List.append_nil (if enabled then [stringVariables] else [])] at completes
  rcases runAll_stage completes with ⟨_, isOutput⟩ | ⟨_, final, ran, isOutput⟩
  · cases isOutput
    exact ⟨rfl, rfl⟩
  · cases isOutput
    constructor
    · exact stringVariables_run ran valid StringVariables.overlooks_isFrame
    · apply resolve_congr
      intro name
      apply declaredPath_congr
      exact stringVariables_run ran valid (StringVariables.overlooks_declarationMethod name)

theorem variables_stage {enabledStrings : Bool}
    (completes : runAll ((if enabled then [objectVariables isLetterOrNumber] else []) ++
      (if enabledStrings then [stringVariables] else [])) input (.new list) = .ok output)
    (scripted : AreScripted input)
    (plain : ∀ item ∈ frame input, ∀ name, item.target ≠ .variable name) :
    (frame output).map (resolve output) = frame input := by
  rcases runAll_stage completes with ⟨_, later⟩ | ⟨_, final, ran, later⟩
  · have kept := stringVariables_stage later fun item member => (scripted item member).isValid
    rw [kept.1, kept.2]
    calc (frame input).map (resolve input)
      _ = (frame input).map id := by
          apply List.map_congr_left
          intro item member
          exact resolve_of_not_variable (plain item member) input
      _ = frame input := List.map_id _
  · have renamed := objectVariables_run ran scripted
    have kept := stringVariables_stage later renamed.2
    rw [kept.1, kept.2]
    exact renamed.1

end

/-- What is to be left of the frame of a recording. -/
def expectedFrame (options : Options) (items : List Item) : List Item :=
  if options.filterQtInternals then external (frame items) else frame items

theorem mem_expectedFrame {options : Options} {items : List Item} {item : Item}
    (member : item ∈ expectedFrame options items) : item ∈ items := by
  rw [expectedFrame] at member
  split at member
  · exact List.mem_of_mem_filter (List.mem_of_mem_filter member)
  · exact List.mem_of_mem_filter member

theorem IsRecording.sleepsUnclassed {items : List Item} (isRecording : IsRecording items) :
    SleepsUnclassed items := by
  have events : ∀ method ∈ eventMethods, method ≠ QString.ofString "msleep" := by decide
  induction isRecording with
  | nil =>
      intro item member
      cases member
  | pair duration isEvent isRecording ih =>
      intro item member isSleep
      rcases List.mem_cons.mp member with isFirst | member
      · rw [isFirst]
        rfl
      · rcases List.mem_cons.mp member with isSecond | member
        · rw [isSecond] at isSleep
          exact absurd (of_decide_eq_true isSleep) (events _ isEvent.method)
        · exact ih item member isSleep

/-! The passes that look ahead, each with the shape that it hands on. -/

section

variable {enabled : Bool} {rest : List PostProcessor} {input list output : List Item}

theorem filterQtInternals_stage
    (completes : runAll ((if enabled then [filterQtInternals] else []) ++ rest) input
      (.new list) = .ok output) (isRecording : IsRecording input) :
    ∃ between previous : List Item, runAll rest between (.new previous) = .ok output ∧
      frame between = (if enabled then external (frame input) else frame input) ∧
      AreScripted between ∧ IsSpaced between := by
  rcases runAll_stage completes with ⟨off, later⟩ | ⟨on, final, ran, later⟩
  · refine ⟨input, list, later, ?_, isRecording.isScripted, isRecording.isSpaced⟩
    rw [off]
    rfl
  · refine ⟨final.rootList, final.rootList, later, ?_⟩
    rw [on]
    exact filterQtInternals_run ran isRecording.isScripted isRecording.isSpaced
      isRecording.sleepsUnclassed

theorem stripMouseMovements_stage
    (completes : runAll ((if enabled then [stripMouseMovements] else []) ++ rest) input
      (.new list) = .ok output) (scripted : AreScripted input) (spaced : IsSpaced input) :
    ∃ between previous : List Item, runAll rest between (.new previous) = .ok output ∧
      frame between = frame input ∧ AreScripted between ∧ IsSpaced between := by
  rcases runAll_stage completes with ⟨_, later⟩ | ⟨_, final, ran, later⟩
  · exact ⟨input, list, later, rfl, scripted, spaced⟩
  · exact ⟨final.rootList, final.rootList, later, stripMouseMovements_run ran scripted spaced⟩

theorem simplifyMouseMovements_stage
    (completes : runAll ((if enabled then [simplifyMouseMovements] else []) ++ rest) input
      (.new list) = .ok output) (scripted : AreScripted input) (spaced : IsSpaced input) :
    ∃ between previous : List Item, runAll rest between (.new previous) = .ok output ∧
      frame between = frame input ∧ AreScripted between ∧ IsGuarded between := by
  rcases runAll_stage completes with ⟨_, later⟩ | ⟨_, final, ran, later⟩
  · exact ⟨input, list, later, rfl, scripted, spaced.isGuarded⟩
  · exact ⟨final.rootList, final.rootList, later,
      simplifyMouseMovements_run ran scripted spaced⟩

theorem simplifyStrings_stage
    (completes : runAll ((if enabled then [simplifyStrings] else []) ++ rest) input
      (.new list) = .ok output) (scripted : AreScripted input) (guarded : IsGuarded input) :
    ∃ between previous : List Item, runAll rest between (.new previous) = .ok output ∧
      frame between = frame input ∧ AreScripted between := by
  rcases runAll_stage completes with ⟨_, later⟩ | ⟨_, final, ran, later⟩
  · exact ⟨input, list, later, rfl, scripted⟩
  · exact ⟨final.rootList, final.rootList, later, simplifyStrings_run ran scripted guarded⟩

end

/-- Whichever post-processors run, the frame of a recording comes out complete and
in order. -/
theorem frame_postProcess (isLetterOrNumber : QChar → Bool) (options : Options)
    {items output : List Item} (isRecording : IsRecording items)
    (completes : postProcess isLetterOrNumber options items = .ok output) :
    (frame output).map (resolve output) = expectedFrame options items := by
  simp only [postProcess, postProcessors, List.append_assoc] at completes
  rcases filterQtInternals_stage completes isRecording with
    ⟨filtered, _, completes, filteredFrame, scripted, spaced⟩
  rcases stripMouseMovements_stage completes scripted spaced with
    ⟨stripped, _, completes, strippedFrame, scripted, spaced⟩
  rcases simplifyMouseMovements_stage completes scripted spaced with
    ⟨moved, _, completes, movedFrame, scripted, guarded⟩
  rcases simplifyStrings_stage completes scripted guarded with
    ⟨typed, _, completes, typedFrame, scripted⟩
  have same : frame typed = expectedFrame options items :=
    calc frame typed
      _ = frame moved := typedFrame
      _ = frame stripped := movedFrame
      _ = frame filtered := strippedFrame
      _ = expectedFrame options items := filteredFrame
  have plain : ∀ item ∈ frame typed, ∀ name, item.target ≠ .variable name := by
    intro item member
    rw [same] at member
    exact isRecording.not_variable item (mem_expectedFrame member)
  rw [variables_stage completes scripted plain, same]

/-- A click into a line edit, two typed keys, and a drop on the window. -/
def typeAndDrop : List Item :=
  let edit : Target := .path "window::edit"
  let press (text : QString) : QVariant :=
    .map (.entry "key" (.key 65) (.entry "modifiers" (.keyboardModifiers 0)
      (.entry "text" (.string text) .empty)))
  [.ofMethod "msleep" (.int 10), ⟨edit, "QLineEdit", "pressMouseButton", .map .empty⟩,
    .ofMethod "msleep" (.int 20), ⟨edit, "QLineEdit", "pressKey", press "a"⟩,
    .ofMethod "msleep" (.int 30), ⟨edit, "QLineEdit", "releaseKey", press "a"⟩,
    .ofMethod "msleep" (.int 40), ⟨.path "window", [], "drop", .map .empty⟩]

theorem typeAndDrop_isRecording : IsRecording typeAndDrop := by
  apply IsRecording.pair 10 ⟨by decide, _, rfl⟩
  apply IsRecording.pair 20 ⟨by decide, _, rfl⟩
  apply IsRecording.pair 30 ⟨by decide, _, rfl⟩
  apply IsRecording.pair 40 ⟨by decide, _, rfl⟩
  exact .nil

def everyOption : Options :=
  ⟨true, true, true, true, true, true⟩

theorem frame_typeAndDrop : ∃ output,
    postProcess (fun _ => true) everyOption typeAndDrop = .ok output ∧
      (frame output).map (resolve output) = expectedFrame everyOption typeAndDrop := by
  have completes : (postProcess (fun _ => true) everyOption typeAndDrop).toOption.isSome := by
    decide +kernel
  cases processed : postProcess (fun _ => true) everyOption typeAndDrop with
  | error fault =>
      rw [processed] at completes
      cases completes
  | ok output =>
      exact ⟨output, rfl, frame_postProcess _ _ typeAndDrop_isRecording processed⟩

end Hooq

import Hooq.Script.Variables

/-!
# Declarations of object variables

The pass that names objects, on any list of items.  Its output consists of the
items that it kept and of the declarations that it spliced in, wherever its index
pointed.  Each path is declared once, under a name of its own and in front of its
uses, so that the declarations lead back to the input.
-/

namespace Hooq

namespace ObjectVariables

/-! ## The output of the pass -/

/-- A line of the output: a declaration that the pass inserted, or an item that it
was given. -/
inductive Line where
  | declared (name path : QString)
  | kept (item : Item)
  deriving DecidableEq, Repr

namespace Line

def item : Line → Item
  | declared name path => declaration name path
  | kept item => item

def declaration? : Line → Option (QString × QString)
  | declared name path => some (path, name)
  | kept _ => none

def kept? : Line → Option Item
  | declared _ _ => none
  | kept item => some item

end Line

/-- The inserted declarations: paths with their names. -/
def declarations (lines : List Line) : Variables :=
  lines.filterMap Line.declaration?

/-- What is left when the declarations are deleted. -/
def keptItems (lines : List Line) : List Item :=
  lines.filterMap Line.kept?

@[simp] theorem declarations_append (front back : List Line) :
    declarations (front ++ back) = declarations front ++ declarations back :=
  List.filterMap_append

@[simp] theorem keptItems_append (front back : List Line) :
    keptItems (front ++ back) = keptItems front ++ keptItems back :=
  List.filterMap_append

/-- Every variable is declared before the item that uses it. -/
def Scoped (names : List QString) : List Line → Prop
  | [] => True
  | .declared name _ :: rest => Scoped (names ++ [name]) rest
  | .kept item :: rest =>
      (∀ name, item.target = .variable name → name ∈ names) ∧ Scoped names rest

theorem Scoped.mono {names more : List QString} (subset : names ⊆ more) {lines : List Line}
    (inScope : Scoped names lines) : Scoped more lines := by
  induction lines generalizing names more with
  | nil => trivial
  | cons line rest ih =>
      cases line with
      | declared name path =>
          apply ih _ inScope
          exact List.append_subset.mpr
            ⟨fun other member => List.mem_append_left _ (subset member),
              List.subset_append_right _ _⟩
      | kept item =>
          constructor
          · intro name isVariable
            exact subset (inScope.1 name isVariable)
          · exact ih subset inScope.2

theorem scoped_append {names : List QString} {front back : List Line} :
    Scoped names (front ++ back) ↔
      Scoped names front ∧ Scoped (names ++ (declarations front).map Prod.snd) back := by
  induction front generalizing names with
  | nil => simp [Scoped, declarations]
  | cons line rest ih =>
      cases line with
      | declared name path =>
          have cons : names ++ (declarations (.declared name path :: rest)).map Prod.snd =
              names ++ [name] ++ (declarations rest).map Prod.snd := by
            simp [declarations, Line.declaration?]
          rw [cons]
          exact ih
      | kept item =>
          rw [List.cons_append, Scoped, Scoped, ih, and_assoc]
          rfl

/-- An item with the path that its variable was declared for. -/
def restore (known : Variables) (item : Item) : Item :=
  match item.target with
  | .variable name =>
      match known.find? fun entry => entry.2 = name with
      | some (path, _) => { item with target := .path path }
      | none => item
  | _ => item

/-- What the output keeps of the input: the items `kept`, in order, each with the
object that it is about. -/
structure PreservesMeaning (items kept : List Item) (lines : List Line) : Prop where
  declaredOnce : ((declarations lines).map Prod.fst).Nodup
  declaredTargets : ∀ path, path ∈ (declarations lines).map Prod.fst ↔
    ∃ item ∈ items, item.target = .path path
  namesDistinct : ((declarations lines).map Prod.snd).Nodup
  inScope : Scoped [] lines
  restores : (keptItems lines).map (restore (declarations lines)) = kept

/-! ## The invariant of the pass -/

/-- The lines so far declare the known names, and stand for the items `kept`. -/
structure Emitted (known : Variables) (kept : List Item) (lines : List Line) : Prop where
  declared : (declarations lines).Perm known
  paths : (known.map Prod.fst).Nodup
  names : (known.map Prod.snd).Nodup
  inScope : Scoped [] lines
  stands : List.Forall₂ (StandsFor known) (keptItems lines) kept

theorem StandsFor.mono {known : Variables} {emitted original : Item}
    (standsFor : StandsFor known emitted original) (entry : QString × QString) :
    StandsFor (entry :: known) emitted original := by
  rcases standsFor with same | ⟨path, name, isKnown, further⟩
  · exact .inl same
  · exact .inr ⟨path, name, List.mem_cons_of_mem _ isKnown, further⟩

namespace Emitted

variable {known : Variables} {kept : List Item} {lines : List Line}

theorem nil : Emitted [] [] [] := by
  constructor
  · exact List.Perm.nil
  · exact List.nodup_nil
  · exact List.nodup_nil
  · trivial
  · exact .nil

/-- A declaration of a new path under a new name fits in anywhere. -/
theorem declare (emitted : Emitted known kept lines) {path name : QString}
    (newPath : path ∉ known.map Prod.fst) (newName : name ∉ known.map Prod.snd) (index : Int) :
    Emitted ((path, name) :: known) kept (insertAt lines index (.declared name path)) := by
  have parts := List.take_append_drop index.toNat lines
  generalize front_eq : lines.take index.toNat = front at parts
  generalize back_eq : lines.drop index.toNat = back at parts
  have inserted : insertAt lines index (.declared name path) =
      front ++ .declared name path :: back := by
    rw [insertAt, front_eq, back_eq]
  rw [inserted]
  rw [← parts] at emitted
  constructor
  · have middle : declarations (front ++ .declared name path :: back) =
        declarations front ++ (path, name) :: declarations back := by
      rw [declarations_append]
      rfl
    rw [middle]
    apply List.perm_middle.trans
    apply List.Perm.cons
    rw [← declarations_append]
    exact emitted.declared
  · exact List.nodup_cons.mpr ⟨newPath, emitted.paths⟩
  · exact List.nodup_cons.mpr ⟨newName, emitted.names⟩
  · rw [scoped_append]
    rcases scoped_append.mp emitted.inScope with ⟨frontScoped, backScoped⟩
    exact ⟨frontScoped, backScoped.mono (List.subset_append_left _ _)⟩
  · have same : keptItems (front ++ .declared name path :: back) = keptItems (front ++ back) := by
      rw [keptItems_append, keptItems_append]
      rfl
    rw [same]
    exact emitted.stands.imp fun _ _ standsFor => standsFor.mono _

theorem keep (emitted : Emitted known kept lines) {item original : Item}
    (standsFor : StandsFor known item original)
    (named : ∀ name, item.target = .variable name → name ∈ known.map Prod.snd) :
    Emitted known (kept ++ [original]) (lines ++ [.kept item]) := by
  constructor
  · rw [declarations_append]
    change (declarations lines ++ []).Perm known
    rw [List.append_nil]
    exact emitted.declared
  · exact emitted.paths
  · exact emitted.names
  · rw [scoped_append]
    refine ⟨emitted.inScope, ?_, trivial⟩
    intro name isVariable
    rw [List.nil_append, (emitted.declared.map Prod.snd).mem_iff]
    exact named name isVariable
  · rw [keptItems_append]
    exact List.rel_append emitted.stands (.cons standsFor .nil)

/-- A name leads back to its path. -/
theorem find?_declarations (emitted : Emitted known kept lines) {path name : QString}
    (isKnown : (path, name) ∈ known) :
    (declarations lines).find? (fun entry => entry.2 = name) = some (path, name) := by
  have distinct := ((emitted.declared.map Prod.snd).nodup_iff).mpr emitted.names
  have member := emitted.declared.mem_iff.mpr isKnown
  cases found : (declarations lines).find? fun entry => entry.2 = name with
  | none =>
      have notFound := List.find?_eq_none.mp found (path, name) member
      exact absurd (decide_eq_true rfl) notFound
  | some entry =>
      have holds := List.find?_some found
      have sameName : entry.2 = name := of_decide_eq_true holds
      have same := List.inj_on_of_nodup_map distinct (List.mem_of_find?_eq_some found) member
        sameName
      rw [same]

theorem restores (emitted : Emitted known kept lines) :
    (keptItems lines).map (restore (declarations lines)) = kept := by
  rw [← List.forall₂_eq_eq_eq, List.forall₂_map_left_iff]
  apply List.Forall₂.imp _ emitted.stands
  intro item original standsFor
  rcases standsFor with ⟨same, isNull⟩ | ⟨path, name, isKnown, isPath, isVariable⟩
  · rw [same, restore]
    simp only [isNull]
  · rw [isVariable, restore]
    simp only [emitted.find?_declarations isKnown, ← isPath]

/-- With the targets of the input known, nothing is lost. -/
theorem preservesMeaning (emitted : Emitted known kept lines) {items : List Item}
    (covers : ∀ path, path ∈ known.map Prod.fst ↔ ∃ item ∈ items, item.target = .path path) :
    PreservesMeaning items kept lines := by
  constructor
  · exact ((emitted.declared.map Prod.fst).nodup_iff).mpr emitted.paths
  · intro path
    rw [(emitted.declared.map Prod.fst).mem_iff]
    exact covers path
  · exact ((emitted.declared.map Prod.snd).nodup_iff).mpr emitted.names
  · exact emitted.inScope
  · exact emitted.restores

end Emitted

/-! ## The pass -/

/-- A call keeps a valid item, under the name of its object, and drops an invalid one. -/
theorem Emitted.emit {known : Variables} {kept : List Item} {lines : List Line}
    (emitted : Emitted known kept lines) {item original : Item}
    (standsFor : StandsFor known item original) (sameMethod : item.method = original.method)
    (named : ∀ name, item.target = .variable name → name ∈ known.map Prod.snd) :
    ∃ more : List Line, more.map Line.item = (if item.isValid then [item] else []) ∧
      Emitted known (kept ++ [original].filter Item.isValid) (lines ++ more) := by
  have sameValid : original.isValid = item.isValid := by
    rw [Item.isValid, Item.isValid, sameMethod]
  cases isValid : item.isValid with
  | true =>
      refine ⟨[.kept item], rfl, ?_⟩
      rw [List.filter_cons_of_pos (sameValid.trans isValid), List.filter_nil]
      exact emitted.keep standsFor named
  | false =>
      refine ⟨[], rfl, ?_⟩
      rw [List.filter_cons_of_neg (by simp [sameValid, isValid]), List.filter_nil,
        List.append_nil, List.append_nil]
      exact emitted

/-- Between two calls of a run over `items`: what was consumed is kept unless it was
invalid, and its paths are the known ones. -/
def Processed (items : List Item) (known : Variables) (inserter : Inserter Item)
    (remaining : List Item) : Prop :=
  ∃ consumed lines, items = consumed ++ remaining ∧
    inserter.rootList = lines.map Line.item ∧
    Emitted known (consumed.filter Item.isValid) lines ∧
    ∀ path, path ∈ known.map Prod.fst ↔ ∃ item ∈ consumed, item.target = .path path

/-- A call that keeps its item, behind what it inserted. -/
theorem processed_perform {consumed remaining : List Item} {known : Variables}
    {lines : List Line} {inserter : Inserter Item} {item : Item} (outcome : Outcome)
    (inserted : (inserter.insertAll outcome.insertions).rootList = lines.map Line.item)
    (emitted : Emitted known (consumed.filter Item.isValid) lines)
    (standsFor : StandsFor known outcome.iterator item)
    (sameMethod : outcome.iterator.method = item.method)
    (covers : ∀ path, path ∈ known.map Prod.fst ↔
      (∃ other ∈ consumed, other.target = .path path) ∨ item.target = .path path) :
    Processed (consumed ++ item :: remaining) known (outcome.perform inserter) remaining := by
  have named : ∀ name, outcome.iterator.target = .variable name →
      name ∈ known.map Prod.snd := by
    intro name isVariable
    rcases standsFor with ⟨same, isNull⟩ | ⟨path, own, isKnown, isPath, replaced⟩
    · rw [same, isNull] at isVariable
      cases isVariable
    · rw [replaced] at isVariable
      cases isVariable
      exact List.mem_map.mpr ⟨(path, _), isKnown, rfl⟩
  rcases emitted.emit standsFor sameMethod named with ⟨more, shape, further⟩
  refine ⟨consumed ++ [item], lines ++ more, ?_, ?_, ?_, ?_⟩
  · rw [List.append_assoc]
    rfl
  · rw [outcome.rootList_perform, inserted, List.map_append, shape]
    rfl
  · rw [List.filter_append]
    exact further
  · intro path
    rw [covers path]
    simp only [List.mem_append, List.mem_singleton, or_and_right, exists_or, exists_eq_left]

/-- Each call finds the path of its item among the known ones or declares it. -/
theorem processed_step {isLetterOrNumber : QChar → Bool} {items : List Item}
    {known : Variables} {inserter : Inserter Item} {item : Item} {input : List Item}
    (plain : ∀ name, item.target ≠ .variable name)
    (processed : Processed items known inserter (item :: input)) :
    ∃ next outcome, process isLetterOrNumber known item input = .ok (next, outcome) ∧
      Processed items next (outcome.perform inserter) outcome.rest := by
  rcases processed with ⟨consumed, lines, split, rootList, emitted, covers⟩
  subst split
  rw [process]
  cases isTarget : item.target with
  | null =>
      refine ⟨known, .unchanged item input, rfl, ?_⟩
      apply processed_perform (.unchanged item input) rootList emitted
        (.inl ⟨rfl, isTarget⟩) rfl
      intro path
      rw [covers path]
      simp [Outcome.unchanged, isTarget]
  | «variable» name => exact absurd isTarget (plain name)
  | path target =>
      cases found : known.lookup target with
      | some name =>
          have isKnown : (target, name) ∈ known := mem_of_lookup found
          have member : target ∈ known.map Prod.fst :=
            List.mem_map.mpr ⟨(target, name), isKnown, rfl⟩
          refine ⟨known, .unchanged { item with target := .variable name } input, ?_, ?_⟩
          · simp only [found]
          · apply processed_perform (.unchanged { item with target := .variable name } input)
              rootList emitted (.inr ⟨target, name, isKnown, isTarget, rfl⟩) rfl
            intro path
            rw [isTarget, ← covers path]
            constructor
            · exact .inl
            · rintro (old | isThis)
              · exact old
              · cases isThis
                exact member
      | none =>
          have newName := chooseName_not_mem isLetterOrNumber known target
          generalize chosen : chooseName isLetterOrNumber known target = name at newName
          have newPath : target ∉ known.map Prod.fst := by
            intro member
            rcases List.mem_map.mp member with ⟨entry, isKnown, isTarget⟩
            have differs := List.lookup_eq_none_iff.mp found entry isKnown
            rw [isTarget] at differs
            simp at differs
          refine ⟨(target, name) :: known, ⟨{ item with target := .variable name }, input,
            [(declaration name target, .beforeCurrentItem)]⟩, ?_, ?_⟩
          · simp only [found, chosen]
          · have inserted : (inserter.insertAll
                [(declaration name target, .beforeCurrentItem)]).rootList =
                (insertAt lines inserter.itemIndex (.declared name target)).map Line.item := by
              rw [map_insertAt, ← rootList]
              rfl
            apply processed_perform ⟨_, _, _⟩ inserted (emitted.declare newPath newName _)
              (.inr ⟨target, name, List.mem_cons_self, isTarget, rfl⟩) rfl
            intro path
            rw [List.map_cons, List.mem_cons, covers path, isTarget, or_comm]
            simp only [Target.path.injEq, eq_comm]

/-- The pass completes, and its output says what its input said: each path is declared
once, under a name of its own that no other path has, in front of the items that use
the name.  Items without a method are left out. -/
theorem run_preservesMeaning (isLetterOrNumber : QChar → Bool) (items list : List Item)
    (plain : ∀ item ∈ items, ∀ name, item.target ≠ .variable name) :
    ∃ final, (objectVariables isLetterOrNumber).run [] items (Inserter.new list).clear =
      .ok final ∧ ∃ lines : List Line, final.rootList = lines.map Line.item ∧
        PreservesMeaning items (items.filter Item.isValid) lines := by
  have start : Processed items [] (Inserter.new list).clear items :=
    ⟨[], [], rfl, rfl, .nil, by simp⟩
  have run := (objectVariables isLetterOrNumber).exists_run [] items (Inserter.new list).clear
    (fun known inserter remaining => Processed items known inserter remaining ∧
      ∀ item ∈ remaining, ∀ name, item.target ≠ .variable name)
    (by
      rintro known inserter item input ⟨processed, plain⟩
      rcases processed_step (plain item List.mem_cons_self) processed with
        ⟨next, outcome, called, kept⟩
      refine ⟨next, outcome, called, kept, ?_⟩
      rw [ObjectVariables.process_rest called]
      intro other member
      exact plain other (List.mem_cons_of_mem _ member))
    ⟨start, plain⟩
  rcases run with ⟨known, final, completes, processed, _⟩
  rcases processed with ⟨consumed, lines, split, rootList, emitted, covers⟩
  rw [List.append_nil] at split
  subst split
  exact ⟨final, completes, lines, rootList, emitted.preservesMeaning covers⟩

/-- A click into a line edit and into the window, with the path of the edit twice. -/
def clicks : List Item :=
  let click (path : QString) : Item := ⟨.path path, [], "pressMouseButton", .map .empty⟩
  [.ofMethod "msleep" (.int 10), click "window::edit", .ofMethod "msleep" (.int 20),
    click "dialog::edit", .ofMethod "msleep" (.int 30), click "window::edit"]

theorem clicks_isRecording : IsRecording clicks := by
  apply IsRecording.pair 10 ⟨by decide, _, rfl⟩
  apply IsRecording.pair 20 ⟨by decide, _, rfl⟩
  apply IsRecording.pair 30 ⟨by decide, _, rfl⟩
  exact .nil

theorem clicks_preserveMeaning :
    ∃ final, (objectVariables fun _ => true).run [] clicks (Inserter.new []).clear =
      .ok final ∧ ∃ lines : List Line, final.rootList = lines.map Line.item ∧
        PreservesMeaning clicks (clicks.filter Item.isValid) lines :=
  run_preservesMeaning _ clicks [] clicks_isRecording.not_variable

/-- An item without a method does not come out of the pass. -/
theorem invalid_item_is_lost :
    ¬∃ final, (objectVariables fun _ => true).run [] [.empty] (Inserter.new []).clear =
      .ok final ∧ ∃ lines : List Line, final.rootList = lines.map Line.item ∧
        PreservesMeaning [.empty] [.empty] lines := by
  rintro ⟨final, completes, lines, rootList, preserves⟩
  have empty : (objectVariables fun _ => true).run [] [.empty] (Inserter.new []).clear =
      .ok ⟨[], 0, 0, 0⟩ := by
    decide +kernel
  rw [empty] at completes
  cases completes
  have noLines : lines = [] := List.map_eq_nil_iff.mp rootList.symm
  have restores := preserves.restores
  rw [noLines] at restores
  cases restores

end ObjectVariables

end Hooq

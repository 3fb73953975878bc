import Hooq.Script.Naming

/-!
# Texts and their variables

The last pass declares a variable for each distinct text at the front of the script, while
the items that use the variables are appended behind.
-/

namespace Hooq

namespace StringVariables

/-! ## The texts of a script -/

/-- The distinct texts of a script, in the order of their first use. -/
def distinctTexts (items : List Item) : List QString :=
  (typedTexts items).eraseDups

/-- The declarations of texts, numbered in their order. -/
def declarations (texts : List QString) : List Item :=
  texts.mapIdx declaration

/-- The names that are declared, with their texts. -/
def declaredTexts (texts : List QString) : List (QString × QString) :=
  texts.mapIdx fun position text => (variableName position, text)

/-- An item with a variable in place of its text. -/
def substitute (texts : List QString) (item : Item) : Item :=
  match item.typedText? with
  | some text => { item with parameters := .variable (variableName (texts.idxOf text)) }
  | none => item

/-- An item with the declared text in place of its variable. -/
def restoreText (declared : List (QString × QString)) (item : Item) : Item :=
  if item.method = QString.ofString "sendText" then
    match item.parameters with
    | .variable name =>
        match declared.lookup name with
        | some text => { item with parameters := .string text }
        | none => item
    | _ => item
  else
    item

/-- The script starts with the declarations of its texts, one for each, and the items behind
them are the items `kept` with variables in place of the texts. -/
structure PreservesTexts (items kept output : List Item) (body : List Item) : Prop where
  shape : output = declarations (distinctTexts items) ++ body
  texts : (distinctTexts items).Nodup
  used : ∀ text, text ∈ distinctTexts items ↔ text ∈ typedTexts items
  names : ((declaredTexts (distinctTexts items)).map Prod.fst).Nodup
  restores : body.map (restoreText (declaredTexts (distinctTexts items))) = kept

/-! ## Texts in the order of their first use -/

theorem mem_distinctTexts {items : List Item} {text : QString} :
    text ∈ distinctTexts items ↔ text ∈ typedTexts items :=
  List.mem_eraseDups

theorem distinctTexts_concat (front : List Item) (item : Item) :
    distinctTexts (front ++ [item]) = learn (distinctTexts front) item := by
  have split : typedTexts (front ++ [item]) = typedTexts front ++ item.typedText?.toList := by
    rw [typedTexts, List.filterMap_append]
    cases typed : item.typedText? <;> simp [typed, typedTexts]
  rw [distinctTexts, split, List.eraseDups_append, learn]
  cases typed : item.typedText? with
  | none => exact List.append_nil _
  | some text =>
      dsimp only [Option.toList]
      by_cases known : text ∈ typedTexts front
      · have nothing : [text].removeAll (typedTexts front) = [] := by simp [List.removeAll, known]
        rw [nothing, if_pos (mem_distinctTexts.mpr known)]
        exact List.append_nil _
      · have whole : [text].removeAll (typedTexts front) = [text] := by
          simp [List.removeAll, known]
        rw [whole, if_neg fun old => known (mem_distinctTexts.mp old)]
        rfl

theorem nodup_distinctTexts (items : List Item) : (distinctTexts items).Nodup := by
  induction items using List.reverseRecOn with
  | nil => exact List.nodup_nil
  | append_singleton items item ih =>
      rw [distinctTexts_concat]
      exact nodup_learn ih item

theorem declarations_concat (texts : List QString) (text : QString) :
    declarations (texts ++ [text]) = declarations texts ++ [declaration texts.length text] := by
  rw [declarations, List.mapIdx_concat]
  rfl

theorem length_declarations (texts : List QString) : (declarations texts).length = texts.length :=
  List.length_mapIdx

theorem declaredTexts_names (texts : List QString) :
    (declaredTexts texts).map Prod.fst = variableNames texts.length := by
  apply List.ext_getElem
  · simp [declaredTexts, variableNames]
  · intro position within _
    simp [declaredTexts, variableNames]

theorem nodup_names (texts : List QString) : ((declaredTexts texts).map Prod.fst).Nodup := by
  rw [declaredTexts_names]
  exact List.nodup_range.map variableName_injective

/-- A name leads to its own text. -/
theorem lookup_declaredTexts {texts : List QString} {text : QString} (known : text ∈ texts) :
    (declaredTexts texts).lookup (variableName (texts.idxOf text)) = some text := by
  have within := List.idxOf_lt_length_of_mem known
  have member : (variableName (texts.idxOf text), text) ∈ declaredTexts texts := by
    rw [declaredTexts, List.mem_mapIdx]
    exact ⟨texts.idxOf text, within, by rw [List.getElem_idxOf within]⟩
  rcases List.append_of_mem member with ⟨front, back, shape⟩
  apply List.lookup_eq_some_iff.mpr
  refine ⟨front, back, shape, ?_⟩
  intro pair isEarlier
  have distinct := nodup_names texts
  rw [shape, List.map_append, List.map_cons, List.nodup_append] at distinct
  have differs := distinct.2.2 pair.1 (List.mem_map_of_mem isEarlier) _ List.mem_cons_self
  simpa using differs.symm

/-! ## The pass -/

theorem substitute_of_none {item : Item} (untyped : item.typedText? = none)
    (texts : List QString) : substitute texts item = item := by
  rw [substitute, untyped]

/-- Learning more texts does not change the numbers of those that are known. -/
theorem substitute_concat {texts : List QString} {item : Item}
    (known : ∀ text ∈ item.typedText?, text ∈ texts) (more : List QString) :
    substitute (texts ++ more) item = substitute texts item := by
  rw [substitute, substitute]
  cases typed : item.typedText? with
  | none => rfl
  | some text =>
      dsimp only
      rw [List.idxOf_append_of_mem (known text typed)]

/-- Putting back the texts undoes putting in the variables, as long as every text is
declared and no variable stood in place of a text before. -/
theorem restoreText_substitute {texts : List QString} {item : Item}
    (known : ∀ text ∈ item.typedText?, text ∈ texts)
    (strings : item.method = QString.ofString "sendText" → ∃ text, item.parameters = .string text) :
    restoreText (declaredTexts texts) (substitute texts item) = item := by
  by_cases isText : item.method = QString.ofString "sendText"
  · rcases strings isText with ⟨text, isString⟩
    have typed : item.typedText? = some text := by rw [Item.typedText?, if_pos isText, isString]
    rw [substitute, typed, restoreText, if_pos isText]
    simp only [lookup_declaredTexts (known text typed)]
    rw [← isString]
  · rw [substitute_of_none (typedText?_of_method isText), restoreText, if_neg isText]

/-- What a call inserts: the declaration of a new text. -/
def newDeclarations (known : List QString) (item : Item) : List (Item × Position) :=
  match item.typedText? with
  | some text => if text ∈ known then [] else [(declaration known.length text, .beginning)]
  | none => []

theorem process_eq (known : List QString) (item : Item) (following : List Item)
    (strings : item.method = QString.ofString "sendText" → ∃ text, item.parameters = .string text) :
    process known item following =
      .ok (learn known item,
        ⟨substitute (learn known item) item, following, newDeclarations known item⟩) := by
  by_cases isText : item.method = QString.ofString "sendText"
  · rcases strings isText with ⟨text, isString⟩
    have typed : item.typedText? = some text := by rw [Item.typedText?, if_pos isText, isString]
    rw [process, if_neg (not_not.mpr isText), isString, learn, substitute, newDeclarations, typed]
    by_cases old : text ∈ known
    · simp only [if_pos old]
      rfl
    · have position : (known ++ [text]).idxOf text = known.length := by
        rw [List.idxOf_append_of_notMem old, List.idxOf_cons_self]
        rfl
      simp only [if_neg old, position]
  · have untyped := typedText?_of_method isText
    rw [process, if_pos isText, learn, substitute, newDeclarations, untyped]
    rfl

/-- The declarations stay in front, in the order of their numbers. -/
theorem insertAll_newDeclarations {known : List QString} {inserter : Inserter Item}
    {body : List Item} (start : inserter.originalStart = known.length)
    (rootList : inserter.rootList = declarations known ++ body) (item : Item) :
    (inserter.insertAll (newDeclarations known item)).originalStart =
        (learn known item).length ∧
      (inserter.insertAll (newDeclarations known item)).rootList =
        declarations (learn known item) ++ body := by
  rw [newDeclarations, learn]
  cases typed : item.typedText? with
  | none => exact ⟨start, rootList⟩
  | some text =>
      by_cases old : text ∈ known
      · simp only [if_pos old]
        exact ⟨start, rootList⟩
      · simp only [if_neg old]
        constructor
        · rw [List.length_append, List.length_singleton, Int.natCast_add, ← start]
          rfl
        · have place : inserter.originalStart = (declarations known).length := by
            rw [start, length_declarations]
          rw [declarations_concat, List.append_assoc]
          change insertAt inserter.rootList inserter.originalStart _ = _
          rw [rootList, insertAt_append place]
          rfl

/-- How far the pass has come: it has dealt with the items `consumed`. -/
structure Substitutes (consumed : List Item) (known : List QString) (inserter : Inserter Item) :
    Prop where
  texts : known = distinctTexts consumed
  start : inserter.originalStart = known.length
  rootList : inserter.rootList =
    declarations known ++ (consumed.filter Item.isValid).map (substitute known)

theorem isValid_substitute (texts : List QString) (item : Item) :
    (substitute texts item).isValid = item.isValid := by
  rw [substitute]
  split <;> rfl

theorem perform_start (outcome : Outcome) (inserter : Inserter Item) :
    (outcome.perform inserter).originalStart =
      (inserter.insertAll outcome.insertions).originalStart := by
  rw [Outcome.perform]
  cases outcome.iterator.isValid <;> rfl

/-- A call deals with its item. -/
theorem Substitutes.perform {consumed : List Item} {known : List QString}
    {inserter : Inserter Item} (substitutes : Substitutes consumed known inserter) (item : Item)
    (following : List Item) :
    Substitutes (consumed ++ [item]) (learn known item)
      ((⟨substitute (learn known item) item, following, newDeclarations known item⟩ :
        Outcome).perform inserter) := by
  have inserted := insertAll_newDeclarations substitutes.start substitutes.rootList item
  have renumbered : (consumed.filter Item.isValid).map (substitute known) =
      (consumed.filter Item.isValid).map (substitute (learn known item)) := by
    apply List.map_congr_left
    intro other member
    have isKnown : ∀ text ∈ other.typedText?, text ∈ known := by
      intro text typed
      rw [substitutes.texts, mem_distinctTexts]
      exact List.mem_filterMap.mpr ⟨other, List.mem_of_mem_filter member, typed⟩
    rw [learn]
    split
    · rfl
    · split
      · rfl
      · exact (substitute_concat isKnown _).symm
  refine ⟨?_, ?_, ?_⟩
  · rw [distinctTexts_concat, ← substitutes.texts]
  · rw [perform_start]
    exact inserted.1
  · rw [Outcome.rootList_perform]
    have emitted : (⟨substitute (learn known item) item, following, newDeclarations known item⟩ :
        Outcome).emitted = ([item].filter Item.isValid).map (substitute (learn known item)) := by
      rw [Outcome.emitted]
      cases valid : item.isValid <;> simp [isValid_substitute, valid]
    rw [emitted, List.filter_append, List.map_append, ← List.append_assoc, ← renumbered]
    exact congrArg (· ++ _) inserted.2

/-- The pass declares every text once and in the order of first use, and otherwise changes
nothing but to put variables in place of texts; items without a method are dropped. -/
theorem run_preservesTexts (items list : List Item)
    (strings : ∀ item ∈ items, item.method = QString.ofString "sendText" →
      ∃ text, item.parameters = .string text) :
    ∃ final body, stringVariables.run [] items (Inserter.new list).clear = .ok final ∧
      PreservesTexts items (items.filter Item.isValid) final.rootList body := by
  have start : ∃ consumed, items = consumed ++ items ∧
      Substitutes consumed [] (Inserter.new list).clear := ⟨[], rfl, rfl, rfl, rfl⟩
  rcases stringVariables.exists_run [] items (Inserter.new list).clear
    (fun known inserter remaining => ∃ consumed, items = consumed ++ remaining ∧
      Substitutes consumed known inserter) (by
      rintro known inserter item following ⟨consumed, shape, substitutes⟩
      have member : item ∈ items := by
        rw [shape]
        exact List.mem_append_right _ List.mem_cons_self
      refine ⟨_, _, process_eq known item following (strings item member), consumed ++ [item], ?_,
        substitutes.perform item following⟩
      rw [shape, List.append_assoc]
      rfl) start with ⟨known, final, completes, consumed, shape, substitutes⟩
  rw [List.append_nil] at shape
  subst shape
  have rootList := substitutes.rootList
  rw [substitutes.texts] at rootList
  refine ⟨final, _, completes, rootList, nodup_distinctTexts _, fun _ => mem_distinctTexts,
    nodup_names _, ?_⟩
  rw [List.map_map]
  apply List.map_congr_left _ |>.trans (List.map_id _)
  intro item member
  have isItem := List.mem_of_mem_filter member
  apply restoreText_substitute
  · intro text typed
    exact mem_distinctTexts.mpr (List.mem_filterMap.mpr ⟨item, isItem, typed⟩)
  · exact strings item isItem

/-! ## Two texts, one of them twice -/

/-- Items that send a text to a line edit. -/
def sendTo (text : QString) : Item :=
  ⟨.path "window::edit", "QLineEdit", "sendText", .string text⟩

def texts : List Item :=
  [sendTo "b", .ofMethod "msleep" (.int 10), sendTo "a\"", sendTo "b"]

theorem texts_preserved :
    ∃ final body, stringVariables.run [] texts (Inserter.new []).clear = .ok final ∧
      PreservesTexts texts (texts.filter Item.isValid) final.rootList body := by
  apply run_preservesTexts
  intro item member _
  simp only [texts, List.mem_cons, List.not_mem_nil, or_false] at member
  rcases member with rfl | rfl | rfl | rfl
  · exact ⟨_, rfl⟩
  · exact absurd ‹_› (by decide)
  · exact ⟨_, rfl⟩
  · exact ⟨_, rfl⟩

/-- An item without a method does not come back. -/
theorem invalid_item_not_restored :
    ¬∃ final body, stringVariables.run [] [.empty] (Inserter.new []).clear = .ok final ∧
      PreservesTexts [.empty] [.empty] final.rootList body := by
  rintro ⟨final, body, completes, preserves⟩
  have empty : stringVariables.run [] [.empty] (Inserter.new []).clear = .ok ⟨[], 0, 0, 0⟩ := by
    decide +kernel
  rw [empty] at completes
  cases completes
  have shape : body = [] := (List.append_eq_nil_iff.mp preserves.shape.symm).2
  have restores := preserves.restores
  rw [shape] at restores
  cases restores

end StringVariables

end Hooq

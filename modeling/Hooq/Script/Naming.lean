import Mathlib.Data.List.Dedup
import Hooq.Script.Completion
import Hooq.Script.Names
import Hooq.Script.Parse

/-!
# Naming

The two passes that introduce variables make their names each in its own way: from the
names of the objects in the tested application, and by counting texts.
-/

namespace Hooq

/-! ## The passes in front -/

theorem undeclared_empty : Undeclared .empty := rfl

theorem undeclared_of_method {item : Item} {method : QString} (same : item.method = method)
    (plain : (QString.ofString "var ").isPrefixOf method = false) : Undeclared item := by
  rw [Undeclared, Item.isDeclaration, same, plain]

/-- Items are only left out, or emptied. -/
theorem filterQtInternals_preserves_of {Good : Item → Prop} (empty : Good .empty) :
    filterQtInternals.Preserves Good := by
  intro state item input next outcome processed good
  have processed := ofProcess_ok processed
  constructor
  · intro other member
    rw [Outcome.mem_emitted member]
    rcases FilterQtInternals.process_ok processed with ⟨_, rfl⟩ | ⟨_, first, rest, rfl, rfl⟩
    · exact good item List.mem_cons_self
    · exact empty
  · rw [FilterQtInternals.process_insertions processed]
    exact fun _ impossible => absurd impossible List.not_mem_nil

theorem StripMouseMovements.process_iterator {item : Item} {input : List Item} {outcome : Outcome}
    (processed : process item input = .ok outcome) :
    outcome.iterator = .empty ∨ outcome.iterator ∈ item :: input := by
  fun_induction process item input with
  | case1 =>
      cases processed
      exact .inl rfl
  | case2 | case4 => cases processed
  | case3 item _ msec following rest _ ih =>
      apply (ih processed).imp_right
      exact fun member => List.mem_cons_of_mem _ (List.mem_cons_of_mem _ member)
  | case5 =>
      cases processed
      exact .inr List.mem_cons_self

theorem stripMouseMovements_preserves_of {Good : Item → Prop} (empty : Good .empty) :
    stripMouseMovements.Preserves Good := by
  intro state item input next outcome processed good
  have processed := ofProcess_ok processed
  constructor
  · intro other member
    rw [Outcome.mem_emitted member]
    rcases StripMouseMovements.process_iterator processed with isEmpty | isOld
    · rw [isEmpty]
      exact empty
    · exact good _ isOld
  · rw [StripMouseMovements.process_insertions processed]
    exact fun _ impossible => absurd impossible List.not_mem_nil

theorem simplifyMouseMovements_undeclared : simplifyMouseMovements.Preserves Undeclared :=
  simplifyMouseMovements_preserves_of fun _ _ _ _ isMove => undeclared_of_method isMove (by decide)

theorem simplifyStrings_undeclared : simplifyStrings.Preserves Undeclared :=
  simplifyStrings_preserves_of undeclared_empty fun item text _ =>
    have method : (SimplifyStrings.sendText item text).method = QString.ofString "sendText" := rfl
    undeclared_of_method method (by decide)

/-- The passes that run before variables are introduced. -/
def filters (options : Options) : List PostProcessor :=
  (if options.filterQtInternals then [filterQtInternals] else []) ++
  (if options.skipMouseMovements then [stripMouseMovements] else []) ++
  (if options.simplifyMouseMovements then [simplifyMouseMovements] else []) ++
  (if options.simplifyStrings then [simplifyStrings] else [])

theorem filters_undeclared (options : Options) :
    ∀ processor ∈ filters options, processor.Preserves Undeclared := by
  intro processor member
  simp only [filters, List.mem_append, List.mem_ite_nil_right, List.mem_singleton] at member
  rcases member with ((⟨_, rfl⟩ | ⟨_, rfl⟩) | ⟨_, rfl⟩) | ⟨_, rfl⟩
  · exact filterQtInternals_preserves_of undeclared_empty
  · exact stripMouseMovements_preserves_of undeclared_empty
  · exact simplifyMouseMovements_undeclared
  · exact simplifyStrings_undeclared

/-- The first processor completes, and the others run on what it leaves. -/
theorem runAll_cons_ok {processor : PostProcessor} {rest : List PostProcessor}
    {input list output : List Item}
    (completes : runAll (processor :: rest) input (.new list) = .ok output) :
    ∃ final, processor.run processor.initial input (Inserter.new list).clear = .ok final ∧
      runAll rest final.rootList (.new final.rootList) = .ok output := by
  rw [runAll] at completes
  cases ran : processor.run processor.initial input (Inserter.new list).clear with
  | error fault =>
      rw [ran] at completes
      cases completes
  | ok final =>
      rw [ran] at completes
      exact ⟨final, rfl, completes⟩

/-- What every processor preserves holds of what the last one leaves. -/
theorem good_runAll {Good : Item → Prop} {processors : List PostProcessor}
    {input list output : List Item}
    (preserve : ∀ processor ∈ processors, processor.Preserves Good)
    (completes : runAll processors input (.new list) = .ok output)
    (good : ∀ item ∈ input, Good item) : ∀ item ∈ output, Good item := by
  induction processors generalizing input list with
  | nil =>
      cases completes
      exact good
  | cons processor rest ih =>
      obtain ⟨final, ran, later⟩ := runAll_cons_ok completes
      have first := (preserve processor List.mem_cons_self).run ran good
      exact ih (fun other member => preserve other (List.mem_cons_of_mem _ member)) later first

/-- The processors at the end of a pipeline run on what those before them leave. -/
theorem runAll_append {front : List PostProcessor} {input list middle : List Item}
    (first : runAll front input (.new list) = .ok middle) (back : List PostProcessor) :
    ∃ later : List Item, runAll (front ++ back) input (.new list) =
      runAll back middle (.new later) := by
  induction front generalizing input list with
  | nil =>
      cases first
      exact ⟨list, rfl⟩
  | cons processor rest ih =>
      rw [runAll] at first
      rw [List.cons_append, runAll]
      cases ran : processor.run processor.initial input (Inserter.new list).clear with
      | error fault =>
          rw [ran] at first
          cases first
      | ok final =>
          rw [ran] at first
          exact ih first

/-! ## The passes that declare -/

namespace ObjectVariables

variable {tables : CharacterTables}

theorem space_not_mem_toKeyword (tables : CharacterTables) (text : QString) :
    0x20 ∉ toKeyword tables.isLetterOrNumber text := by
  rw [tables.toKeyword_eq_map]
  intro member
  obtain ⟨character, _, isSpace⟩ := List.mem_map.mp member
  rw [CharacterTables.keywordCharacter] at isSpace
  split at isSpace
  next isPlain =>
    rw [isSpace, CharacterTables.isLetterOrNumber, tables.category_ascii (by decide)] at isPlain
    exact absurd isPlain (by decide)
  next => exact absurd isSpace (by decide)

theorem space_not_mem_numbered {name : QString} (solid : 0x20 ∉ name) (count : Nat) :
    0x20 ∉ numbered name count := by
  rw [numbered, List.mem_append, List.mem_append, not_or, not_or]
  exact ⟨⟨solid, by decide⟩, fun member => absurd (QString.isDigit_of_mem_number member) (by decide)⟩

theorem space_not_mem_chooseName (known : Variables) (path : QString) :
    0x20 ∉ chooseName tables.isLetterOrNumber known path := by
  have solid := space_not_mem_toKeyword tables
  have above : ∀ part, 0x20 ∉ toKeyword tables.isLetterOrNumber part ++ QString.ofString "__" ++
      keyword tables path := by
    intro part
    rw [List.mem_append, List.mem_append, not_or, not_or]
    exact ⟨⟨solid part, by decide⟩, solid _⟩
  by_cases taken : keyword tables path ∈ known.map Prod.snd
  · rw [chooseName_of_taken taken]
    cases partAbove path with
    | none =>
        dsimp only
        split
        · exact solid _
        · exact space_not_mem_numbered (solid _) _
    | some part =>
        dsimp only
        split
        · exact above part
        · exact space_not_mem_numbered (above part) _
  · rw [chooseName_of_free taken]
    exact solid _

theorem declaredName?_declaration (known : Variables) (path : QString) :
    (declaration (chooseName tables.isLetterOrNumber known path) path).declaredName? =
      some (chooseName tables.isLetterOrNumber known path) :=
  declaredName?_of_method (space_not_mem_chooseName known path) rfl

/-- A call declares the name that it learns. -/
theorem process_declares {known next : Variables} {item : Item} {input : List Item}
    {outcome : Outcome} (undeclared : Undeclared item)
    (processed : process tables.isLetterOrNumber known item input = .ok (next, outcome)) :
    next = learn tables known item ∧
      (next.map Prod.snd).Perm (known.map Prod.snd ++
        (declaredNames (outcome.insertions.map Prod.fst) ++ declaredNames outcome.emitted)) := by
  have plain : ∀ target, ({ item with target := target } : Item).declaredName? = none := by
    intro target
    have same : ({ item with target := target } : Item).declaredName? = item.declaredName? :=
      declaredName?_congr rfl
    rw [same, Item.declaredName?, undeclared]
    rfl
  rw [declaredNames_emitted]
  rcases process_ok processed with
    ⟨isNull, rfl, rfl⟩ | ⟨path, isPath, ⟨name, found, rfl, rfl⟩ | ⟨isNew, rfl, rfl⟩⟩
  · refine ⟨by simp only [learn, isNull], ?_⟩
    have none := plain item.target
    simp [Outcome.unchanged, declaredNames, none]
  · refine ⟨by simp only [learn, isPath, found], ?_⟩
    simp [Outcome.unchanged, declaredNames, plain]
  · refine ⟨(learn_of_new isPath isNew).symm, ?_⟩
    rw [plain, List.map_cons, List.map_cons, List.map_nil, declaredNames_cons,
      declaredName?_declaration]
    exact (List.perm_append_singleton _ _).symm

/-- The pass declares the names that it learns. -/
theorem run_declares {input list : List Item} {final : Inserter Item}
    (undeclared : ∀ item ∈ input, Undeclared item)
    (completes : (objectVariables tables.isLetterOrNumber).run [] input
      (Inserter.new list).clear = .ok final) :
    (declaredNames final.rootList).Perm ((input.foldl (learn tables) []).map Prod.snd) := by
  have invariant := (objectVariables tables.isLetterOrNumber).run_invariant
    (fun known inserter remaining => (∀ item ∈ remaining, Undeclared item) ∧
      (declaredNames inserter.rootList).Perm (known.map Prod.snd) ∧
      remaining.foldl (learn tables) known = input.foldl (learn tables) [])
    (by
      rintro known inserter item remaining next outcome processed ⟨undeclared, declared, learnt⟩
      obtain ⟨isNext, names⟩ := process_declares (undeclared item List.mem_cons_self) processed
      rw [process_rest processed]
      refine ⟨fun other member => undeclared other (List.mem_cons_of_mem _ member), ?_, ?_⟩
      · refine (filterMap_perform Item.declaredName? outcome inserter).trans ?_
        exact (declared.append_right _).trans names.symm
      · rw [isNext, ← learnt]
        rfl)
    ⟨undeclared, List.Perm.refl _, rfl⟩ completes
  obtain ⟨known, _, declared, learnt⟩ := invariant
  rw [← learnt]
  exact declared

/-- The names for the objects are different. -/
theorem nodup_learn {known : Variables} (distinct : (known.map Prod.snd).Nodup) (item : Item) :
    ((learn tables known item).map Prod.snd).Nodup := by
  rcases learn_cases tables known item with ⟨_, same⟩ | ⟨path, isPath, isNew⟩
  · rw [same]
    exact distinct
  · rw [learn_of_new isPath isNew, List.map_cons, List.nodup_cons]
    exact ⟨chooseName_not_mem tables.isLetterOrNumber known path, distinct⟩

theorem nodup_foldl_learn {known : Variables} (distinct : (known.map Prod.snd).Nodup)
    (items : List Item) : ((items.foldl (learn tables) known).map Prod.snd).Nodup := by
  induction items generalizing known with
  | nil => exact distinct
  | cons item items ih => exact ih (nodup_learn distinct item)

end ObjectVariables

/-! ## Typed texts -/

/-- The text that an item types, if it is written out. -/
def Item.typedText? (item : Item) : Option QString :=
  if item.method = QString.ofString "sendText" then
    match item.parameters with
    | .string text => some text
    | _ => none
  else
    none

/-- The texts that a list of items types. -/
def typedTexts (items : List Item) : List QString :=
  items.filterMap Item.typedText?

theorem typedText?_of_method {item : Item} (other : item.method ≠ QString.ofString "sendText") :
    item.typedText? = none :=
  if_neg other

theorem typedText?_of_invalid (item : Item) (invalid : item.isValid = false) :
    item.typedText? = none := by
  have noMethod : item.method = [] := by simpa [Item.isValid] using invalid
  apply typedText?_of_method
  rw [noMethod]
  decide

namespace ObjectVariables

variable {tables : CharacterTables}

theorem typedText?_declaration (name path : QString) :
    (declaration name path).typedText? = none := by
  apply typedText?_of_method
  intro same
  have isDeclaration := isDeclaration_declaration name path
  rw [Item.isDeclaration, same] at isDeclaration
  exact absurd isDeclaration (by decide)

/-- A call leaves the typed texts as they are. -/
theorem process_typed {known next : Variables} {item : Item} {input : List Item}
    {outcome : Outcome}
    (processed : process tables.isLetterOrNumber known item input = .ok (next, outcome)) :
    typedTexts (outcome.insertions.map Prod.fst) = [] ∧
      outcome.iterator.typedText? = item.typedText? := by
  rcases process_ok processed with ⟨_, _, rfl⟩ | ⟨path, _, ⟨name, _, _, rfl⟩ | ⟨_, _, rfl⟩⟩
  · exact ⟨rfl, rfl⟩
  · exact ⟨rfl, rfl⟩
  · refine ⟨?_, rfl⟩
    simp [typedTexts, typedText?_declaration]

/-- The pass leaves the typed texts as they are. -/
theorem run_typed {input list : List Item} {final : Inserter Item}
    (completes : (objectVariables tables.isLetterOrNumber).run [] input
      (Inserter.new list).clear = .ok final) :
    (typedTexts final.rootList).Perm (typedTexts input) := by
  have invariant := (objectVariables tables.isLetterOrNumber).run_invariant
    (fun _ inserter remaining =>
      (typedTexts inserter.rootList ++ typedTexts remaining).Perm (typedTexts input))
    (by
      intro known inserter item remaining next outcome processed typed
      obtain ⟨inserted, emitted⟩ := process_typed processed
      rw [process_rest processed]
      refine List.Perm.trans ?_ typed
      have added := filterMap_perform Item.typedText? outcome inserter
      rw [filterMap_emitted typedText?_of_invalid, emitted] at added
      refine (added.append_right _).trans ?_
      change (typedTexts inserter.rootList ++ (typedTexts _ ++ _) ++ typedTexts remaining).Perm _
      rw [inserted, List.nil_append, List.append_assoc]
      cases text : item.typedText? <;> simp [typedTexts, text])
    (List.Perm.refl _) completes
  obtain ⟨_, typed⟩ := invariant
  have nothing : typedTexts [] = [] := rfl
  rw [nothing, List.append_nil] at typed
  exact typed

end ObjectVariables

namespace StringVariables

/-- What a call adds to the known texts. -/
def learn (known : List QString) (item : Item) : List QString :=
  match item.typedText? with
  | none => known
  | some text => if text ∈ known then known else known ++ [text]

/-- The names that are declared for so many texts. -/
def variableNames (count : Nat) : List QString :=
  (List.range count).map variableName

theorem variableNames_succ (count : Nat) :
    variableNames (count + 1) = variableNames count ++ [variableName count] := by
  rw [variableNames, List.range_succ, List.map_append]
  rfl

theorem space_not_mem_variableName (position : Nat) : 0x20 ∉ variableName position := by
  rw [variableName, List.mem_append, not_or]
  exact ⟨by decide, fun member => absurd (QString.isDigit_of_mem_number member) (by decide)⟩

theorem declaredName?_declaration (position : Nat) (text : QString) :
    (declaration position text).declaredName? = some (variableName position) := by
  apply declaredName?_of_method (space_not_mem_variableName position)
  change QString.ofString "var " ++ variableName position ++ QString.ofString " = \"" ++
    escapeString text ++ QString.ofString "\"" = _
  simp only [List.append_assoc]
  rfl

/-- A call declares a name for the text that it learns. -/
theorem process_declares {known next : List QString} {item : Item} {input : List Item}
    {outcome : Outcome} (processed : process known item input = .ok (next, outcome)) :
    next = learn known item ∧
      variableNames next.length =
        variableNames known.length ++ declaredNames (outcome.insertions.map Prod.fst) ∧
      outcome.iterator.declaredName? = item.declaredName? := by
  rcases process_ok processed with ⟨other, rfl, rfl⟩ | ⟨isText, value, isString, known⟩
  · refine ⟨?_, (List.append_nil _).symm, rfl⟩
    rw [learn, typedText?_of_method other]
  · have typed : item.typedText? = some value := by
      rw [Item.typedText?, if_pos isText, isString]
    rcases known with ⟨old, rfl, rfl⟩ | ⟨new, rfl, rfl⟩
    · refine ⟨?_, (List.append_nil _).symm, declaredName?_congr rfl⟩
      simp only [learn, typed, old, if_true]
    · refine ⟨?_, ?_, declaredName?_congr rfl⟩
      · simp only [learn, typed, new, if_false]
      · rw [List.length_append, List.length_singleton, variableNames_succ, List.map_cons,
          List.map_nil, declaredNames_cons, declaredName?_declaration]
        rfl

/-- The pass declares a name for each text and keeps the names declared before. -/
theorem run_declares {input list : List Item} {final : Inserter Item}
    (completes : stringVariables.run [] input (Inserter.new list).clear = .ok final) :
    (declaredNames final.rootList).Perm
      (declaredNames input ++ variableNames (input.foldl learn []).length) := by
  have invariant := stringVariables.run_invariant
    (fun known inserter remaining =>
      (declaredNames inserter.rootList ++ declaredNames remaining).Perm
        (declaredNames input ++ variableNames (List.length known)) ∧
      remaining.foldl learn known = input.foldl learn [])
    (by
      rintro known inserter item remaining next outcome processed ⟨declared, learnt⟩
      obtain ⟨isNext, names, same⟩ := process_declares processed
      rw [process_rest processed]
      refine ⟨?_, isNext ▸ learnt⟩
      rw [names, ← List.append_assoc]
      refine List.Perm.trans ?_ (declared.append_right _)
      have added := filterMap_perform Item.declaredName? outcome inserter
      rw [filterMap_emitted declaredName?_of_invalid, same] at added
      refine (added.append_right _).trans ?_
      rw [declaredNames_cons, List.append_assoc, List.append_assoc, List.append_assoc]
      apply List.Perm.append_left
      exact List.perm_append_comm)
    ⟨(List.append_nil _).symm ▸ List.Perm.refl _, rfl⟩ completes
  obtain ⟨known, declared, learnt⟩ := invariant
  have nothing : declaredNames [] = [] := rfl
  rw [nothing, List.append_nil] at declared
  rw [← learnt]
  exact declared

theorem mem_learn {known : List QString} {item : Item} {text : QString} :
    text ∈ learn known item ↔ text ∈ known ∨ item.typedText? = some text := by
  rw [learn]
  cases item.typedText? with
  | none => simp
  | some value =>
      dsimp only
      split
      next old =>
        refine ⟨.inl, ?_⟩
        rintro (isKnown | ⟨⟨⟩⟩)
        · exact isKnown
        · exact old
      next => simp [eq_comm]

theorem nodup_learn {known : List QString} (distinct : known.Nodup) (item : Item) :
    (learn known item).Nodup := by
  rw [learn]
  cases item.typedText? with
  | none => exact distinct
  | some value =>
      dsimp only
      split
      next => exact distinct
      next new => exact List.concat_eq_append ▸ distinct.concat new

theorem nodup_foldl_learn {known : List QString} (distinct : known.Nodup) (items : List Item) :
    (items.foldl learn known).Nodup := by
  induction items generalizing known with
  | nil => exact distinct
  | cons item items ih => exact ih (nodup_learn distinct item)

theorem mem_foldl_learn {known : List QString} {items : List Item} {text : QString} :
    text ∈ items.foldl learn known ↔ text ∈ known ∨ text ∈ typedTexts items := by
  induction items generalizing known with
  | nil => simp [typedTexts]
  | cons item items ih =>
      have cons : text ∈ typedTexts (item :: items) ↔
          item.typedText? = some text ∨ text ∈ typedTexts items := by
        rw [typedTexts, List.mem_filterMap, List.exists_mem_cons_iff]
        exact or_congr_right List.mem_filterMap.symm
      rw [List.foldl_cons, ih, mem_learn, cons, or_assoc]

/-- The known texts are the different ones of those typed. -/
theorem length_foldl_learn (items : List Item) :
    (items.foldl learn []).length = (typedTexts items).dedup.length := by
  apply List.Perm.length_eq
  rw [List.perm_ext_iff_of_nodup (nodup_foldl_learn List.nodup_nil items)
    (List.nodup_dedup _)]
  intro text
  rw [mem_foldl_learn, List.mem_dedup]
  exact or_iff_right List.not_mem_nil

end StringVariables

/-! ## Scripts with legal names -/

/-- Different identifiers that no global has. -/
structure LegalNames (tables : CharacterTables) (names : List QString) : Prop where
  identifiers : ∀ name ∈ names, tables.IsIdentifier name
  distinct : names.Nodup
  free : ∀ name ∈ names, name ∉ scriptGlobals

/-- The names that a script declares are legal. -/
def DeclaresLegally (tables : CharacterTables) (script : List Item) : Prop :=
  LegalNames tables (declaredNames script)

theorem LegalNames.perm {tables : CharacterTables} {names others : List QString}
    (same : names.Perm others) : LegalNames tables names ↔ LegalNames tables others := by
  constructor
  · intro legal
    exact ⟨fun name member => legal.identifiers name (same.mem_iff.mpr member),
      same.nodup_iff.mp legal.distinct, fun name member => legal.free name (same.mem_iff.mpr member)⟩
  · intro legal
    exact ⟨fun name member => legal.identifiers name (same.mem_iff.mp member),
      same.nodup_iff.mpr legal.distinct, fun name member => legal.free name (same.mem_iff.mp member)⟩

section

variable {tables : CharacterTables}

theorem variableName_injective : Function.Injective StringVariables.variableName := by
  intro first second same
  exact Int.ofNat.inj (QString.number_injective (List.append_cancel_left same))

/-- The names for texts are legal. -/
theorem legalNames_variableNames (tables : CharacterTables) (count : Nat) :
    LegalNames tables (StringVariables.variableNames count) := by
  have unreserved : ∀ position, StringVariables.variableName position ∉
      reservedWords ++ scriptGlobals := by
    intro position member
    have plain : (reservedWords ++ scriptGlobals).all
        (fun word => !(QString.ofString "string").isPrefixOf word) = true := by
      decide +kernel
    have noPrefix := List.all_eq_true.mp plain _ member
    have isPrefix : (QString.ofString "string").isPrefixOf
        (StringVariables.variableName position) = true :=
      List.isPrefixOf_iff_prefix.mpr (List.prefix_append _ _)
    rw [isPrefix] at noPrefix
    exact absurd noPrefix (by decide)
  refine ⟨?_, List.nodup_range.map variableName_injective, ?_⟩
  · intro name member
    obtain ⟨position, _, rfl⟩ := List.mem_map.mp member
    refine ⟨?_, fun isReserved => unreserved position (List.mem_append_left _ isReserved)⟩
    exact ObjectVariables.isIdentifierName_append
      (tables.isIdentifierName_of_letters (by decide) (by decide))
      (ObjectVariables.all_parts_number position)
  · intro name member isGlobal
    obtain ⟨position, _, rfl⟩ := List.mem_map.mp member
    exact unreserved position (List.mem_append_right _ isGlobal)

/-- Names for objects go with those for texts if they are legal. -/
theorem legalNames_append_iff {objects : List QString} (distinct : objects.Nodup)
    (strings : Nat) :
    LegalNames tables (objects ++ StringVariables.variableNames strings) ↔
      ∀ name ∈ objects, ObjectVariables.IsLegal tables strings name := by
  have texts := legalNames_variableNames tables strings
  constructor
  · intro legal name member
    have both := List.mem_append_left (StringVariables.variableNames strings) member
    have identifier := legal.identifiers name both
    refine ⟨identifier.1, ?_⟩
    rw [forbidden, List.mem_append, List.mem_append]
    rintro ((isReserved | isGlobal) | isText)
    · exact identifier.2 isReserved
    · exact legal.free name both isGlobal
    · exact (List.nodup_append.mp legal.distinct).2.2 name member name isText rfl
  · intro legal
    have parts : ∀ name ∈ objects, name ∉ reservedWords ∧ name ∉ scriptGlobals ∧
        name ∉ StringVariables.variableNames strings := by
      intro name member
      have allowed := (legal name member).2
      rw [forbidden, List.mem_append, List.mem_append, not_or, not_or] at allowed
      exact ⟨allowed.1.1, allowed.1.2, allowed.2⟩
    refine ⟨?_, ?_, ?_⟩
    · intro name member
      rcases List.mem_append.mp member with isObject | isText
      · exact ⟨(legal name isObject).1, (parts name isObject).1⟩
      · exact texts.identifiers name isText
    · apply distinct.append texts.distinct
      intro name isObject isText
      exact (parts name isObject).2.2 isText
    · intro name member
      rcases List.mem_append.mp member with isObject | isText
      · exact (parts name isObject).2.1
      · exact texts.free name isText

end

/-- How many texts get a variable. -/
def declaredStrings (options : Options) (items : List Item) : Nat :=
  if options.stringVariables then (typedTexts items).dedup.length else 0

/-- The names that a script declares, when the passes in front leave a list of items. -/
theorem declaredNames_postProcess {tables : CharacterTables} {options : Options}
    {items named output : List Item} (objects : options.objectVariables = true)
    (undeclared : ∀ item ∈ items, Undeclared item)
    (filtered : runAll (filters options) items (.new []) = .ok named)
    (completes : postProcess tables.isLetterOrNumber options items = .ok output) :
    (declaredNames output).Perm
      ((named.foldl (ObjectVariables.learn tables) []).map Prod.snd ++
        StringVariables.variableNames (declaredStrings options named)) := by
  have plain := good_runAll (filters_undeclared options) filtered undeclared
  have shape : postProcessors tables.isLetterOrNumber options =
      filters options ++ (objectVariables tables.isLetterOrNumber ::
        if options.stringVariables then [stringVariables] else []) := by
    rw [postProcessors, objects, if_pos rfl, List.append_assoc _ [_]]
    rfl
  obtain ⟨list, behind⟩ := runAll_append filtered
    (objectVariables tables.isLetterOrNumber ::
      if options.stringVariables then [stringVariables] else [])
  rw [postProcess, shape, behind] at completes
  obtain ⟨middle, ran, later⟩ := runAll_cons_ok completes
  have declared := ObjectVariables.run_declares plain ran
  rw [declaredStrings]
  split at later
  next strings =>
    obtain ⟨final, ranStrings, last⟩ := runAll_cons_ok later
    cases last
    have typed := (ObjectVariables.run_typed ran).dedup.length_eq
    have names := StringVariables.run_declares ranStrings
    rw [StringVariables.length_foldl_learn, typed] at names
    rw [if_pos strings]
    exact names.trans (declared.append_right _)
  next strings =>
    cases later
    rw [if_neg strings]
    exact (List.append_nil _).symm ▸ declared

theorem undeclared_parse {element : Element} {item : Item}
    (parsed : XmlToQtScript.parseElement element = some item) : Undeclared item := by
  cases XmlToQtScript.parses_of_parseElement parsed with
  | key =>
      change (QString.ofString "var ").isPrefixOf (ite _ _ _) = false
      split_ifs <;> decide
  | mouse =>
      change (QString.ofString "var ").isPrefixOf (ite _ _ _) = false
      split_ifs <;> decide
  | _ => rfl

/-- A script with variables for objects declares only legal names exactly when the
path of every object that gets a name fits. -/
theorem declaresLegally_iff (tables : CharacterTables) (options : Options)
    (objects : options.objectVariables = true) {elements : List Element}
    {named output : List Item}
    (filtered : runAll (filters options) (elements.filterMap XmlToQtScript.parseElement)
      (.new []) = .ok named)
    (completes : postProcess tables.isLetterOrNumber options
      (elements.filterMap XmlToQtScript.parseElement) = .ok output) :
    DeclaresLegally tables output ↔
      Library.Run.StepsMeet (ObjectVariables.learn tables)
        (ObjectVariables.ItemFits tables (declaredStrings options named)) [] named := by
  have undeclared : ∀ item ∈ elements.filterMap XmlToQtScript.parseElement, Undeclared item := by
    intro item member
    obtain ⟨element, _, parsed⟩ := List.mem_filterMap.mp member
    exact undeclared_parse parsed
  have start : (([] : ObjectVariables.Variables).map Prod.snd).Nodup := List.nodup_nil
  have distinct : ((named.foldl (ObjectVariables.learn tables) []).map Prod.snd).Nodup :=
    ObjectVariables.nodup_foldl_learn start named
  have names := declaredNames_postProcess objects undeclared filtered completes
  rw [DeclaresLegally, LegalNames.perm names, legalNames_append_iff distinct]
  exact ObjectVariables.allLegal_foldl_iff named

/-- A window with one object is closed. -/
def closeRecording (path : QString) : List Element :=
  [⟨"msec", [], "10"⟩, ⟨"windowClosed", [("target", path), ("targetClass", "QWidget")], []⟩]

def onlyObjectVariables : Options :=
  ⟨false, false, true, false, false, false⟩

def closeScript (path name : QString) : List Item :=
  [ObjectVariables.declaration name path, .ofMethod "msleep" (.int 10),
    ⟨.variable name, "QWidget", "close", .invalid⟩]

theorem closeScript_declares_window :
    DeclaresLegally separatorTables (closeScript "main::window" "window") := by
  have named : runAll (filters onlyObjectVariables)
      ((closeRecording "main::window").filterMap XmlToQtScript.parseElement) (.new []) =
        .ok [.ofMethod "msleep" (.int 10),
          ⟨.path "main::window", "QWidget", "close", .invalid⟩] := by
    decide +kernel
  have completes : postProcess separatorTables.isLetterOrNumber onlyObjectVariables
      ((closeRecording "main::window").filterMap XmlToQtScript.parseElement) =
        .ok (closeScript "main::window" "window") := by
    decide +kernel
  apply (declaresLegally_iff separatorTables onlyObjectVariables rfl named completes).mpr
  refine Library.Run.StepsMeet.cons nofun (Library.Run.StepsMeet.cons ?_ .nil)
  rintro path ⟨⟩ _
  refine ⟨by decide, ⟨?_, ?_⟩, by decide +kernel, ?_⟩
  · rintro character ⟨⟩
    decide
  · have plain : (QString.ofString "window").all
        (fun character => !separatorTables.isOtherNumber character) = true := by
      decide +kernel
    intro character member
    have same : ObjectVariables.lastPart (QString.ofString "main::window") =
        QString.ofString "window" := by
      decide +kernel
    simpa using List.all_eq_true.mp plain character (same ▸ member)
  · intro taken
    cases taken

/-- An object can have a name that begins with a digit. -/
theorem digit_not_declared_legally :
    ¬ ∀ (tables : CharacterTables) (options : Options) (elements : List Element)
      (output : List Item), options.objectVariables = true →
      postProcess tables.isLetterOrNumber options
        (elements.filterMap XmlToQtScript.parseElement) = .ok output →
      DeclaresLegally tables output := by
  intro always
  have completes : postProcess separatorTables.isLetterOrNumber onlyObjectVariables
      ((closeRecording "1").filterMap XmlToQtScript.parseElement) =
        .ok (closeScript "1" "1") := by
    decide +kernel
  have legal := always separatorTables onlyObjectVariables (closeRecording "1") _ rfl completes
  have identifier := legal.identifiers (QString.ofString "1") (by decide +kernel)
  exact absurd identifier (by decide +kernel)

end Hooq

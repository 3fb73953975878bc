import Hooq.Library.Run
import Hooq.Script.Identifiers
import Hooq.Script.Recording

/-!
# Names of declared variables

The names that a list of items declares, and which of those that `ObjectVariables` chooses
are identifiers that mean nothing else.
-/

namespace Hooq

/-! ## Declared names -/

namespace Item

/-- The name that a declaration begins with. -/
def declaredName? (item : Item) : Option QString :=
  if item.isDeclaration then some ((item.method.drop 4).takeWhile (· ≠ 0x20)) else none

end Item

/-- The names that a list of items declares. -/
def declaredNames (items : List Item) : List QString :=
  items.filterMap Item.declaredName?

/-- Nothing is declared. -/
abbrev Undeclared (item : Item) : Prop :=
  item.isDeclaration = false

theorem declaredName?_of_method {item : Item} {name back : QString} (noSpace : 0x20 ∉ name)
    (method : item.method = QString.ofString "var " ++ name ++ 0x20 :: back) :
    item.declaredName? = some name := by
  have isDeclaration : item.isDeclaration = true := by
    rw [Item.isDeclaration, method, List.append_assoc, List.isPrefixOf_iff_prefix]
    exact List.prefix_append _ _
  have behind : item.method.drop 4 = name ++ 0x20 :: back := by
    rw [method, List.append_assoc]
    rfl
  have taken : (name ++ 0x20 :: back).takeWhile (· ≠ (0x20 : QChar)) = name := by
    rw [List.takeWhile_append_of_pos]
    · simp
    · intro character member
      exact decide_eq_true fun isSpace => noSpace (isSpace ▸ member)
  rw [Item.declaredName?, if_pos isDeclaration, behind, taken]

theorem insertAt_perm {α : Type} (list : List α) (index : Int) (value : α) :
    (insertAt list index value).Perm (list ++ [value]) := by
  rw [insertAt]
  refine (List.perm_middle).trans ?_
  rw [List.take_append_drop]
  exact (List.perm_append_singleton value list).symm

/-- Wherever items are inserted, they are in the list afterwards. -/
theorem insertAll_perm (inserter : Inserter Item) (insertions : List (Item × Position)) :
    (inserter.insertAll insertions).rootList.Perm
      (inserter.rootList ++ insertions.map Prod.fst) := by
  induction insertions generalizing inserter with
  | nil => simp [Inserter.insertAll]
  | cons insertion insertions ih =>
      have first : (inserter.insert insertion.1 insertion.2).rootList.Perm
          (inserter.rootList ++ [insertion.1]) := by
        cases insertion.2 <;> exact insertAt_perm _ _ _
      refine (ih (inserter.insert insertion.1 insertion.2)).trans ?_
      refine (first.append_right _).trans ?_
      rw [List.append_assoc]
      rfl

/-- What a call adds to the values read from the list. -/
theorem filterMap_perform {α : Type} (read : Item → Option α) (outcome : Outcome)
    (inserter : Inserter Item) :
    ((outcome.perform inserter).rootList.filterMap read).Perm
      (inserter.rootList.filterMap read ++
        ((outcome.insertions.map Prod.fst).filterMap read ++ outcome.emitted.filterMap read)) := by
  have inserted : ((inserter.insertAll outcome.insertions).rootList.filterMap read).Perm
      (inserter.rootList.filterMap read ++
        (outcome.insertions.map Prod.fst).filterMap read) := by
    rw [← List.filterMap_append]
    exact (insertAll_perm inserter outcome.insertions).filterMap _
  rw [outcome.rootList_perform, List.filterMap_append, ← List.append_assoc]
  exact inserted.append_right _

theorem filterMap_emitted {α : Type} {read : Item → Option α}
    (nothing : ∀ item : Item, item.isValid = false → read item = none) (outcome : Outcome) :
    outcome.emitted.filterMap read = (read outcome.iterator).toList := by
  rw [Outcome.emitted]
  cases isValid : outcome.iterator.isValid with
  | true => cases found : read outcome.iterator <;> simp [found]
  | false =>
      rw [nothing _ isValid]
      rfl

theorem declaredName?_of_invalid (item : Item) (invalid : item.isValid = false) :
    item.declaredName? = none := by
  have noMethod : item.method = [] := by simpa [Item.isValid] using invalid
  rw [Item.declaredName?, Item.isDeclaration, noMethod]
  rfl

theorem declaredNames_emitted (outcome : Outcome) :
    declaredNames outcome.emitted = outcome.iterator.declaredName?.toList :=
  filterMap_emitted declaredName?_of_invalid outcome

theorem declaredName?_congr {item other : Item} (same : item.method = other.method) :
    item.declaredName? = other.declaredName? := by
  rw [Item.declaredName?, Item.declaredName?, Item.isDeclaration, Item.isDeclaration, same]

theorem declaredNames_cons (item : Item) (items : List Item) :
    declaredNames (item :: items) = item.declaredName?.toList ++ declaredNames items := by
  cases named : item.declaredName? <;> simp [declaredNames, named]

/-! ## Legal names -/

/-- The names that a variable for an object must not have, with so many texts declared. -/
def forbidden (strings : Nat) : List QString :=
  reservedWords ++ scriptGlobals ++ (List.range strings).map StringVariables.variableName

theorem underscore_not_mem_forbidden {strings : Nat} {name : QString}
    (isForbidden : name ∈ forbidden strings) : underscore ∉ name := by
  rw [forbidden, List.mem_append] at isForbidden
  rcases isForbidden with word | isString
  · have plain : (reservedWords ++ scriptGlobals).all
        (fun word => !word.contains underscore) = true := by
      decide +kernel
    have free := List.all_eq_true.mp plain name word
    rw [Bool.not_eq_true', List.contains_eq_mem, decide_eq_false_iff_not] at free
    exact free
  · obtain ⟨position, _, rfl⟩ := List.mem_map.mp isString
    rw [StringVariables.variableName, List.mem_append, not_or]
    refine ⟨by decide, fun member => ?_⟩
    exact absurd (QString.isDigit_of_mem_number member) (by decide)

namespace ObjectVariables

/-- The name of the object at the end of a path. -/
def lastPart (path : QString) : QString :=
  (Library.Separator.split (QString.ofString "::") path).getLast?.getD []

/-- The name of the object above it. -/
def partAbove (path : QString) : Option QString :=
  (Library.Separator.split (QString.ofString "::") path).dropLast.getLast?

variable (tables : CharacterTables) (strings : Nat)

/-- The last part of a path as a keyword. -/
def keyword (path : QString) : QString :=
  toKeyword tables.isLetterOrNumber (lastPart path)

/-- A name for an object that is an identifier and means nothing else. -/
def IsLegal (name : QString) : Prop :=
  tables.isIdentifierName name = true ∧ name ∉ forbidden strings

/-- What a call adds to the known names. -/
def learn (known : Variables) (item : Item) : Variables :=
  match item.target with
  | .path path =>
      match known.lookup path with
      | some _ => known
      | none => (path, chooseName tables.isLetterOrNumber known path) :: known
  | _ => known

/-- The parts of a new path that its name is made of are fit for it: the last one, and the
one above if the last one is taken. -/
structure Fits (known : Variables) (path : QString) : Prop where
  nonempty : lastPart path ≠ []
  lastPart : tables.MakesPrefix (lastPart path)
  free : keyword tables path ∉ forbidden strings
  above : keyword tables path ∈ known.map Prod.snd → ∀ above, partAbove path = some above →
    tables.MakesPrefix above

/-- The path of an item is known or fits. -/
def ItemFits (known : Variables) (item : Item) : Prop :=
  ∀ path, item.target = .path path → known.lookup path = none → Fits tables strings known path

section

variable {tables} {strings}

theorem isLegal_keyword_iff {path : QString} :
    IsLegal tables strings (keyword tables path) ↔
      lastPart path ≠ [] ∧ tables.MakesPrefix (lastPart path) ∧
        keyword tables path ∉ forbidden strings := by
  rw [IsLegal, ← and_assoc]
  apply and_congr_left
  intro _
  by_cases empty : lastPart path = []
  · simp [keyword, empty, toKeyword, CharacterTables.isIdentifierName]
  · have legal := tables.isIdentifierName_keyword_append [] (.inl empty) rfl
    rw [List.append_nil] at legal
    rw [keyword, legal]
    exact (and_iff_right empty).symm

theorem isIdentifierName_append {name back : QString}
    (legal : tables.isIdentifierName name = true)
    (parts : back.all tables.isIdentifierPart = true) :
    tables.isIdentifierName (name ++ back) = true := by
  cases name with
  | nil => cases legal
  | cons first rest =>
      rw [CharacterTables.isIdentifierName, Bool.and_eq_true] at legal
      rw [List.cons_append, CharacterTables.isIdentifierName, List.all_append, legal.1, legal.2,
        parts]
      rfl

theorem all_parts_of_isIdentifierName {name : QString}
    (legal : tables.isIdentifierName name = true) : name.all tables.isIdentifierPart = true := by
  cases name with
  | nil => rfl
  | cons first rest =>
      rw [CharacterTables.isIdentifierName, Bool.and_eq_true] at legal
      rw [List.all_cons, CharacterTables.isIdentifierPart, legal.1, legal.2]
      rfl

theorem isIdentifierPart_underscore : tables.isIdentifierPart underscore = true := by
  rw [CharacterTables.isIdentifierPart, tables.isIdentifierStart_underscore]
  rfl

theorem all_parts_number (count : Nat) :
    (QString.number count).all tables.isIdentifierPart = true := by
  apply List.all_eq_true.mpr
  intro digit member
  exact tables.isIdentifierPart_of_isDigit (QString.isDigit_of_mem_number member)

theorem isLegal_of_underscore {name : QString} (member : underscore ∈ name) :
    IsLegal tables strings name ↔ tables.isIdentifierName name = true :=
  and_iff_left fun isForbidden => underscore_not_mem_forbidden isForbidden member

/-- A number behind a legal name keeps it legal. -/
theorem isLegal_numbered {name : QString} (legal : IsLegal tables strings name) (count : Nat) :
    IsLegal tables strings (numbered name count) := by
  have shape : numbered name count = name ++ (underscore :: QString.number count) := by
    rw [numbered, List.append_assoc]
    rfl
  rw [shape, isLegal_of_underscore (List.mem_append_right _ List.mem_cons_self)]
  apply isIdentifierName_append legal.1
  rw [List.all_cons, isIdentifierPart_underscore, all_parts_number]
  rfl

/-- The name of the object above, in front of a legal name. -/
theorem isLegal_above_iff {name : QString} (legal : IsLegal tables strings name)
    (above back : QString) (parts : back.all tables.isIdentifierPart = true) :
    IsLegal tables strings (toKeyword tables.isLetterOrNumber above ++ QString.ofString "__" ++
        name ++ back) ↔ tables.MakesPrefix above := by
  have shape : toKeyword tables.isLetterOrNumber above ++ QString.ofString "__" ++ name ++ back =
      toKeyword tables.isLetterOrNumber above ++
        (underscore :: underscore :: (name ++ back)) := by
    rw [List.append_assoc, List.append_assoc]
    rfl
  rw [shape, isLegal_of_underscore (List.mem_append_right _ List.mem_cons_self)]
  apply tables.isIdentifierName_keyword_append _ (.inr rfl)
  rw [List.all_cons, List.all_cons, isIdentifierPart_underscore, List.all_append,
    all_parts_of_isIdentifierName legal.1, parts]
  rfl

theorem chooseName_of_free {known : Variables} {path : QString}
    (free : keyword tables path ∉ known.map Prod.snd) :
    chooseName tables.isLetterOrNumber known path = keyword tables path := by
  rw [chooseName]
  exact if_pos free

theorem chooseName_of_taken {known : Variables} {path : QString}
    (taken : keyword tables path ∈ known.map Prod.snd) :
    chooseName tables.isLetterOrNumber known path =
      let name := match partAbove path with
        | none => keyword tables path
        | some above => toKeyword tables.isLetterOrNumber above ++ QString.ofString "__" ++
            keyword tables path
      if name ∉ known.map Prod.snd then name
      else numbered name
        (freeCount (known.map Prod.snd) name (known.map Prod.snd).length 2) := by
  rw [chooseName]
  exact if_neg (not_not.mpr taken)

/-- When the last part of a path is taken, the name is legal if the part above is fit. -/
theorem isLegal_chooseName_iff {known : Variables} {path : QString}
    (taken : keyword tables path ∈ known.map Prod.snd)
    (legal : IsLegal tables strings (keyword tables path)) :
    IsLegal tables strings (chooseName tables.isLetterOrNumber known path) ↔
      ∀ above, partAbove path = some above → tables.MakesPrefix above := by
  rw [chooseName_of_taken taken]
  cases partAbove path with
  | none =>
      simp only [taken, not_true_eq_false, if_false]
      exact ⟨fun _ => nofun, fun _ => isLegal_numbered legal _⟩
  | some above =>
      have single : (∀ other, some above = some other → tables.MakesPrefix other) ↔
          tables.MakesPrefix above := by
        simp
      rw [single]
      dsimp only
      split
      next =>
        rw [← isLegal_above_iff legal above [] rfl, List.append_nil]
      next =>
        have parts : (underscore :: QString.number (freeCount (known.map Prod.snd)
            (toKeyword tables.isLetterOrNumber above ++ QString.ofString "__" ++
              keyword tables path) (known.map Prod.snd).length 2)).all
            tables.isIdentifierPart = true := by
          rw [List.all_cons, isIdentifierPart_underscore, all_parts_number]
          rfl
        rw [← isLegal_above_iff legal above _ parts, numbered, List.append_assoc _ _
          (QString.number _)]
        rfl

theorem mem_learn_of_mem {known : Variables} {entry : QString × QString} (item : Item)
    (member : entry ∈ known) : entry ∈ learn tables known item := by
  rw [learn]
  split
  next =>
    split
    · exact member
    · exact List.mem_cons_of_mem _ member
  next => exact member

theorem learn_of_new {known : Variables} {item : Item} {path : QString}
    (isPath : item.target = .path path) (isNew : known.lookup path = none) :
    learn tables known item =
      (path, chooseName tables.isLetterOrNumber known path) :: known := by
  simp only [learn, isPath, isNew]

/-- Either nothing is learnt, or the name of a new path. -/
theorem learn_cases (tables : CharacterTables) (known : Variables) (item : Item) :
    (∀ path, item.target = .path path → known.lookup path ≠ none) ∧
        learn tables known item = known ∨
      ∃ path, item.target = .path path ∧ known.lookup path = none := by
  cases isTarget : item.target with
  | path path =>
      cases found : known.lookup path with
      | none => exact .inr ⟨path, rfl, found⟩
      | some name =>
          refine .inl ⟨?_, ?_⟩
          · rintro _ ⟨⟩
            rw [found]
            exact nofun
          · simp only [learn, isTarget, found]
  | null | «variable» name =>
      exact .inl ⟨nofun, by simp only [learn, isTarget]⟩

/-- All names are legal. -/
def AllLegal (tables : CharacterTables) (strings : Nat) (known : Variables) : Prop :=
  ∀ name ∈ known.map Prod.snd, IsLegal tables strings name

/-- A new path keeps the names legal exactly when it fits. -/
theorem allLegal_learn_iff {known : Variables} (legal : AllLegal tables strings known)
    (item : Item) :
    AllLegal tables strings (learn tables known item) ↔ ItemFits tables strings known item := by
  rcases learn_cases tables known item with
    ⟨noPath, same⟩ | ⟨path, isPath, isNew⟩
  · rw [same]
    exact iff_of_true legal fun path isPath isNew => absurd isNew (noPath path isPath)
  · have fits : ItemFits tables strings known item ↔ Fits tables strings known path := by
      constructor
      · exact fun all => all path isPath isNew
      · intro fits other isOther _
        rw [isPath] at isOther
        cases isOther
        exact fits
    have learnt : AllLegal tables strings (learn tables known item) ↔
        IsLegal tables strings (chooseName tables.isLetterOrNumber known path) := by
      rw [learn_of_new isPath isNew, AllLegal, List.map_cons, List.forall_mem_cons]
      exact and_iff_left legal
    rw [fits, learnt]
    by_cases taken : keyword tables path ∈ known.map Prod.snd
    · have keywordLegal := legal _ taken
      have parts := isLegal_keyword_iff.mp keywordLegal
      rw [isLegal_chooseName_iff taken keywordLegal]
      exact ⟨fun above => ⟨parts.1, parts.2.1, parts.2.2, fun _ => above⟩,
        fun fits => fits.above taken⟩
    · rw [chooseName_of_free taken, isLegal_keyword_iff]
      exact ⟨fun parts => ⟨parts.1, parts.2.1, parts.2.2, fun isTaken => absurd isTaken taken⟩,
        fun fits => ⟨fits.nonempty, fits.lastPart, fits.free⟩⟩

theorem mem_foldl_learn {known : Variables} {entry : QString × QString} (items : List Item)
    (member : entry ∈ known) : entry ∈ items.foldl (learn tables) known := by
  induction items generalizing known with
  | nil => exact member
  | cons item items ih => exact ih (mem_learn_of_mem item member)

/-- The names for all items are legal exactly when each new path fits. -/
theorem allLegal_foldl_iff (items : List Item) :
    AllLegal tables strings (items.foldl (learn tables) []) ↔
      Library.Run.StepsMeet (learn tables) (ItemFits tables strings) [] items := by
  rw [← Library.Run.always_iff_stepsMeet (learn tables) (ItemFits tables strings)
    (AllLegal tables strings) (AllLegal tables strings) []
    (fun _ item legal => (allLegal_learn_iff legal item).mpr) (fun _ legal => legal)
    (fun _ item legal missed learnt => missed ((allLegal_learn_iff legal item).mp learnt))
    (fun _ impossible => absurd impossible List.not_mem_nil) items]
  constructor
  · intro legal before after shape name member
    subst shape
    rw [List.foldl_append] at legal
    obtain ⟨entry, isEntry, rfl⟩ := List.mem_map.mp member
    exact legal entry.2 (List.mem_map_of_mem (mem_foldl_learn after isEntry))
  · intro always
    exact always items [] (List.append_nil items).symm

end

end ObjectVariables

end Hooq

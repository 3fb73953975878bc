import Mathlib.Data.List.Induction

/-!
# Paths

The directory that a path leads to, as the names on the way down to it.  The components of
a path are read one after the other: a name leads down, two dots lead up, and empty
components and single dots lead nowhere.  Cleaned, a path goes up some times and then down.
-/

namespace Hooq.Library.Paths

variable {Character : Type} [DecidableEq Character]

/-- What tells the components of a path apart, and what is special in them. -/
structure Marks (Character : Type) where
  slash : Character
  dot : Character

namespace Marks

variable (marks : Marks Character)

def components (path : List Character) : List (List Character) :=
  path.splitOn marks.slash

theorem components_nil : marks.components [] = [[]] :=
  List.splitOn_nil marks.slash

theorem components_append (front back : List Character) :
    marks.components (front ++ marks.slash :: back) =
      marks.components front ++ marks.components back :=
  List.splitOnP_append_cons front back (beq_self_eq_true marks.slash)

/-- The component leads nowhere. -/
def IsIdle (component : List Character) : Prop :=
  component = [] ∨ component = [marks.dot]

instance (component : List Character) : Decidable (marks.IsIdle component) :=
  inferInstanceAs (Decidable (_ ∨ _))

/-! ## Walking -/

/-- One component, from a directory.  The root is its own parent. -/
def step (directory : List (List Character)) (component : List Character) :
    List (List Character) :=
  if marks.IsIdle component then directory
  else if component = [marks.dot, marks.dot] then directory.dropLast
  else directory ++ [component]

/-- The directory that components lead to. -/
def walk (directory components : List (List Character)) : List (List Character) :=
  components.foldl marks.step directory

theorem walk_append (directory front back : List (List Character)) :
    marks.walk directory (front ++ back) = marks.walk (marks.walk directory front) back :=
  List.foldl_append

theorem walk_empty (directory : List (List Character)) : marks.walk directory [[]] = directory := by
  rw [walk, List.foldl_cons, List.foldl_nil, step, if_pos (.inl rfl)]

/-! ## Cleaning -/

/-- A path that goes up some times and then down. -/
structure Cleaned (Character : Type) where
  ups : Nat
  names : List (List Character)
  deriving DecidableEq, Repr

def cleanStep (cleaned : Cleaned Character) (component : List Character) : Cleaned Character :=
  if marks.IsIdle component then cleaned
  else if component = [marks.dot, marks.dot] then
    if cleaned.names = [] then { cleaned with ups := cleaned.ups + 1 }
    else { cleaned with names := cleaned.names.dropLast }
  else { cleaned with names := cleaned.names ++ [component] }

def clean (components : List (List Character)) : Cleaned Character :=
  components.foldl marks.cleanStep ⟨0, []⟩

/-- Where a cleaned path leads. -/
def Cleaned.follow (cleaned : Cleaned Character) (directory : List (List Character)) :
    List (List Character) :=
  directory.take (directory.length - cleaned.ups) ++ cleaned.names

theorem follow_cleanStep (cleaned : Cleaned Character) (directory : List (List Character))
    (component : List Character) :
    (marks.cleanStep cleaned component).follow directory =
      marks.step (cleaned.follow directory) component := by
  rw [cleanStep, step]
  split_ifs with idle isUp atTop
  · rfl
  · simp only [Cleaned.follow, atTop, List.append_nil, List.dropLast_eq_take, List.take_take,
      List.length_take]
    congr 1
    omega
  · simp only [Cleaned.follow, List.dropLast_append_of_ne_nil atTop]
  · simp only [Cleaned.follow, List.append_assoc]

/-- A path leads where its cleaned form leads. -/
theorem walk_eq_follow (directory components : List (List Character)) :
    marks.walk directory components = (marks.clean components).follow directory := by
  induction components using List.reverseRecOn with
  | nil => simp [walk, clean, Cleaned.follow]
  | append_singleton components last ih =>
      have cleaned : marks.clean (components ++ [last]) =
          marks.cleanStep (marks.clean components) last := List.foldl_append
      rw [walk_append, ih, cleaned, follow_cleanStep]
      rfl

/-! ## Staying inside -/

/-- The way down that a cleaned path has to take to get back to where it comes from. -/
def Cleaned.wayBack (cleaned : Cleaned Character) (directory : List (List Character)) :
    List (List Character) :=
  directory.drop (directory.length - cleaned.ups)

/-- Cleaned, the path is a name, or it goes up, back down the same way, and on to a name. -/
def LeadsInto (directory components : List (List Character)) : Prop :=
  ∃ name, (marks.clean components).names =
    (marks.clean components).wayBack directory ++ [name]

/-- Such paths are those that lead to something directly in the directory. -/
theorem walk_child_iff (directory components : List (List Character)) :
    (∃ name, marks.walk directory components = directory ++ [name]) ↔
      marks.LeadsInto directory components := by
  apply exists_congr
  intro name
  have target : directory ++ [name] =
      directory.take (directory.length - (marks.clean components).ups) ++
        ((marks.clean components).wayBack directory ++ [name]) := by
    rw [← List.append_assoc, Cleaned.wayBack, List.take_append_drop]
  rw [walk_eq_follow, Cleaned.follow, target]
  exact List.append_right_inj _

/-! ## Plain names -/

/-- A component that leads down. -/
def IsName (component : List Character) : Prop :=
  ¬marks.IsIdle component ∧ component ≠ [marks.dot, marks.dot]

instance (component : List Character) : Decidable (marks.IsName component) :=
  inferInstanceAs (Decidable (_ ∧ _))

theorem step_of_isName {component : List Character} (isName : marks.IsName component)
    (directory : List (List Character)) :
    marks.step directory component = directory ++ [component] := by
  rw [step, if_neg isName.1, if_neg isName.2]

theorem walk_names (directory : List (List Character)) {names : List (List Character)}
    (plain : ∀ name ∈ names, marks.IsName name) :
    marks.walk directory names = directory ++ names := by
  induction names generalizing directory with
  | nil => exact (List.append_nil directory).symm
  | cons name rest ih =>
      have behind := ih (directory ++ [name]) fun other member =>
        plain other (List.mem_cons_of_mem _ member)
      rw [walk, List.foldl_cons, marks.step_of_isName (plain name List.mem_cons_self)]
      rw [List.append_assoc] at behind
      exact behind

/-- What a walk passes and does not leave again are names. -/
theorem isName_of_mem_walk {directory components : List (List Character)} {name : List Character}
    (start : ∀ name ∈ directory, marks.IsName name)
    (member : name ∈ marks.walk directory components) :
    marks.IsName name ∧ (name ∈ directory ∨ name ∈ components) := by
  induction components using List.reverseRecOn with
  | nil => exact ⟨start name member, .inl member⟩
  | append_singleton components last ih =>
      rw [walk_append, walk, List.foldl_cons, List.foldl_nil, step] at member
      split_ifs at member with idle up
      · exact ⟨(ih member).1, (ih member).2.imp_right (List.mem_append_left _)⟩
      · have earlier := ih ((List.dropLast_sublist _).subset member)
        exact ⟨earlier.1, earlier.2.imp_right (List.mem_append_left _)⟩
      · rcases List.mem_append.mp member with earlier | new
        · exact ⟨(ih earlier).1, (ih earlier).2.imp_right (List.mem_append_left _)⟩
        · obtain rfl := List.mem_singleton.mp new
          exact ⟨⟨idle, up⟩, .inr (List.mem_append_right _ new)⟩

theorem components_of_free {path : List Character} (free : marks.slash ∉ path) :
    marks.components path = [path] :=
  List.splitOn_eq_singleton free

/-- A component is a part of the path between separators. -/
theorem of_mem_components {path component : List Character}
    (member : component ∈ marks.components path) : marks.slash ∉ component ∧ component ⊆ path := by
  induction path generalizing component with
  | nil =>
      rw [components_nil, List.mem_singleton] at member
      simp [member]
  | cons first rest ih =>
      rw [components, List.splitOn_cons_eq_if_modifyHead] at member
      split at member
      next =>
          rcases List.mem_cons.mp member with rfl | later
          · simp
          · exact ⟨(ih later).1, List.subset_cons_of_subset first (ih later).2⟩
      next other =>
          cases split : rest.splitOn marks.slash with
          | nil => exact absurd split (List.splitOn_ne_nil _ _)
          | cons head tail =>
              rw [split, List.modifyHead_cons] at member
              have inside : ∀ component ∈ head :: tail,
                  marks.slash ∉ component ∧ component ⊆ rest := by
                intro component member
                apply ih
                rw [components, split]
                exact member
              rcases List.mem_cons.mp member with rfl | later
              · have apart : marks.slash ≠ first := by
                  rintro rfl
                  simp at other
                have begins := inside head List.mem_cons_self
                exact ⟨List.not_mem_cons_of_ne_of_not_mem apart begins.1,
                  List.cons_subset_cons first begins.2⟩
              · have behind := inside component (List.mem_cons_of_mem _ later)
                exact ⟨behind.1, List.subset_cons_of_subset first behind.2⟩

/-- What follows the last separator. -/
theorem exists_last_component (path : List Character) :
    ∃ tail, marks.slash ∉ tail ∧ (path = tail ∨ ∃ front, path = front ++ marks.slash :: tail) := by
  induction path with
  | nil => exact ⟨[], List.not_mem_nil, .inl rfl⟩
  | cons first rest ih =>
      obtain ⟨tail, free, rfl | ⟨front, rfl⟩⟩ := ih
      · by_cases separator : first = marks.slash
        · exact ⟨rest, free, .inr ⟨[], by rw [separator, List.nil_append]⟩⟩
        · refine ⟨first :: rest, ?_, .inl rfl⟩
          exact List.not_mem_cons_of_ne_of_not_mem (Ne.symm separator) free
      · exact ⟨tail, free, .inr ⟨first :: front, rfl⟩⟩

/-- An ending that makes a name of whatever is before it is the ending of where the path
leads. -/
theorem exists_walk_ending (directory : List (List Character)) (path : List Character)
    {ending : List Character} (free : marks.slash ∉ ending)
    (isName : ∀ tail, marks.IsName (tail ++ ending)) :
    ∃ front tail, marks.walk directory (marks.components (path ++ ending)) =
      front ++ [tail ++ ending] := by
  obtain ⟨tail, tailFree, rfl | ⟨front, rfl⟩⟩ := marks.exists_last_component path
  · have whole : marks.slash ∉ path ++ ending :=
      fun member => (List.mem_append.mp member).elim tailFree free
    refine ⟨directory, path, ?_⟩
    rw [marks.components_of_free whole]
    exact marks.walk_names directory (by simpa using isName path)
  · have whole : marks.slash ∉ tail ++ ending :=
      fun member => (List.mem_append.mp member).elim tailFree free
    refine ⟨marks.walk directory (marks.components front), tail, ?_⟩
    rw [List.append_assoc, List.cons_append, components_append, walk_append,
      marks.components_of_free whole]
    exact marks.walk_names _ (by simpa using isName tail)

/-! ## Paths from the root -/

/-- The cleaned path that leads down from the root. -/
def rooted (names : List (List Character)) : List Character :=
  if names = [] then [marks.slash] else names.flatMap (marks.slash :: ·)

omit [DecidableEq Character] in
theorem head?_rooted (names : List (List Character)) :
    (marks.rooted names).head? = some marks.slash := by
  cases names <;> rfl

omit [DecidableEq Character] in
theorem mem_rooted {names : List (List Character)} {name : List Character} (member : name ∈ names)
    {character : Character} (inside : character ∈ name) : character ∈ marks.rooted names := by
  rw [rooted, if_neg (List.ne_nil_of_mem member)]
  exact List.mem_flatMap.mpr ⟨name, member, List.mem_cons_of_mem _ inside⟩

/-- A path behind others is read as their components. -/
theorem components_append_flatMap {front : List Character} (free : marks.slash ∉ front)
    {names : List (List Character)} (plain : ∀ name ∈ names, marks.slash ∉ name) :
    marks.components (front ++ names.flatMap (marks.slash :: ·)) = front :: names := by
  induction names generalizing front with
  | nil => simpa using marks.components_of_free free
  | cons name rest ih =>
      have behind := ih (plain name List.mem_cons_self) fun other member =>
        plain other (List.mem_cons_of_mem _ member)
      rw [List.flatMap_cons, List.cons_append, components_append, behind,
        marks.components_of_free free]
      rfl

/-- A path from the root leads where it says. -/
theorem walk_rooted {names : List (List Character)} (plain : ∀ name ∈ names, marks.IsName name)
    (free : ∀ name ∈ names, marks.slash ∉ name) :
    marks.walk [] (marks.components (marks.rooted names)) = names := by
  rw [rooted]
  split
  next none =>
      subst none
      have two : marks.components [marks.slash] = [[], []] := by
        simpa [components_nil] using marks.components_append [] []
      rw [two]
      simp [walk, step, IsIdle]
  next =>
      have components := marks.components_append_flatMap List.not_mem_nil free
      rw [List.nil_append] at components
      have head : marks.step [] [] = [] := if_pos (.inl rfl)
      rw [components, walk, List.foldl_cons, head]
      exact (marks.walk_names [] plain).trans (List.nil_append names)

end Marks

end Hooq.Library.Paths

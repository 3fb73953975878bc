import Hooq.Objects.Tree

/-!
# Finding the object that a path names

The player searches a recorded path from the top-level widgets downwards, each
time taking the first object of the wanted name.  A path therefore leads back
to its object exactly when no object on the way is hidden behind an earlier
sibling of the same name, as long as the names leave the separator intact.
-/

namespace Hooq

open Library.Separator

namespace ObjectTree

variable {Object : Type} [DecidableEq Object] (tree : ObjectTree Object)

theorem separator_ne_nil : separator ≠ [] := by decide

/-- `Player::findObject`. -/
def findObject (path : QString) : Option Object :=
  let parts := split separator path
  match parts.getLast? with
  | none => none
  | some name =>
      if _several : parts.dropLast = [] then
        tree.topLevelWidgets.find? fun widget => tree.hookName widget = name
      else
        match findObject (join separator parts.dropLast) with
        | none => none
        | some parent => (tree.children parent).find? fun child => tree.hookName child = name
termination_by path.length
decreasing_by exact join_dropLast_length separator_ne_nil path _several

/-! ## Lookup along a list of names -/

/-- The object below a list of names, deepest name first. -/
def descend : List QString → Option Object
  | [] => none
  | [name] => tree.topLevelWidgets.find? fun widget => tree.hookName widget = name
  | name :: parents =>
      (descend parents).bind fun parent =>
        (tree.children parent).find? fun child => tree.hookName child = name

theorem descend_cons {name : QString} {parents : List QString} (nonempty : parents ≠ []) :
    tree.descend (name :: parents) =
      (tree.descend parents).bind fun parent =>
        (tree.children parent).find? fun child => tree.hookName child = name := by
  cases parents with
  | nil => exact absurd rfl nonempty
  | cons parent parents => rfl

/-- The search over the text of a path is the search along its components. -/
theorem findObject_eq (path : QString) :
    tree.findObject path = tree.descend (split separator path).reverse := by
  induction size : path.length using Nat.strong_induction_on generalizing path with
  | _ size ih =>
      subst size
      obtain ⟨front, name, parts⟩ :
          ∃ front name, split separator path = front ++ [name] :=
        (List.eq_nil_or_concat' (split separator path)).resolve_left (split_ne_nil separator path)
      have shorter := join_dropLast_length separator_ne_nil path
      have again := split_join_dropLast separator_ne_nil path
      rw [findObject]
      simp only [parts, List.dropLast_concat, List.getLast?_concat] at shorter again ⊢
      split
      next single =>
        rw [single]
        rfl
      next several =>
        rw [ih _ (shorter several) _ rfl, again several, List.reverse_append,
          List.reverse_singleton, List.singleton_append, tree.descend_cons (by simpa using several)]
        cases tree.descend front.reverse <;> rfl

/-! ## Objects that their names single out -/

/-- The objects among which the name of an object is looked up. -/
def siblings (object : Object) : List Object :=
  match tree.parent object with
  | none => tree.topLevelWidgets
  | some parent => tree.children parent

/-- No earlier sibling of the object has its name. -/
def IsFirstOfName (object : Object) : Prop :=
  ∃ earlier later, tree.siblings object = earlier ++ object :: later ∧
    ∀ sibling ∈ earlier, tree.hookName sibling ≠ tree.hookName object

theorem find_siblings_iff (object : Object) :
    ((tree.siblings object).find? fun sibling => tree.hookName sibling = tree.hookName object) =
      some object ↔ tree.IsFirstOfName object := by
  rw [List.find?_eq_some_iff_append]
  simp [IsFirstOfName]

theorem descend_lineage_iff (object : Object) :
    tree.descend ((tree.lineage object).map tree.hookName).reverse = some object ↔
      ∀ ancestor ∈ tree.lineage object, tree.IsFirstOfName ancestor := by
  induction object using tree.lineageInduction with
  | parentless object found =>
      rw [tree.lineage_of_parentless found, List.forall_mem_singleton, ← tree.find_siblings_iff,
        siblings, found]
      rfl
  | child object parent found ih =>
      have named : ((tree.lineage parent).map tree.hookName).reverse ≠ [] := by
        simpa using List.ne_nil_of_mem (tree.mem_lineage_self parent)
      rw [tree.lineage_of_parent found, List.map_append, List.reverse_append, List.map_singleton,
        List.reverse_singleton, List.singleton_append, tree.descend_cons named,
        List.forall_mem_append, List.forall_mem_singleton, ← tree.find_siblings_iff object,
        siblings, found, ← ih]
      constructor
      · intro located
        rcases Option.bind_eq_some_iff.mp located with ⟨above, aboveFound, objectFound⟩
        have below := (tree.mem_children object above).mp (List.mem_of_find?_eq_some objectFound)
        rw [found] at below
        cases Option.some.inj below
        exact ⟨aboveFound, objectFound⟩
      · rintro ⟨parentFound, objectFound⟩
        exact Option.bind_eq_some_iff.mpr ⟨parent, parentFound, objectFound⟩

/-! ## Names that leave the separator intact -/

def colon : QChar := 58

/-- No name on the way to the object has three colons in a row, and only the
object's own name may end in one. -/
structure SplitsCleanly (object : Object) : Prop where
  noTriple : ∀ ancestor ∈ tree.lineage object,
    ¬[colon, colon, colon] <:+: tree.rawObjectName ancestor
  ends : ∀ ancestor ∈ tree.lineage object, ancestor ≠ object →
    (tree.rawObjectName ancestor).getLast? ≠ some colon

theorem separator_eq : separator = [colon, colon] := by decide

theorem hookName_eq (object : Object) :
    tree.hookName object =
      replace [colon, colon] [colon, 95, colon] (tree.rawObjectName object) := by
  rw [hookName, separator_eq]
  rfl

theorem hookName_free {object : Object}
    (noTriple : ¬[colon, colon, colon] <:+: tree.rawObjectName object) :
    ¬separator <:+: tree.hookName object := by
  rw [separator_eq, hookName_eq]
  exact replace_doubled_free (by decide) noTriple

theorem hookName_guards {object : Object}
    (noTriple : ¬[colon, colon, colon] <:+: tree.rawObjectName object)
    (ends : (tree.rawObjectName object).getLast? ≠ some colon) :
    Guards separator (tree.hookName object) := by
  have free := tree.hookName_free noTriple
  rw [separator_eq] at free ⊢
  refine guards_doubled free ?_
  rw [hookName_eq, replace_doubled_getLast?]
  exact ends

theorem lineage_eq_concat (object : Object) :
    ∃ ancestors, tree.lineage object = ancestors ++ [object] ∧
      ∀ ancestor ∈ ancestors, tree.depth ancestor < tree.depth object := by
  induction object using tree.lineageInduction with
  | parentless object found => exact ⟨[], tree.lineage_of_parentless found, by simp⟩
  | child object parent found ih =>
      rcases ih with ⟨ancestors, shape, above⟩
      refine ⟨tree.lineage parent, tree.lineage_of_parent found, ?_⟩
      intro ancestor member
      have parentAbove := tree.depth_lt object parent found
      rw [shape] at member
      rcases List.mem_append.mp member with member | member
      · exact (above ancestor member).trans parentAbove
      · rw [List.mem_singleton.mp member]
        exact parentAbove

theorem split_objectPath {object : Object} (clean : tree.SplitsCleanly object) :
    split separator (tree.objectPath object) = (tree.lineage object).map tree.hookName := by
  rcases tree.lineage_eq_concat object with ⟨ancestors, shape, above⟩
  rw [objectPath_eq, shape, List.map_append, List.map_singleton]
  apply split_join separator_ne_nil
  · intro name member
    rcases List.mem_map.mp member with ⟨ancestor, ancestorMember, rfl⟩
    have onTheWay : ancestor ∈ tree.lineage object := by simp [shape, ancestorMember]
    have other : ancestor ≠ object := by
      intro equal
      have := above ancestor ancestorMember
      rw [equal] at this
      exact this.false
    exact tree.hookName_guards (clean.noTriple ancestor onTheWay)
      (clean.ends ancestor onTheWay other)
  · exact tree.hookName_free (clean.noTriple object (tree.mem_lineage_self object))

/-- A recorded path leads back to its object exactly when no object on the way
down is hidden behind an earlier sibling of the same name. -/
theorem findObject_objectPath_iff (object : Object) (clean : tree.SplitsCleanly object) :
    tree.findObject (tree.objectPath object) = some object ↔
      ∀ ancestor ∈ tree.lineage object, tree.IsFirstOfName ancestor := by
  rw [findObject_eq, tree.split_objectPath clean, descend_lineage_iff]

/-! ## A window with two buttons of one name -/

/-- Object 0 is a window, objects 1 and 2 are its buttons, both named `ok`. -/
def buttonWindow : ObjectTree (Fin 3) where
  objectName object := if object = 0 then "window" else "ok"
  metaObject object := if object = 0 then ⟨0, "QDialog"⟩ else ⟨1, "QPushButton"⟩
  isWidget _ := true
  parent object := if object = 0 then none else some 0
  children object := if object = 0 then [1, 2] else []
  topLevelWidgets := [0]
  depth object := if object = 0 then 0 else 1
  mem_children := by decide
  children_nodup := by decide
  depth_lt := by decide
  topLevelWidgets_isWidget := by decide

def firstButton : Fin 3 := 1

theorem buttonWindow_lineage {object : Fin 3} (isButton : object ≠ 0) :
    buttonWindow.lineage object = [0, object] := by
  have found : buttonWindow.parent object = some 0 := by simp [buttonWindow, isButton]
  rw [buttonWindow.lineage_of_parent found, buttonWindow.lineage_of_parentless rfl]
  rfl

/-- The path of the first button leads back to it. -/
theorem findObject_firstButton :
    buttonWindow.findObject (buttonWindow.objectPath 1) = some 1 := by
  have lineage : buttonWindow.lineage 1 = [0, 1] := buttonWindow_lineage (by decide)
  have clean : buttonWindow.SplitsCleanly 1 := by
    constructor <;> rw [lineage] <;> decide
  refine (buttonWindow.findObject_objectPath_iff 1 clean).mpr ?_
  rw [lineage]
  intro ancestor member
  rcases List.mem_pair.mp member with rfl | rfl
  · exact ⟨[], [], rfl, by simp⟩
  · exact ⟨[], [2], rfl, by simp⟩

/-- The path of the second button leads to the first one. -/
theorem findObject_secondButton :
    ¬∀ object, (∀ root ∈ (buttonWindow.lineage object).head?,
        root ∈ buttonWindow.topLevelWidgets) →
      buttonWindow.findObject (buttonWindow.objectPath object) = some object := by
  intro roundTrip
  have lineage : buttonWindow.lineage 2 = [0, 2] := buttonWindow_lineage (by decide)
  have found := roundTrip 2 (by rw [lineage]; simp [buttonWindow])
  rw [objectPath_eq, lineage, findObject_eq] at found
  exact absurd found (by decide)

end ObjectTree

end Hooq

import Hooq.Library.Separator
import Hooq.Qt.Text

/-!
# Object trees and the names that the recorder gives to objects

An application is a forest of objects.  The recorder identifies an object by
the names on the way down from its parentless ancestor, joined with `::`.
-/

namespace Hooq

open Library.Separator

/-- A `QMetaObject`: one per class, told apart by its address. -/
structure MetaObject where
  address : Nat
  className : QString
  deriving DecidableEq, Repr

/-- The objects of an application at one moment.  Each object hangs below at
most one parent and following parents ends at a parentless object. -/
structure ObjectTree (Object : Type) [DecidableEq Object] where
  objectName : Object → QString
  metaObject : Object → MetaObject
  isWidget : Object → Bool
  parent : Object → Option Object
  children : Object → List Object
  topLevelWidgets : List Object
  depth : Object → Nat
  mem_children : ∀ child object, child ∈ children object ↔ parent child = some object
  children_nodup : ∀ object, (children object).Nodup
  depth_lt : ∀ child object, parent child = some object → depth object < depth child
  topLevelWidgets_isWidget : ∀ object ∈ topLevelWidgets, isWidget object = true

namespace ObjectTree

variable {Object : Type} [DecidableEq Object] (tree : ObjectTree Object)

/-- The loop over the siblings that counts those of the object's own class up
to the object itself. -/
def siblingIndex (object : Object) : Nat → List Object → Nat
  | index, [] => index
  | index, sibling :: rest =>
      if sibling = object then
        index
      else if tree.metaObject sibling = tree.metaObject object then
        siblingIndex object (index + 1) rest
      else
        siblingIndex object index rest

/-- `ObjectHookName::rawObjectName`: the object's own name, or one made from its
class and its place among its siblings. -/
def rawObjectName (object : Object) : QString :=
  if tree.objectName object ≠ [] then
    tree.objectName object
  else
    match tree.parent object with
    | none => (tree.metaObject object).className ++ QString.ofString "-0"
    | some parent =>
        (tree.metaObject object).className ++ QString.ofString "-" ++
          QString.number (tree.siblingIndex object 1 (tree.children parent))

/-- The separator between the names of a path. -/
def separator : QString := QString.ofString "::"

/-- `ObjectHookName::objectName`. -/
def hookName (object : Object) : QString :=
  replace separator (QString.ofString ":_:") (tree.rawObjectName object)

/-- The loop of `ObjectHookName::objectPath` that prepends the names of an object
and its ancestors. -/
def pathComponents (current : Object) (components : List QString) : List QString :=
  match _found : tree.parent current with
  | none => tree.hookName current :: components
  | some parent => pathComponents parent (tree.hookName current :: components)
termination_by tree.depth current
decreasing_by exact tree.depth_lt current parent _found

/-- `ObjectHookName::objectPath`. -/
def objectPath (object : Object) : QString :=
  join separator (tree.pathComponents object [])

/-- An object and its ancestors, the parentless one first. -/
def lineage (object : Object) : List Object :=
  match _found : tree.parent object with
  | none => [object]
  | some parent => lineage parent ++ [object]
termination_by tree.depth object
decreasing_by exact tree.depth_lt object parent _found

theorem lineage_of_parentless {object : Object} (parentless : tree.parent object = none) :
    tree.lineage object = [object] := by
  rw [lineage]
  split
  · rfl
  next parent found => simp [parentless] at found

theorem lineage_of_parent {object parent : Object} (found : tree.parent object = some parent) :
    tree.lineage object = tree.lineage parent ++ [object] := by
  rw [lineage]
  split
  next parentless => simp [found] at parentless
  next other otherFound =>
    rw [found] at otherFound
    rw [Option.some.inj otherFound]

/-- Induction from the parentless objects downwards. -/
theorem lineageInduction {motive : Object → Prop}
    (parentless : ∀ object, tree.parent object = none → motive object)
    (child : ∀ object parent, tree.parent object = some parent → motive parent → motive object)
    (object : Object) : motive object := by
  induction level : tree.depth object using Nat.strong_induction_on generalizing object with
  | _ level ih =>
      subst level
      cases found : tree.parent object with
      | none => exact parentless object found
      | some parent =>
          exact child object parent found (ih _ (tree.depth_lt object parent found) parent rfl)

theorem pathComponents_eq (object : Object) (components : List QString) :
    tree.pathComponents object components =
      (tree.lineage object).map tree.hookName ++ components := by
  induction object using tree.lineageInduction generalizing components with
  | parentless object found =>
      rw [pathComponents, tree.lineage_of_parentless found]
      split
      · rfl
      next parent otherFound => simp [found] at otherFound
  | child object parent found ih =>
      rw [pathComponents, tree.lineage_of_parent found]
      split
      next parentless => simp [found] at parentless
      next other otherFound =>
        rw [found] at otherFound
        rw [← Option.some.inj otherFound, ih]
        simp

/-- A path is the joined names of the lineage. -/
theorem objectPath_eq (object : Object) :
    tree.objectPath object = join separator ((tree.lineage object).map tree.hookName) := by
  rw [objectPath, pathComponents_eq, List.append_nil]

theorem mem_lineage_self (object : Object) : object ∈ tree.lineage object := by
  cases found : tree.parent object with
  | none => simp [tree.lineage_of_parentless found]
  | some parent => simp [tree.lineage_of_parent found]

end ObjectTree

end Hooq

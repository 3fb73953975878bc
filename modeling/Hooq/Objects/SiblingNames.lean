import Hooq.Library.Lines
import Hooq.Objects.Tree

/-!
# Names of siblings

An object without a name is named after its class and its place among the children of its
parent.  Only siblings of the same class count.
-/

namespace Hooq

theorem ofString_hyphen : QString.ofString "-" = [QString.minus] := rfl

/-- The number at the end of a name is told from what is in front of its hyphen. -/
theorem eq_of_numbered {first second : QString} {one two : Nat}
    (same : first ++ QString.ofString "-" ++ QString.number one =
      second ++ QString.ofString "-" ++ QString.number two) : first = second ∧ one = two := by
  have free (count : Nat) : QString.minus ∉ (QString.number count).reverse := by
    intro member
    exact absurd (QString.isDigit_of_mem_number (List.mem_reverse.mp member)) (by decide)
  have reversed := congrArg List.reverse same
  simp only [ofString_hyphen, List.reverse_append, List.reverse_singleton,
    List.singleton_append] at reversed
  have read := Library.Lines.readLine_append (free one) first.reverse
  rw [reversed, Library.Lines.readLine_append (free two), Option.some.injEq,
    Prod.mk.injEq] at read
  have numbers := List.reverse_injective (List.append_cancel_right read.1)
  exact ⟨(List.reverse_injective read.2).symm,
    (Int.ofNat.inj (QString.number_injective numbers)).symm⟩

namespace ObjectTree

variable {Object : Type} [DecidableEq Object] (tree : ObjectTree Object)

/-- How many of these objects are of the class of the given one. -/
def countOfClass (object : Object) (siblings : List Object) : Nat :=
  siblings.countP fun sibling => tree.metaObject sibling = tree.metaObject object

theorem countOfClass_cons (object sibling : Object) (rest : List Object) :
    tree.countOfClass object (sibling :: rest) = tree.countOfClass object rest +
      if tree.metaObject sibling = tree.metaObject object then 1 else 0 := by
  simp [countOfClass, List.countP_cons]

/-- The loop counts the siblings of the same class in front of the object. -/
theorem siblingIndex_append {object : Object} {before : List Object} (absent : object ∉ before)
    (index : Nat) (after : List Object) :
    tree.siblingIndex object index (before ++ object :: after) =
      index + tree.countOfClass object before := by
  induction before generalizing index with
  | nil => exact if_pos rfl
  | cons sibling before ih =>
      rw [List.mem_cons, not_or] at absent
      rw [List.cons_append, siblingIndex, if_neg (Ne.symm absent.1), countOfClass_cons]
      split
      next => rw [ih absent.2, Nat.add_right_comm, Nat.add_assoc]
      next => rw [ih absent.2, Nat.add_zero]

/-- The name of an object that has none itself. -/
theorem rawObjectName_of_unnamed {parent child : Object} {before after : List Object}
    (siblings : tree.children parent = before ++ child :: after)
    (unnamed : tree.objectName child = []) :
    tree.rawObjectName child = (tree.metaObject child).className ++ QString.ofString "-" ++
      QString.number (tree.countOfClass child before + 1 : Nat) := by
  have isParent : tree.parent child = some parent :=
    (tree.mem_children child parent).mp (by simp [siblings])
  have distinct := tree.children_nodup parent
  rw [siblings] at distinct
  have absent : child ∉ before := by
    intro member
    exact (List.nodup_append.mp distinct).2.2 child member child List.mem_cons_self rfl
  rw [rawObjectName, if_neg (not_not_intro unnamed), isParent, Nat.add_comm,
    ← tree.siblingIndex_append absent 1 after, ← siblings]

/-- Among the children of a parent, classes are told apart by their names. -/
def ClassNamesIdentify (parent : Object) : Prop :=
  ∀ child ∈ tree.children parent, ∀ sibling ∈ tree.children parent,
    (tree.metaObject child).className = (tree.metaObject sibling).className →
      tree.metaObject child = tree.metaObject sibling

theorem countOfClass_congr {object other : Object}
    (sameClass : tree.metaObject object = tree.metaObject other) (siblings : List Object) :
    tree.countOfClass object siblings = tree.countOfClass other siblings := by
  rw [countOfClass, countOfClass, sameClass]

/-- Of two objects of one class, the later one has the higher number. -/
theorem countOfClass_lt {first second : Object} (before between : List Object)
    (sameClass : tree.metaObject first = tree.metaObject second) :
    tree.countOfClass first before <
      tree.countOfClass second (before ++ first :: between) := by
  have split : tree.countOfClass second (before ++ first :: between) =
      tree.countOfClass second before + tree.countOfClass second (first :: between) :=
    List.countP_append
  rw [split, countOfClass_cons, if_pos sameClass, tree.countOfClass_congr sameClass]
  omega

/-- A later sibling without a name is not named like an earlier one. -/
theorem rawObjectName_ne_of_before {parent first second : Object}
    {before between after : List Object} (identify : tree.ClassNamesIdentify parent)
    (siblings : tree.children parent = before ++ first :: (between ++ second :: after))
    (firstUnnamed : tree.objectName first = []) (secondUnnamed : tree.objectName second = []) :
    tree.rawObjectName first ≠ tree.rawObjectName second := by
  intro same
  have later : tree.children parent = (before ++ first :: between) ++ second :: after := by
    rw [siblings, List.append_assoc, List.cons_append]
  rw [tree.rawObjectName_of_unnamed siblings firstUnnamed,
    tree.rawObjectName_of_unnamed later secondUnnamed] at same
  obtain ⟨sameName, sameNumber⟩ := eq_of_numbered same
  have sameClass := identify first (by simp [siblings]) second (by simp [siblings]) sameName
  have higher := tree.countOfClass_lt before between sameClass
  omega

theorem rawObjectName_ne {parent child other : Object}
    (identify : tree.ClassNamesIdentify parent) (isChild : child ∈ tree.children parent)
    (otherChild : other ∈ tree.children parent) (differ : child ≠ other)
    (unnamed : tree.objectName child = []) (otherUnnamed : tree.objectName other = []) :
    tree.rawObjectName child ≠ tree.rawObjectName other := by
  obtain ⟨before, after, siblings⟩ := List.append_of_mem isChild
  rw [siblings, List.mem_append, List.mem_cons] at otherChild
  rcases otherChild with inFront | same | behind
  · obtain ⟨front, between, rfl⟩ := List.append_of_mem inFront
    rw [List.append_assoc, List.cons_append] at siblings
    exact (tree.rawObjectName_ne_of_before identify siblings otherUnnamed unnamed).symm
  · exact absurd same.symm differ
  · obtain ⟨between, back, rfl⟩ := List.append_of_mem behind
    exact tree.rawObjectName_ne_of_before identify siblings unnamed otherUnnamed

/-- Children without names are named after their classes and their places among the children
of the same class, and no two of them are named alike. -/
theorem unnamedChildren_spec (parent : Object) (identify : tree.ClassNamesIdentify parent) :
    (∀ before child after, tree.children parent = before ++ child :: after →
      tree.objectName child = [] →
        tree.rawObjectName child = (tree.metaObject child).className ++ QString.ofString "-" ++
          QString.number (tree.countOfClass child before + 1 : Nat)) ∧
      ∀ child ∈ tree.children parent, ∀ other ∈ tree.children parent, child ≠ other →
        tree.objectName child = [] → tree.objectName other = [] →
          tree.rawObjectName child ≠ tree.rawObjectName other := by
  constructor
  · intro before child after siblings unnamed
    exact tree.rawObjectName_of_unnamed siblings unnamed
  · intro child isChild other otherChild differ unnamed otherUnnamed
    exact tree.rawObjectName_ne identify isChild otherChild differ unnamed otherUnnamed

/-- Object 0 is a dialog.  Its children are a button, a label, a button that is named `ok`,
and another button. -/
def mixedDialog : ObjectTree (Fin 5) where
  objectName object := if object = 3 then "ok" else []
  metaObject object :=
    if object = 0 then ⟨0, "QDialog"⟩ else if object = 2 then ⟨2, "QLabel"⟩ else ⟨1, "QPushButton"⟩
  isWidget _ := true
  parent object := if object = 0 then none else some 0
  children object := if object = 0 then [1, 2, 3, 4] else []
  topLevelWidgets := [0]
  depth object := if object = 0 then 0 else 1
  mem_children := by decide
  children_nodup := by decide
  depth_lt := by decide
  topLevelWidgets_isWidget := by decide

/-- The label does not count among the buttons, and the named button does. -/
theorem mixedDialog_names :
    mixedDialog.rawObjectName 4 = QString.ofString "QPushButton-3" ∧
      mixedDialog.rawObjectName 1 ≠ mixedDialog.rawObjectName 4 := by
  have identify : mixedDialog.ClassNamesIdentify 0 := by
    rw [ClassNamesIdentify]
    decide
  obtain ⟨named, distinct⟩ := mixedDialog.unnamedChildren_spec 0 identify
  constructor
  · rw [named [1, 2, 3] 4 [] rfl rfl]
    decide
  · exact distinct 1 (by decide) 4 (by decide) (by decide) rfl rfl

end ObjectTree

end Hooq

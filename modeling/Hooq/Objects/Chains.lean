import Hooq.Objects.Lookup

/-!
# What the player finds

Every object that is found lies at the end of a chain of children that spells the path.
Where names are unique among siblings, every such chain is found.
-/

namespace Hooq

open Library.Separator

namespace ObjectTree

variable {Object : Type} [DecidableEq Object] (tree : ObjectTree Object)

/-- A chain of children from a top-level widget down to an object. -/
inductive ChainTo : List Object → Object → Prop where
  | widget {widget : Object} (topLevel : widget ∈ tree.topLevelWidgets) : ChainTo [widget] widget
  | child {chain : List Object} {parent child : Object} (above : ChainTo chain parent)
      (below : child ∈ tree.children parent) : ChainTo (chain ++ [child]) child

/-- No two top-level widgets and no two siblings have the same name. -/
structure NamesApart : Prop where
  widgets : ∀ first ∈ tree.topLevelWidgets, ∀ second ∈ tree.topLevelWidgets,
    tree.hookName first = tree.hookName second → first = second
  siblings : ∀ parent, ∀ first ∈ tree.children parent, ∀ second ∈ tree.children parent,
    tree.hookName first = tree.hookName second → first = second

/-- `Player::findObject` in at most so many calls of itself. -/
def findObjectWithin : Nat → QString → Option (Option Object)
  | 0, _ => none
  | calls + 1, path =>
      let parts := split separator path
      match parts.getLast? with
      | none => some none
      | some name =>
          if parts.dropLast = [] then
            some (tree.topLevelWidgets.find? fun widget => tree.hookName widget = name)
          else
            match findObjectWithin calls (join separator parts.dropLast) with
            | none => none
            | some none => some none
            | some (some parent) =>
                some ((tree.children parent).find? fun child => tree.hookName child = name)

/-- What `findObject` does on a path: it ends, what it finds lies on the path, and what lies on
the path is found if names are unique among siblings. -/
structure Locates (path : QString) : Prop where
  ends : tree.findObjectWithin (split separator path).length path = some (tree.findObject path)
  sound : ∀ object, tree.findObject path = some object →
    ∃ chain, tree.ChainTo chain object ∧ join separator (chain.map tree.hookName) = path
  complete : tree.NamesApart → ∀ chain object, tree.ChainTo chain object →
    chain.map tree.hookName = split separator path → tree.findObject path = some object

variable {tree}

theorem ChainTo.ne_nil {chain : List Object} {object : Object} (chained : tree.ChainTo chain object) :
    chain ≠ [] := by
  cases chained <;> simp

/-- What is found below a list of names lies at the end of a chain with these names. -/
theorem chain_of_descend {names : List QString} {object : Object}
    (found : tree.descend names.reverse = some object) :
    ∃ chain, tree.ChainTo chain object ∧ chain.map tree.hookName = names := by
  induction names using List.reverseRecOn generalizing object with
  | nil => cases found
  | append_singleton parents name ih =>
      rw [List.reverse_append, List.reverse_singleton, List.singleton_append] at found
      by_cases none : parents = []
      · subst none
        change (tree.topLevelWidgets.find? fun widget => tree.hookName widget = name) =
          some object at found
        have named : tree.hookName object = name := by simpa using List.find?_some found
        exact ⟨[object], .widget (List.mem_of_find?_eq_some found), by rw [← named]; rfl⟩
      · rw [tree.descend_cons (by simpa using none)] at found
        rcases Option.bind_eq_some_iff.mp found with ⟨parent, above, below⟩
        rcases ih above with ⟨chain, chained, names⟩
        have named : tree.hookName object = name := by simpa using List.find?_some below
        refine ⟨chain ++ [object], .child chained (List.mem_of_find?_eq_some below), ?_⟩
        rw [List.map_append, names, List.map_singleton, named]

/-- The first of its name is the only one, where names are unique. -/
theorem find_of_apart {objects : List Object} {object : Object}
    (apart : ∀ first ∈ objects, ∀ second ∈ objects,
      tree.hookName first = tree.hookName second → first = second)
    (member : object ∈ objects) :
    (objects.find? fun other => tree.hookName other = tree.hookName object) = some object := by
  cases found : objects.find? fun other => tree.hookName other = tree.hookName object with
  | none => simpa using List.find?_eq_none.mp found object member
  | some other =>
      have named : tree.hookName other = tree.hookName object := by
        simpa using List.find?_some found
      rw [apart other (List.mem_of_find?_eq_some found) object member named]

theorem descend_of_chain (apart : tree.NamesApart) {chain : List Object} {object : Object}
    (chained : tree.ChainTo chain object) :
    tree.descend (chain.map tree.hookName).reverse = some object := by
  induction chained with
  | widget topLevel => exact find_of_apart apart.widgets topLevel
  | @child chain parent child above below ih =>
      have named : (chain.map tree.hookName).reverse ≠ [] := by
        simpa using above.ne_nil
      rw [List.map_append, List.reverse_append, List.map_singleton, List.reverse_singleton,
        List.singleton_append, tree.descend_cons named, ih]
      exact find_of_apart (apart.siblings parent) below

variable (tree)

/-- As many calls are enough as the path has names. -/
theorem findObjectWithin_eq (calls : Nat) (path : QString)
    (enough : (split separator path).length ≤ calls) :
    tree.findObjectWithin calls path = some (tree.findObject path) := by
  induction calls generalizing path with
  | zero =>
      exact absurd (List.length_eq_zero_iff.mp (Nat.le_zero.mp enough))
        (split_ne_nil separator path)
  | succ calls ih =>
      rw [findObjectWithin, findObject]
      cases (split separator path).getLast? with
      | none => rfl
      | some name =>
          dsimp only
          split
          next => rfl
          next several =>
            have fewer : (split separator
                (join separator (split separator path).dropLast)).length ≤ calls := by
              rw [split_join_dropLast separator_ne_nil path several, List.length_dropLast]
              omega
            rw [ih _ fewer]
            cases tree.findObject (join separator (split separator path).dropLast) <;> rfl

theorem locates (path : QString) : tree.Locates path where
  ends := tree.findObjectWithin_eq _ path (Nat.le_refl _)
  sound := by
    intro object found
    rw [findObject_eq] at found
    rcases chain_of_descend found with ⟨chain, chained, names⟩
    refine ⟨chain, chained, ?_⟩
    rw [names, join_split separator_ne_nil]
  complete := by
    intro apart chain object chained names
    rw [findObject_eq, ← names]
    exact descend_of_chain apart chained

end ObjectTree

end Hooq

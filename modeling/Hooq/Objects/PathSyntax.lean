import Hooq.Objects.Lookup

/-!
# The syntax of paths

A path is the names of the objects on the way down, joined with `::`.  A separator that is
part of a name is written `:_:`; three colons in a row, and a colon at the end of a name,
leave separators where there should be none.
-/

namespace Hooq

open Library.Separator

namespace ObjectHookName

/-- What `objectName` makes of a name. -/
def escapedName (rawName : QString) : QString :=
  replace ObjectTree.separator (QString.ofString ":_:") rawName

/-- What `objectPath` makes of the names on the way down. -/
def joinedPath (rawNames : List QString) : QString :=
  join ObjectTree.separator (rawNames.map escapedName)

theorem hookName_eq_escapedName {Object : Type} [DecidableEq Object] (tree : ObjectTree Object)
    (object : Object) : tree.hookName object = escapedName (tree.rawObjectName object) :=
  rfl

theorem objectPath_eq_joinedPath {Object : Type} [DecidableEq Object]
    (tree : ObjectTree Object) (object : Object) :
    tree.objectPath object = joinedPath ((tree.lineage object).map tree.rawObjectName) := by
  rw [tree.objectPath_eq, joinedPath, List.map_map]
  rfl

/-- `findObject` splits the path into the escaped names again. -/
def SplitsBack (rawNames : List QString) : Prop :=
  split ObjectTree.separator (joinedPath rawNames) = rawNames.map escapedName

instance (rawNames : List QString) : Decidable (SplitsBack rawNames) :=
  inferInstanceAs (Decidable (_ = _))

theorem escapedName_eq (rawName : QString) :
    escapedName rawName =
      replace [ObjectTree.colon, ObjectTree.colon] [ObjectTree.colon, 95, ObjectTree.colon]
        rawName := by
  rw [escapedName, ObjectTree.separator_eq]
  rfl

theorem escapedName_free_iff {rawName : QString} :
    ¬ObjectTree.separator <:+: escapedName rawName ↔
      ¬[ObjectTree.colon, ObjectTree.colon, ObjectTree.colon] <:+: rawName := by
  rw [escapedName_eq, ObjectTree.separator_eq]
  exact replace_doubled_free_iff (by decide)

theorem escapedName_guards_iff {rawName : QString} :
    Guards ObjectTree.separator (escapedName rawName) ↔
      ¬[ObjectTree.colon, ObjectTree.colon, ObjectTree.colon] <:+: rawName ∧
        rawName.getLast? ≠ some ObjectTree.colon := by
  rw [← escapedName_free_iff, ObjectTree.separator_eq, guards_doubled_iff]
  apply and_congr_right'
  rw [escapedName_eq, replace_doubled_getLast?]

/-- A path is split into the names that it was made of exactly if no name has three colons in
a row, and no name but the last ends with a colon. -/
theorem splitsBack_iff (first : QString) (rest : List QString) :
    SplitsBack (first :: rest) ↔
      (∀ rawName ∈ first :: rest,
        ¬[ObjectTree.colon, ObjectTree.colon, ObjectTree.colon] <:+: rawName) ∧
      ∀ rawName ∈ (first :: rest).dropLast, rawName.getLast? ≠ some ObjectTree.colon := by
  rw [SplitsBack, joinedPath, split_join_iff ObjectTree.separator_ne_nil (by simp),
    ← List.map_dropLast, List.forall_mem_map, List.forall_mem_map]
  simp only [escapedName_guards_iff, escapedName_free_iff]
  constructor
  · rintro ⟨guarded, free⟩
    exact ⟨free, fun rawName member => (guarded rawName member).2⟩
  · rintro ⟨free, ends⟩
    exact ⟨fun rawName member => ⟨free rawName (List.mem_of_mem_dropLast member),
      ends rawName member⟩, free⟩

/-- Three colons in a row hold a separator behind the one that is escaped, and a colon at the
end of a name moves the separator behind it. -/
theorem colons_not_splitsBack :
    (¬∀ first rest, SplitsBack (first :: rest)) ∧ ¬SplitsBack [":::"] ∧ ¬SplitsBack ["a:", "b"] := by
  refine ⟨fun always => ?_, by decide, by decide⟩
  exact absurd (always ":::" []) (by decide)

end ObjectHookName

end Hooq

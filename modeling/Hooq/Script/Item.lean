import Hooq.Qt.Variant

/-!
# Script items and their insertion

A recording is compiled to a list of items, one statement each.  The inserter
lets a post-processor add items to the list that its output is collected in,
and keeps an index of its own next to that list.
-/

namespace Hooq

/-- `XmlToQtScript::Item`. -/
structure Item where
  target : Target
  targetClass : QString
  method : QString
  parameters : QVariant
  deriving DecidableEq, Repr

namespace Item

/-- The constructor for items without a target. -/
def ofMethod (method : QString) (parameters : QVariant) : Item :=
  ⟨.null, [], method, parameters⟩

/-- A default-constructed item. -/
def empty : Item := ⟨.null, [], [], .invalid⟩

/-- `Item::isValid`. -/
def isValid (item : Item) : Bool :=
  item.method ≠ []

end Item

/-- `QList::insert`: an index outside the list prepends or appends. -/
def insertAt {α : Type} (list : List α) (index : Int) (value : α) : List α :=
  list.take index.toNat ++ value :: list.drop index.toNat

/-- `Inserter::Position`. -/
inductive Position where
  | beginning
  | beforeCurrentItem
  deriving DecidableEq, Repr

/-- `XmlToQtScript::Item::Inserter`, over any kind of element. -/
structure Inserter (α : Type) where
  rootList : List α
  originalStart : Int
  itemIndex : Int
  appendedItems : Int
  deriving DecidableEq, Repr

namespace Inserter

variable {α : Type}

/-- `Inserter::reset`. -/
def reset (inserter : Inserter α) : Inserter α where
  rootList := inserter.rootList
  originalStart := 0
  itemIndex := inserter.rootList.length - 1
  appendedItems := 0

/-- The constructor, on the list that the driver collects its output in. -/
def new (rootList : List α) : Inserter α :=
  reset ⟨rootList, 0, 0, 0⟩

/-- `Inserter::insert`. -/
def insert (inserter : Inserter α) (item : α) : Position → Inserter α
  | .beginning =>
      { inserter with
        rootList := insertAt inserter.rootList inserter.originalStart item
        originalStart := inserter.originalStart + 1
        itemIndex := inserter.itemIndex + 1 }
  | .beforeCurrentItem =>
      { inserter with
        rootList := insertAt inserter.rootList inserter.itemIndex item
        itemIndex := inserter.itemIndex + 1 }

/-- `Inserter::next`. -/
def next (inserter : Inserter α) : Inserter α :=
  { inserter with
    itemIndex := inserter.itemIndex + (inserter.appendedItems + 1)
    appendedItems := 0 }

/-- Several calls of `insert`, in order. -/
def insertAll (inserter : Inserter α) (insertions : List (α × Position)) : Inserter α :=
  insertions.foldl (fun inserter insertion => inserter.insert insertion.1 insertion.2) inserter

/-- The driver's own `append` to the list. -/
def append (inserter : Inserter α) (item : α) : Inserter α :=
  { inserter with rootList := inserter.rootList ++ [item] }

/-- The driver's own `clear` of the list. -/
def clear (inserter : Inserter α) : Inserter α :=
  { inserter with rootList := [] }

end Inserter

section InsertAt

variable {α : Type}

@[simp] theorem length_insertAt (list : List α) (index : Int) (value : α) :
    (insertAt list index value).length = list.length + 1 := by
  simp only [insertAt, List.length_append, List.length_cons, List.length_take, List.length_drop]
  omega

/-- At or behind the end, insertion appends. -/
theorem insertAt_of_length_le {list : List α} {index : Int} {value : α}
    (beyond : list.length ≤ index) : insertAt list index value = list ++ [value] := by
  have beyondNat : list.length ≤ index.toNat := by omega
  rw [insertAt, List.take_of_length_le beyondNat, List.drop_of_length_le beyondNat]

/-- Behind a front part of the right length, insertion splits the list there. -/
theorem insertAt_append {front back : List α} {index : Int} {value : α}
    (place : index = front.length) :
    insertAt (front ++ back) index value = front ++ value :: back := by
  rw [insertAt, place, Int.toNat_natCast, List.take_left, List.drop_left]

/-- Insertion keeps the other elements in their order. -/
theorem sublist_insertAt (list : List α) (index : Int) (value : α) :
    list.Sublist (insertAt list index value) := by
  conv_lhs => rw [← List.take_append_drop index.toNat list]
  exact List.Sublist.append (List.Sublist.refl _) (List.sublist_cons_self value _)

theorem mem_insertAt {list : List α} {index : Int} {value other : α} :
    other ∈ insertAt list index value ↔ other = value ∨ other ∈ list := by
  conv_rhs => rw [← List.take_append_drop index.toNat list]
  simp only [insertAt, List.mem_append, List.mem_cons]
  exact or_left_comm

theorem map_insertAt {β : Type} (list : List α) (index : Int) (value : α) (image : α → β) :
    (insertAt list index value).map image = insertAt (list.map image) index (image value) := by
  simp [insertAt]

/-- A filter that rejects the inserted element does not see the insertion. -/
theorem filter_insertAt_of_rejected {list : List α} {index : Int} {value : α} {keep : α → Bool}
    (rejected : keep value = false) :
    (insertAt list index value).filter keep = list.filter keep := by
  rw [insertAt, List.filter_append, List.filter_cons_of_neg (by simp [rejected]),
    ← List.filter_append, List.take_append_drop]

end InsertAt

end Hooq

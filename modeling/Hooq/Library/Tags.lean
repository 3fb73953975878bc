import Mathlib.Data.List.Nodup

/-!
# Documents as sequences of tags

What a writer of markup leaves on its device, token by token, and a reader that
checks the nesting: one root element, closed start tags, attributes that are given
once, and end tags that match.
-/

namespace Hooq.Library.Tags

/-- A piece of markup.  A start tag is its opening, its attributes and the bracket that
closes it. -/
inductive Token (Name Text : Type) where
  | declaration
  | opening (name : Name)
  | attribute (name : Name) (value : Text)
  | closing
  | text (text : Text)
  | ending (name : Name)
  deriving DecidableEq, Repr

/-- How far a document is read.  In a start tag and in content the open elements are
known, the innermost one first. -/
inductive Reading (Name : Type) where
  | start
  | prolog
  | startTag (name : Name) (outer attributes : List Name)
  | content (name : Name) (outer : List Name)
  | finished
  | malformed
  deriving DecidableEq, Repr

section

variable {Name Text : Type} [DecidableEq Name]

namespace Reading

def next : Reading Name → Token Name Text → Reading Name
  | .start, .declaration => .prolog
  | .prolog, .opening name => .startTag name [] []
  | .startTag name outer attributes, .attribute given _ =>
      if given ∈ attributes then .malformed
      else .startTag name outer (given :: attributes)
  | .startTag name outer _, .closing => .content name outer
  | .content name outer, .text _ => .content name outer
  | .content name outer, .opening inner => .startTag inner (name :: outer) []
  | .content name outer, .ending ended =>
      if ended = name then
        match outer with
        | [] => .finished
        | above :: outer => .content above outer
      else
        .malformed
  | _, _ => .malformed

def read (reading : Reading Name) (tokens : List (Token Name Text)) : Reading Name :=
  tokens.foldl next reading

@[simp] theorem read_nil (reading : Reading Name) :
    reading.read ([] : List (Token Name Text)) = reading := rfl

theorem read_cons (reading : Reading Name) (token : Token Name Text)
    (tokens : List (Token Name Text)) :
    reading.read (token :: tokens) = (reading.next token).read tokens := rfl

theorem read_append (reading : Reading Name) (front back : List (Token Name Text)) :
    reading.read (front ++ back) = (reading.read front).read back :=
  List.foldl_append

theorem read_malformed (tokens : List (Token Name Text)) :
    (malformed : Reading Name).read tokens = .malformed := by
  induction tokens with
  | nil => rfl
  | cons token tokens ih => exact ih

end Reading

/-- The tokens make up a document. -/
def IsDocument (tokens : List (Token Name Text)) : Prop :=
  Reading.start.read tokens = .finished

instance (tokens : List (Token Name Text)) : Decidable (IsDocument tokens) :=
  inferInstanceAs (Decidable (_ = _))

/-- An element with its content. -/
def element (name : Name) (attributes : List (Name × Text)) (inner : List (Token Name Text)) :
    List (Token Name Text) :=
  .opening name :: attributes.map (fun given => .attribute given.1 given.2) ++
    .closing :: inner ++ [.ending name]

namespace Reading

theorem read_attributes (name : Name) (outer seen : List Name)
    (attributes : List (Name × Text)) (distinct : (attributes.map Prod.fst ++ seen).Nodup) :
    (Reading.startTag name outer seen).read
        (attributes.map fun given => .attribute given.1 given.2) =
      .startTag name outer ((attributes.map Prod.fst).reverse ++ seen) := by
  induction attributes generalizing seen with
  | nil => rfl
  | cons given attributes ih =>
      rw [List.map_cons, List.cons_append, List.nodup_cons] at distinct
      have fresh : given.1 ∉ seen := fun member =>
        distinct.1 (List.mem_append_right _ member)
      have further : (attributes.map Prod.fst ++ given.1 :: seen).Nodup := by
        rw [List.nodup_middle, List.nodup_cons]
        exact distinct
      rw [List.map_cons, read_cons, next, if_neg fresh, ih _ further]
      simp

/-- An element leaves a reader where it was. -/
theorem read_element (above : Name) (outer : List Name) (name : Name)
    {attributes : List (Name × Text)} (distinct : (attributes.map Prod.fst).Nodup)
    {inner : List (Token Name Text)}
    (balanced : (Reading.content name (above :: outer)).read inner =
      .content name (above :: outer)) :
    (Reading.content above outer).read (element name attributes inner) =
      .content above outer := by
  have attributesRead := read_attributes name (above :: outer) [] attributes
    (by rw [List.append_nil]; exact distinct)
  rw [element, List.append_assoc, List.cons_append, read_cons, read_append]
  change ((Reading.startTag name (above :: outer) []).read _).read _ = _
  rw [attributesRead, List.cons_append, read_cons, read_append]
  change ((Reading.content name (above :: outer)).read inner).read _ = _
  rw [balanced, read_cons, next, if_pos rfl]
  rfl

/-- Several elements do so as well. -/
theorem read_flatMap {α : Type} (tokens : α → List (Token Name Text)) (reading : Reading Name)
    {items : List α} (balanced : ∀ item ∈ items, reading.read (tokens item) = reading) :
    reading.read (items.flatMap tokens) = reading := by
  induction items with
  | nil => rfl
  | cons item items ih =>
      rw [List.flatMap_cons, read_append, balanced item List.mem_cons_self]
      exact ih fun other member => balanced other (List.mem_cons_of_mem _ member)

end Reading

end

end Hooq.Library.Tags

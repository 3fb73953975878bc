import Hooq.Playback.Chunks

/-!
# The entries for a document

Below the root element, the player finds every element of a document with the text that
it needs.  What it queues for a document is what it decodes of the elements, one by one.
-/

namespace Hooq

/-! ## The elements of a document -/

/-- A document of elements in the root element of a recording. -/
def hooqDocument (elements : List Element) : List Token :=
  .start "hooq" [] :: (elements.flatMap Element.tokens ++ [.stop])

theorem elementsFrom_textTokens (depth : Nat) (element : Element) (text : QString)
    (rest : List Token) :
    elementsFrom depth (some element) (textTokens text ++ rest) =
      elementsFrom depth (some { element with text := element.text ++ text }) rest := by
  induction text generalizing element with
  | nil => rw [List.append_nil]; rfl
  | cons character text ih =>
      change elementsFrom depth (some element)
        (.character character :: (textTokens text ++ rest)) = _
      rw [elementsFrom, ih, List.append_assoc]
      rfl

theorem elementsFrom_skipText (depth : Nat) (text : QString) (rest : List Token) :
    elementsFrom (depth + 1) none (textTokens text ++ rest) =
      elementsFrom (depth + 1) none rest := by
  induction text with
  | nil => rfl
  | cons character text ih =>
      change elementsFrom (depth + 1) none
        (.character character :: (textTokens text ++ rest)) = _
      rw [elementsFrom, if_neg (fun outside => absurd outside.1 (Nat.succ_ne_zero depth)), ih]

/-- The player finds each element of a document, with its text if it is one that the
player reads. -/
theorem elementsFrom_tokens (element : Element) (rest : List Token) :
    elementsFrom 1 none (element.tokens ++ rest) =
      { element with text := if Player.readsText element.name then element.text else [] } ::
        elementsFrom 1 none rest := by
  rw [Element.tokens, List.cons_append, List.append_assoc, elementsFrom]
  split
  next =>
    rw [elementsFrom_textTokens, List.singleton_append, elementsFrom, if_neg (by decide)]
    rfl
  next =>
    rw [elementsFrom_skipText, List.singleton_append, elementsFrom, if_neg (by decide)]

/-- What is found in a stream has its start tag there. -/
theorem mem_of_elementsFrom {depth : Nat} {current : Option Element} {tokens : List Token}
    {element : Element} (found : element ∈ elementsFrom depth current tokens) :
    (∃ attributes, .start element.name attributes ∈ tokens) ∨
      ∃ inside ∈ current, element.name = inside.name := by
  have behind {first : Token} {rest : List Token}
      (later : (∃ attributes, .start element.name attributes ∈ rest) ∨
        ∃ inside ∈ (none : Option Element), element.name = inside.name) :
      ∃ attributes, .start element.name attributes ∈ first :: rest := by
    rcases later with ⟨attributes, member⟩ | ⟨_, impossible, _⟩
    · exact ⟨attributes, List.mem_cons_of_mem _ member⟩
    · cases impossible
  fun_induction elementsFrom depth current tokens with
  | case1 | case8 | case10 => cases found
  | case2 depth inside =>
      rw [List.mem_singleton.mp found]
      exact .inr ⟨inside, rfl, rfl⟩
  | case5 depth inside name attributes rest =>
      rcases List.mem_cons.mp found with same | child
      · rw [same]
        exact .inr ⟨inside, rfl, rfl⟩
      · split at child
        · rw [List.mem_singleton.mp child]
          exact .inl ⟨attributes, List.mem_cons_self⟩
        · cases child
  | case3 depth inside character rest ih =>
      rcases ih found with ⟨attributes, member⟩ | ⟨_, same, name⟩
      · exact .inl ⟨attributes, List.mem_cons_of_mem _ member⟩
      · cases same
        exact .inr ⟨inside, rfl, name⟩
  | case4 depth inside rest ih =>
      rcases List.mem_cons.mp found with same | later
      · rw [same]
        exact .inr ⟨inside, rfl, rfl⟩
      · split at later
        · cases later
        · exact .inl (behind (ih later))
  | case6 depth name attributes rest isText ih =>
      rcases ih found with ⟨given, member⟩ | ⟨_, same, isName⟩
      · exact .inl ⟨given, List.mem_cons_of_mem _ member⟩
      · cases same
        rw [isName]
        exact .inl ⟨attributes, List.mem_cons_self⟩
  | case7 depth name attributes rest noText ih =>
      rcases List.mem_cons.mp found with same | later
      · rw [same]
        exact .inl ⟨attributes, List.mem_cons_self⟩
      · exact .inl (behind (ih later))
  | case9 depth character rest passed ih => exact .inl (behind (ih found))
  | case11 depth rest below ih => exact .inl (behind (ih found))

/-! ## What the player decodes -/

section

variable (keys : KeySequences) {Object : Type} [DecidableEq Object]
  (application : Application Object)

theorem decode_readText (element : Element) :
    Player.decode keys application
        { element with text := if Player.readsText element.name then element.text else [] } =
      Player.decode keys application element := by
  split
  next => rfl
  next unread =>
    apply Player.History.decode_text
    intro isSleep
    simp only [Player.readsText, Bool.or_eq_true, decide_eq_true_eq, not_or] at unread
    exact absurd isSleep unread.1

/-- The queue that the elements of a document ask for, whether its end is there or not. -/
theorem entries_elements (elements : List Element) {rest : List Token}
    (nothing : elementsFrom 1 none rest = []) :
    Player.History.entries keys application
        (elementsFrom 0 none (.start "hooq" [] :: (elements.flatMap Element.tokens ++ rest))) =
      elements.flatMap (Player.elementEntries keys application) := by
  have root : elementsFrom 0 none
      (.start "hooq" [] :: (elements.flatMap Element.tokens ++ rest)) =
      ⟨"hooq", [], []⟩ :: elementsFrom 1 none (elements.flatMap Element.tokens ++ rest) := rfl
  rw [root, Player.History.entries_cons]
  change Player.History.entries keys application _ = _
  induction elements with
  | nil =>
      rw [List.flatMap_nil, List.nil_append, nothing]
      rfl
  | cons element elements ih =>
      rw [List.flatMap_cons, List.append_assoc, elementsFrom_tokens, Player.History.entries_cons,
        Player.History.elementEntries_congr (decode_readText keys application element),
        List.flatMap_cons]
      exact congrArg _ (ih rfl)

/-- The queue that a whole document asks for. -/
theorem entries_hooqDocument (elements : List Element) :
    Player.History.entries keys application (elementsFrom 0 none (hooqDocument elements)) =
      elements.flatMap (Player.elementEntries keys application) :=
  entries_elements keys application elements rfl

end

end Hooq

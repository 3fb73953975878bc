import Mathlib.Data.List.Chain

/-!
# Spaced and guarded lists

Conditions on neighbours in a list, and the edits that keep them.  In a spaced
list every two neighbours have a quiet one among them.  In a guarded list no lead
stands directly before a guarded element.
-/

namespace Hooq.Library.Spacing

variable {α : Type}

/-- Of two neighbours at least one is quiet. -/
def Spaced (quiet : α → Prop) (list : List α) : Prop :=
  list.IsChain fun first second => quiet first ∨ quiet second

/-- No lead stands directly before a guarded element. -/
def Guarded (lead guarded : α → Prop) (list : List α) : Prop :=
  list.IsChain fun first second => lead first → ¬guarded second

section

variable {quiet : α → Prop}

theorem Spaced.of_append_right {front back : List α} (spaced : Spaced quiet (front ++ back)) :
    Spaced quiet back := by
  rw [Spaced, List.isChain_append] at spaced
  exact spaced.2.1

/-- A loud element can be taken out: its neighbours are quiet. -/
theorem Spaced.remove {front back : List α} {loud : α}
    (spaced : Spaced quiet (front ++ loud :: back)) (isLoud : ¬quiet loud) :
    Spaced quiet (front ++ back) := by
  rw [Spaced, List.isChain_append] at spaced ⊢
  rcases spaced with ⟨frontSpaced, backSpaced, junction⟩
  refine ⟨frontSpaced, backSpaced.tail, ?_⟩
  intro last isLast following _
  left
  exact (junction last isLast loud rfl).resolve_right isLoud

/-- A quiet element behind a loud one can be taken out together with it. -/
theorem Spaced.remove_pair {front back : List α} {loud hush : α}
    (spaced : Spaced quiet (front ++ loud :: hush :: back)) (isLoud : ¬quiet loud) :
    Spaced quiet (front ++ back) := by
  rw [Spaced, List.isChain_append] at spaced ⊢
  rcases spaced with ⟨frontSpaced, backSpaced, junction⟩
  refine ⟨frontSpaced, backSpaced.tail.tail, ?_⟩
  intro last isLast following _
  left
  exact (junction last isLast loud rfl).resolve_right isLoud

theorem Spaced.quiet_of_cons_cons {loud following : α} {back : List α}
    (spaced : Spaced quiet (loud :: following :: back)) (isLoud : ¬quiet loud) :
    quiet following := by
  rw [Spaced, List.isChain_cons_cons] at spaced
  exact spaced.1.resolve_left isLoud

theorem Spaced.of_suffix {part list : List α} (spaced : Spaced quiet list)
    (suffix : part <:+ list) : Spaced quiet part := by
  rcases suffix with ⟨front, rfl⟩
  exact spaced.of_append_right

/-- Loud elements can be filtered out. -/
theorem Spaced.filter {list : List α} {keep : α → Bool} (spaced : Spaced quiet list)
    (loud : ∀ element ∈ list, keep element = false → ¬quiet element) :
    Spaced quiet (list.filter keep) := by
  induction list with
  | nil => exact List.IsChain.nil
  | cons element rest ih =>
      have further := ih spaced.tail fun other member => loud other (List.mem_cons_of_mem _ member)
      cases kept : keep element with
      | false =>
          rw [List.filter_cons_of_neg (by simp [kept])]
          exact further
      | true =>
          rw [List.filter_cons_of_pos kept]
          refine List.isChain_cons.mpr ⟨?_, further⟩
          intro following isFollowing
          cases rest with
          | nil => cases isFollowing
          | cons second rest =>
              rw [Spaced, List.isChain_cons_cons] at spaced
              cases keptSecond : keep second with
              | false =>
                  left
                  exact spaced.1.resolve_right
                    (loud second (List.mem_cons_of_mem _ List.mem_cons_self) keptSecond)
              | true =>
                  rw [List.filter_cons_of_pos keptSecond] at isFollowing
                  cases isFollowing
                  exact spaced.1

/-- Where neither leads nor guarded elements are quiet, spacing guards. -/
theorem Spaced.guarded {lead guarded : α → Prop} {list : List α} (spaced : Spaced quiet list)
    (leadLoud : ∀ element, lead element → ¬quiet element)
    (guardedLoud : ∀ element, guarded element → ¬quiet element) : Guarded lead guarded list := by
  apply List.IsChain.imp _ spaced
  intro first second hush isLead isGuarded
  rcases hush with firstQuiet | secondQuiet
  · exact leadLoud first isLead firstQuiet
  · exact guardedLoud second isGuarded secondQuiet

end

section

variable {lead guarded : α → Prop}

theorem Guarded.of_append_right {front back : List α}
    (isGuarded : Guarded lead guarded (front ++ back)) : Guarded lead guarded back := by
  rw [Guarded, List.isChain_append] at isGuarded
  exact isGuarded.2.1

theorem Guarded.not_guarded_of_cons_cons {first second : α} {back : List α}
    (isGuarded : Guarded lead guarded (first :: second :: back)) (isLead : lead first) :
    ¬guarded second := by
  rw [Guarded, List.isChain_cons_cons] at isGuarded
  exact isGuarded.1 isLead

/-- An element that is neither lead nor guarded fits in anywhere. -/
theorem Guarded.insert {front back : List α} {neutral : α}
    (isGuarded : Guarded lead guarded (front ++ back)) (notLead : ¬lead neutral)
    (notGuarded : ¬guarded neutral) : Guarded lead guarded (front ++ neutral :: back) := by
  rw [Guarded, List.isChain_append] at isGuarded ⊢
  rcases isGuarded with ⟨frontGuarded, backGuarded, _⟩
  refine ⟨frontGuarded, List.isChain_cons.mpr ⟨?_, backGuarded⟩, ?_⟩
  · intro following _ isLead
    exact absurd isLead notLead
  · intro last _ following isNeutral _
    cases isNeutral
    exact notGuarded

/-- A part of the list can give way to a shorter one that begins with an element
that is not guarded. -/
theorem Guarded.replace {front back shorter : List α}
    (isGuarded : Guarded lead guarded (front ++ back))
    (shorterGuarded : Guarded lead guarded shorter)
    (head : ∀ first ∈ shorter.head?, ¬guarded first) :
    Guarded lead guarded (front ++ shorter) := by
  rw [Guarded, List.isChain_append] at isGuarded ⊢
  refine ⟨isGuarded.1, shorterGuarded, ?_⟩
  intro last _ first isFirst _
  exact head first isFirst

end

end Hooq.Library.Spacing

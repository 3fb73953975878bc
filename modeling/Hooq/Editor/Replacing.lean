import Hooq.Editor.TextDocument
import Hooq.Library.Loop
import Hooq.Library.Matches
import Hooq.Qt.Unicode

/-!
# Replacing a text

All matches of a text are replaced in the document that is searched.  The search goes on
behind what has been inserted.
-/

namespace Hooq

/-- `QTextDocument::FindFlags`, of a search forwards. -/
structure FindFlags where
  caseSensitively : Bool
  wholeWords : Bool
  deriving DecidableEq, Repr

/-- `ReplaceDialog`: its texts and its boxes. -/
structure ReplaceDialog where
  searchText : QString
  replacementText : QString
  caseInsensitive : Bool
  wholeWords : Bool
  deriving DecidableEq, Repr

def ReplaceDialog.flags (dialog : ReplaceDialog) : FindFlags :=
  ⟨!dialog.caseInsensitive, dialog.wholeWords⟩

/-- A document, and where the cursor is in it. -/
structure CursorDocument where
  document : QTextDocument
  position : Nat

section

variable (tables : CharacterTables) (toLower : QChar → QChar)

namespace QTextDocument

/-- A character of a search text fits one of the document.  A match does not leave its block,
and a space that does not break is a space like others. -/
def fits (flags : FindFlags) (sought character : QChar) : Bool :=
  let character := if character = 0xA0 then 0x20 else character
  character ≠ paragraphSeparator &&
    if flags.caseSensitively then character = sought else toLower character = toLower sought

/-- Next to a whole word there is no letter and no number in the same block. -/
def accepts (flags : FindFlags) (before behind : Option QChar) : Bool :=
  let isWord := fun character => character ≠ paragraphSeparator && tables.isLetterOrNumber character
  !flags.wholeWords || !(before.any isWord || behind.any isWord)

/-- `QTextDocument::find`: where the first match is that begins at the position or behind it. -/
def find (document : QTextDocument) (searchText : QString) (position : Nat)
    (flags : FindFlags) : Option Nat :=
  if searchText = [] then
    none
  else
    (Library.Matches.firstFrom (fits toLower flags) (accepts tables flags) searchText 0
      (document.characters.take position).getLast?
      (document.characters.drop position)).map (position + ·)

variable {tables toLower}

/-- A match is a part of the document, and not an empty one. -/
theorem find_spec {document : QTextDocument} {searchText : QString} {position start : Nat}
    {flags : FindFlags}
    (found : find tables toLower document searchText position flags = some start) :
    0 < searchText.length ∧ position ≤ start ∧
      start + searchText.length ≤ document.characters.length := by
  rw [find] at found
  split at found
  next => cases found
  next nonempty =>
    rcases Option.map_eq_some_iff.mp found with ⟨index, isFirst, rfl⟩
    have positive := List.length_pos_of_ne_nil nonempty
    have inside := Library.Matches.firstFrom_le isFirst
    rw [List.length_drop] at inside
    exact ⟨positive, Nat.le_add_right .., by omega⟩

/-- Without the flag for whole words, the first match counts. -/
theorem find_eq (document : QTextDocument) {searchText : QString} (nonempty : searchText ≠ [])
    (position : Nat) {flags : FindFlags} (anywhere : flags.wholeWords = false) :
    document.find tables toLower searchText position flags =
      (Library.Matches.first (fits toLower flags) searchText
        (document.characters.drop position)).map (position + ·) := by
  have all (before behind : Option QChar) : accepts tables flags before behind = true := by
    rw [accepts, anywhere]
    rfl
  rw [find, if_neg nonempty, Library.Matches.firstFrom_eq_first all]

end QTextDocument

namespace ScriptEditor

/-- A match is removed, and the replacement is put in its place.  The cursor is behind it. -/
def replaceMatch (dialog : ReplaceDialog) (document : QTextDocument) (start : Nat) :
    CursorDocument where
  document := (document.removeText start dialog.searchText.length).insertText start
    dialog.replacementText
  position := start + (documentText dialog.replacementText).length

theorem characters_replaceMatch {dialog : ReplaceDialog} {document : QTextDocument} {start : Nat}
    (inside : start ≤ document.characters.length) :
    (replaceMatch dialog document start).document.characters =
      document.characters.take start ++ (documentText dialog.replacementText ++
        document.characters.drop (start + dialog.searchText.length)) := by
  have length : (document.characters.take start).length = start :=
    List.length_take_of_le inside
  change (_ ++ _ : QString).take start ++ (_ ++ (_ ++ _ : QString).drop start) = _
  rw [List.take_left' length, List.drop_left' length]

/-- The loop of `replace`: as long as there is another match behind the cursor. -/
def replaceLoop (dialog : ReplaceDialog) : Library.Loop CursorDocument QTextDocument where
  body state :=
    match state.document.find tables toLower dialog.searchText state.position dialog.flags with
    | some start => .inl (replaceMatch dialog state.document start)
    | none => .inr state.document
  measure state := state.document.characters.length - state.position
  decreases := by
    intro state next goesOn
    split at goesOn
    next start found =>
      cases goesOn
      rcases QTextDocument.find_spec found with ⟨positive, behind, inside⟩
      rw [characters_replaceMatch (by omega)]
      simp only [List.length_append, List.length_take, List.length_drop, replaceMatch]
      omega
    next => cases goesOn

/-- `replace`, with what the user has accepted in the dialog, if anything. -/
def replace (document : QTextDocument) : Option ReplaceDialog → QTextDocument
  | some dialog => (replaceLoop tables toLower dialog).run ⟨document, 0⟩
  | none => document

/-- A text with the matches replaced that are found from left to right. -/
def replaced (dialog : ReplaceDialog) (text : QString) : QString :=
  if dialog.searchText = [] then
    text
  else
    Library.Matches.replace (QTextDocument.fits toLower dialog.flags) dialog.searchText
      (documentText dialog.replacementText) text

variable {tables toLower} {dialog : ReplaceDialog}

/-- Behind the last match everything stays. -/
theorem replaced_of_find_eq_none (anywhere : dialog.wholeWords = false) {state : CursorDocument}
    (none : state.document.find tables toLower dialog.searchText state.position dialog.flags =
      none) :
    replaced toLower dialog (state.document.characters.drop state.position) =
      state.document.characters.drop state.position := by
  rw [replaced]
  split
  next => rfl
  next nonempty =>
    rw [QTextDocument.find_eq _ nonempty _ anywhere, Option.map_eq_none_iff] at none
    exact Library.Matches.replace_of_none none

/-- A pass replaces the first match that is left. -/
theorem replaced_of_find_eq_some (anywhere : dialog.wholeWords = false) {state : CursorDocument}
    {start : Nat}
    (found : state.document.find tables toLower dialog.searchText state.position dialog.flags =
      some start) :
    state.document.characters.take state.position ++
        replaced toLower dialog (state.document.characters.drop state.position) =
      state.document.characters.take start ++ (documentText dialog.replacementText ++
        replaced toLower dialog
          (state.document.characters.drop (start + dialog.searchText.length))) := by
  have nonempty : dialog.searchText ≠ [] :=
    List.ne_nil_of_length_pos (QTextDocument.find_spec found).1
  rw [QTextDocument.find_eq _ nonempty _ anywhere] at found
  rcases Option.map_eq_some_iff.mp found with ⟨index, isFirst, rfl⟩
  rw [replaced, replaced, if_neg nonempty, if_neg nonempty,
    Library.Matches.replace_of_first nonempty isFirst, List.take_add, List.drop_drop,
    List.append_assoc, Nat.add_assoc]

theorem take_drop_replaceMatch (dialog : ReplaceDialog) {document : QTextDocument} {start : Nat}
    (inside : start ≤ document.characters.length) :
    (replaceMatch dialog document start).document.characters.take
        (replaceMatch dialog document start).position =
      document.characters.take start ++ documentText dialog.replacementText ∧
    (replaceMatch dialog document start).document.characters.drop
        (replaceMatch dialog document start).position =
      document.characters.drop (start + dialog.searchText.length) := by
  have length : (document.characters.take start ++ documentText dialog.replacementText).length =
      (replaceMatch dialog document start).position := by
    rw [List.length_append, List.length_take_of_le inside]
    rfl
  rw [characters_replaceMatch inside, ← List.append_assoc]
  exact ⟨List.take_left' length, List.drop_left' length⟩

/-- What is in front of the cursor stays, and the matches behind it are replaced. -/
theorem characters_run_replaceLoop (anywhere : dialog.wholeWords = false)
    (state : CursorDocument) :
    ((replaceLoop tables toLower dialog).run state).characters =
      state.document.characters.take state.position ++
        replaced toLower dialog (state.document.characters.drop state.position) := by
  apply Library.Loop.run_induction (motive := fun (state : CursorDocument)
    (result : QTextDocument) => result.characters =
      state.document.characters.take state.position ++
        replaced toLower dialog (state.document.characters.drop state.position))
  · intro state result leaves
    rw [replaceLoop] at leaves
    dsimp only at leaves
    split at leaves
    next => cases leaves
    next none =>
      cases leaves
      rw [replaced_of_find_eq_none anywhere none, List.take_append_drop]
  · intro state next result goesOn behind
    rw [replaceLoop] at goesOn
    dsimp only at goesOn
    split at goesOn
    next start found =>
      cases goesOn
      rcases QTextDocument.find_spec found with ⟨_, _, inside⟩
      rcases take_drop_replaceMatch dialog (Nat.le_of_add_right_le inside) with ⟨front, back⟩
      rw [behind, front, back, replaced_of_find_eq_some anywhere found, List.append_assoc]
    next => cases goesOn

/-- Replacing ends, and the matches of the document are replaced from left to right, whatever
the replacement is. -/
theorem replace_spec (tables : CharacterTables) (toLower : QChar → QChar)
    (document : QTextDocument) (searchText replacementText : QString) (caseInsensitive : Bool) :
    (∃ passes ≤ document.characters.length + 1,
      (replaceLoop tables toLower ⟨searchText, replacementText, caseInsensitive, false⟩).Leaves
        ⟨document, 0⟩ passes
        (replace tables toLower document
          (some ⟨searchText, replacementText, caseInsensitive, false⟩))) ∧
      (replace tables toLower document
          (some ⟨searchText, replacementText, caseInsensitive, false⟩)).characters =
        replaced toLower ⟨searchText, replacementText, caseInsensitive, false⟩
          document.characters := by
  constructor
  · exact (replaceLoop tables toLower _).leaves_run ⟨document, 0⟩
  · exact characters_run_replaceLoop rfl ⟨document, 0⟩

/-- What is inserted is not searched. -/
example : replaced id ⟨"a", "aba", false, false⟩ (QString.ofString "aca") =
    QString.ofString "abacaba" := by
  decide

end ScriptEditor

end

end Hooq

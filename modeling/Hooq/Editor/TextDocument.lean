import Hooq.Library.Lines
import Hooq.Qt.Text

/-!
# Text documents

The document of the editor as its blocks of text, and what is changed in it through cursors.
-/

namespace Hooq

/-- What stands between two blocks. -/
def paragraphSeparator : QChar := 0x2029

/-- The characters that end a block where they are inserted. -/
def isBlockEnd (character : QChar) : Bool :=
  character ∈ [0x0A, 0x0D, paragraphSeparator, 0xFDD0, 0xFDD1]

/-- A text as `QTextCursor::insertText` puts it into a document. -/
def documentText : QString → QString
  | [] => []
  | character :: rest =>
      if character = 0x0D ∧ rest.head? = some 0x0A then
        documentText rest
      else
        (if isBlockEnd character then paragraphSeparator else character) :: documentText rest

theorem eq_of_mem_documentText {text : QString} {character : QChar}
    (member : character ∈ documentText text) (ends : isBlockEnd character = true) :
    character = paragraphSeparator := by
  induction text with
  | nil => cases member
  | cons first rest ih =>
      rw [documentText] at member
      split at member
      · exact ih member
      · rcases List.mem_cons.mp member with rfl | later
        · split at ends
          next => exact if_pos (by assumption)
          next inBlock => exact absurd ends inBlock
        · exact ih later

/-- `QTextDocument`: only separators end its blocks. -/
structure QTextDocument where
  characters : QString
  separated : ∀ character ∈ characters, isBlockEnd character = true →
    character = paragraphSeparator

namespace QTextDocument

variable (document : QTextDocument)

def blocks : List QString :=
  Library.Lines.lines paragraphSeparator document.characters

/-- `QTextBlock::position` for `findBlockByNumber`.  A block that is not there is at zero. -/
def blockPosition (number : Nat) : Nat :=
  if number < document.blocks.length then
    Library.Lines.start paragraphSeparator document.characters number
  else
    0

/-- `QTextCursor::insertText` at a position. -/
def insertText (position : Nat) (text : QString) : QTextDocument where
  characters := document.characters.take position ++
    (documentText text ++ document.characters.drop position)
  separated := by
    intro character member ends
    rcases List.mem_append.mp member with before | behind
    · exact document.separated character (List.mem_of_mem_take before) ends
    · rcases List.mem_append.mp behind with inserted | after
      · exact eq_of_mem_documentText inserted ends
      · exact document.separated character (List.mem_of_mem_drop after) ends

/-- `QTextCursor::removeSelectedText`, for a selection that begins at a position. -/
def removeText (position length : Nat) : QTextDocument where
  characters := document.characters.take position ++
    document.characters.drop (position + length)
  separated := by
    intro character member ends
    rcases List.mem_append.mp member with before | behind
    · exact document.separated character (List.mem_of_mem_take before) ends
    · exact document.separated character (List.mem_of_mem_drop behind) ends

end QTextDocument

end Hooq


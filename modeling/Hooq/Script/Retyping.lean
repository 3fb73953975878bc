import Hooq.Qt.Unicode
import Hooq.Script.RemoteObject
import Hooq.Script.Typing

/-!
# Typing a text again

SimplifyStrings keeps only the characters of the keys that were pressed, and `sendText`
makes key events from the characters again.  This module says for which presses it makes
the event that was recorded.
-/

namespace Hooq

/-- The Unicode character database with its case mapping.  No character has an ASCII capital
as its lower case. -/
structure CaseTables extends CharacterTables where
  toLower : QChar → QChar
  toLower_ascii : ∀ {character}, character < 0x80 →
    toLower character =
      if 65 ≤ character ∧ character ≤ 90 then character + 32 else character
  toLower_not_capital : ∀ character, ¬(65 ≤ toLower character ∧ toLower character ≤ 90)

/-- `QChar::toLatin1`: a `char`, which is signed. -/
def QChar.toLatin1 (character : QChar) : Int8 :=
  if character > 0xFF then 0 else Int8.ofNat character.toNat

namespace CaseTables

variable (tables : CaseTables)

/-- `QChar::isUpper`. -/
def isUpper (character : QChar) : Bool :=
  tables.category character = .letterUppercase

theorem isUpper_newline : tables.isUpper 10 = false := by
  rw [isUpper, tables.category_ascii (by decide)]
  decide

end CaseTables

namespace RemoteObject

section

variable {Sequence : Type} (tables : CaseTables) (path : QString)

def keyForChar (character : QChar) : Int32 :=
  if character = 10 then
    SimplifyStrings.enterKey
  else
    (QChar.toLatin1 (tables.toLower character)).toInt32

/-- What `sendText` does for one character. -/
def sendCharacter (character : QChar) : List (Command Sequence) :=
  let interval : Int32 := 5
  if tables.isUpper character then
    let key := (QChar.toLatin1 (tables.toLower character)).toInt32
    [.key .press path SimplifyStrings.shiftKey 0 [] false 0, .sleep interval,
      .key .press path key SimplifyStrings.shiftModifier [character] false 0, .sleep interval,
      .key .release path key SimplifyStrings.shiftModifier [character] false 0, .sleep interval,
      .key .release path SimplifyStrings.shiftKey 0 [] false 0, .sleep interval]
  else
    [.key .press path (keyForChar tables character) 0 [character] false 0, .sleep interval,
      .key .release path (keyForChar tables character) 0 [character] false 0, .sleep interval]

def sendText (text : QString) : List (Command Sequence) :=
  text.flatMap (sendCharacter tables path)

end

/-! ## Events that are made again -/

/-- What a key event does: its key, its modifiers and its text. -/
structure Stroke where
  action : KeyAction
  key : Int32
  modifiers : Int32
  text : QString
  deriving DecidableEq, Repr

section

variable {Sequence : Type} {tables : CaseTables} {path : QString}

def stroke? : Command Sequence → Option Stroke
  | .key action _ key modifiers text _ _ => some ⟨action, key, modifiers, text⟩
  | _ => none

/-- The commands press the key for the character and then release it. -/
def Retypes (key modifiers : Int32) (character : QChar) (commands : List (Command Sequence)) :
    Prop :=
  [Stroke.mk .press key modifiers [character], Stroke.mk .release key modifiers [character]].Sublist
    (commands.filterMap stroke?)

/-- The code that a character is typed with: that of its lower case in Latin-1, where it is
negative from 0x80 on, and 0 outside of Latin-1; or that of the enter key. -/
def typedCode (tables : CaseTables) (character : QChar) : Int :=
  let lower := (tables.toLower character).toNat
  if character = 10 then SimplifyStrings.enterKey.toInt
  else if lower < 0x80 then lower
  else if lower < 0x100 then lower - 0x100
  else 0

/-- A press that is made again from its character: shift was held for capitals and for
nothing else, and the key is the one that the character is typed with. -/
structure Retypable (tables : CaseTables) (key modifiers : Int32) (character : QChar) :
    Prop where
  shift : modifiers = SimplifyStrings.shiftModifier ↔ tables.isUpper character = true
  code : key.toInt = typedCode tables character

theorem toInt_toLatin1 (character : QChar) :
    (QChar.toLatin1 character).toInt32.toInt =
      if character.toNat < 0x80 then (character.toNat : Int)
      else if character.toNat < 0x100 then character.toNat - 0x100
      else 0 := by
  have wide : character > 0xFF ↔ ¬ character.toNat < 0x100 := by
    rw [gt_iff_lt, UInt16.lt_iff_toNat_lt, not_lt]
    rfl
  simp only [QChar.toLatin1, Int8.toInt_toInt32, wide]
  split
  next outside =>
    rw [if_neg (by omega)]
    rfl
  next inside =>
    have inside : character.toNat < 0x100 := not_not.mp inside
    have size : ((Int8.size : Nat) : Int) = 256 := rfl
    rw [if_pos inside, Int8.toInt_ofNat', Int.bmod_def, size]
    split <;> split <;> omega

theorem toInt_keyForChar (character : QChar) :
    (keyForChar tables character).toInt = typedCode tables character := by
  rw [keyForChar, typedCode]
  split
  · rfl
  · rw [toInt_toLatin1]

theorem modifiers_of_isPlain {parameters : QVariantMap}
    (plain : SimplifyStrings.isPlain parameters = true) :
    (parameters.value "modifiers").toKeyboardModifiers = 0 ∨
      (parameters.value "modifiers").toKeyboardModifiers = SimplifyStrings.shiftModifier := by
  have masked := congrArg Int32.toBitVec (of_decide_eq_true plain)
  generalize (parameters.value "modifiers").toKeyboardModifiers = modifiers at masked ⊢
  -- The modifiers have no bit but the one of shift.
  have same : modifiers.toBitVec &&& BitVec.twoPow 32 25 = modifiers.toBitVec := by
    apply BitVec.eq_of_getLsbD_eq
    intro index inside
    have bit := congrArg (fun value => value.getLsbD index) masked
    change ((modifiers.toBitVec &&& ~~~BitVec.twoPow 32 25).getLsbD index) =
      (0#32).getLsbD index at bit
    rw [BitVec.getLsbD_and, BitVec.getLsbD_not, decide_eq_true inside, Bool.true_and,
      BitVec.getLsbD_zero] at bit
    rw [BitVec.getLsbD_and]
    generalize (BitVec.twoPow 32 25).getLsbD index = shift at bit ⊢
    cases shift with
    | true => exact Bool.and_true _
    | false => rw [Bool.and_false, ← bit, Bool.not_false, Bool.and_true]
  rw [BitVec.and_twoPow] at same
  split at same
  · exact .inr (Int32.toBitVec.inj same.symm)
  · exact .inl (Int32.toBitVec.inj same.symm)

/-- The events of a capital come with those of the shift key around them. -/
theorem retypes_of_isUpper {key modifiers : Int32} {character : QChar}
    (upper : tables.isUpper character = true) :
    Retypes key modifiers character
        (sendCharacter tables path character : List (Command Sequence)) ↔
      modifiers = SimplifyStrings.shiftModifier ∧ key.toInt = typedCode tables character := by
  have notNewline : character ≠ 10 := by
    rintro rfl
    rw [tables.isUpper_newline] at upper
    contradiction
  have code : (QChar.toLatin1 (tables.toLower character)).toInt32.toInt =
      typedCode tables character := by
    rw [← toInt_keyForChar, keyForChar, if_neg notNewline]
  have strokes : (sendCharacter tables path character : List (Command Sequence)).filterMap
      stroke? =
      let key := (QChar.toLatin1 (tables.toLower character)).toInt32
      [⟨.press, SimplifyStrings.shiftKey, 0, []⟩,
        ⟨.press, key, SimplifyStrings.shiftModifier, [character]⟩,
        ⟨.release, key, SimplifyStrings.shiftModifier, [character]⟩,
        ⟨.release, SimplifyStrings.shiftKey, 0, []⟩] := by
    rw [sendCharacter, if_pos upper]
    rfl
  rw [← code, Int32.toInt_inj, Retypes, strokes]
  simp [List.cons_sublist_cons']
  tauto

/-- Other characters are typed without a modifier. -/
theorem retypes_of_not_isUpper {key modifiers : Int32} {character : QChar}
    (notUpper : tables.isUpper character = false) :
    Retypes key modifiers character
        (sendCharacter tables path character : List (Command Sequence)) ↔
      modifiers = 0 ∧ key.toInt = typedCode tables character := by
  have strokes : (sendCharacter tables path character : List (Command Sequence)).filterMap
      stroke? =
      [⟨.press, keyForChar tables character, 0, [character]⟩,
        ⟨.release, keyForChar tables character, 0, [character]⟩] := by
    rw [sendCharacter, if_neg (by simp [notUpper])]
    rfl
  rw [← toInt_keyForChar, Int32.toInt_inj, Retypes, strokes]
  simp [List.cons_sublist_cons']
  tauto

theorem sendCharacter_retypes_iff {key modifiers : Int32} {character : QChar}
    (plain : modifiers = 0 ∨ modifiers = SimplifyStrings.shiftModifier) :
    Retypes key modifiers character
        (sendCharacter tables path character : List (Command Sequence)) ↔
      Retypable tables key modifiers character := by
  have different : (0 : Int32) ≠ SimplifyStrings.shiftModifier := by decide
  cases upper : tables.isUpper character with
  | true =>
      rw [retypes_of_isUpper upper]
      exact ⟨fun both => ⟨by simp [both.1, upper], both.2⟩,
        fun retypable => ⟨retypable.shift.mpr upper, retypable.code⟩⟩
  | false =>
      rw [retypes_of_not_isUpper upper]
      constructor
      · rintro ⟨rfl, code⟩
        exact ⟨by simp [different, upper], code⟩
      · intro retypable
        have unshifted : modifiers ≠ SimplifyStrings.shiftModifier := fun shifted => by
          simp [retypable.shift.mp shifted] at upper
        exact ⟨plain.resolve_right unshifted, retypable.code⟩

end

theorem sendText_append {Sequence : Type} (tables : CaseTables) (path first second : QString) :
    (sendText tables path (first ++ second) : List (Command Sequence)) =
      sendText tables path first ++ sendText tables path second :=
  List.flatMap_append

/-- No key of a letter is pressed again: the code of a letter is that of its capital, and
characters are typed with the code of their lower case. -/
theorem not_retypable_of_letter {tables : CaseTables} {key modifiers : Int32}
    {character : QChar} (letter : 0x41 ≤ key.toInt ∧ key.toInt ≤ 0x5A) :
    ¬ Retypable tables key modifiers character := by
  intro retypable
  have code := retypable.code
  have lower := tables.toLower_not_capital character
  rw [UInt16.le_iff_toNat_le, UInt16.le_iff_toNat_le] at lower
  change ¬(65 ≤ (tables.toLower character).toNat ∧ (tables.toLower character).toNat ≤ 90) at lower
  have enter : SimplifyStrings.enterKey.toInt = 0x01000005 := by decide
  rw [typedCode, enter] at code
  split at code
  · omega
  · split at code
    · omega
    · split at code <;> omega

end RemoteObject

namespace SimplifyStrings

/-- A press that a call turned into a character of the text that it sends: with the presses
before it the character is typed, and no later press takes it away. -/
structure TypedBy (call : Call) (front : List Item) (press : Item) (back : List Item)
    (character : QChar) : Prop where
  absorbed : call.absorbed = front ++ press :: back
  typed : typeKey press.parameters.toMap (typedText front) = typedText front ++ [character]
  stays : ∀ later, later <+: back →
    typedText front ++ [character] <+: typedText (front ++ press :: later)

/-- The text of a call that took a press for a character contains the character. -/
theorem TypedBy.exists_text {call : Call} {front : List Item} {press : Item} {back : List Item}
    {character : QChar} (typed : TypedBy call front press back character) :
    ∃ after, typedText call.absorbed = typedText front ++ character :: after := by
  rcases typed.stays back (List.prefix_refl back) with ⟨after, whole⟩
  exact ⟨after, by rw [typed.absorbed, ← whole, List.append_assoc, List.singleton_append]⟩

/-- A call on a recording sends the text of the presses that it took, if there is one. -/
theorem RecordedCalls.sends {items : List Item} {calls : List Call}
    (recorded : RecordedCalls items calls) {call : Call} (made : call ∈ calls)
    (hasText : typedText call.absorbed ≠ []) :
    sendText call.item (typedText call.absorbed) ∈ call.outcome.insertions.map Prod.fst := by
  induction recorded with
  | nil => simp at made
  | press duration _ collects _ ih =>
      simp only [List.mem_cons] at made
      rcases made with rfl | rfl | made
      · rw [Call.absorbed_unchanged] at hasText
        exact absurd rfl hasText
      · rw [typedText_runCall collects] at hasText ⊢
        simp [runCall, hasText]
      · exact ih made
  | other duration _ _ _ ih =>
      simp only [List.mem_cons] at made
      rcases made with rfl | rfl | made
      · rw [Call.absorbed_unchanged] at hasText
        exact absurd rfl hasText
      · rw [Call.absorbed_unchanged] at hasText
        exact absurd rfl hasText
      · exact ih made

/-- `sendText` makes the recorded press and its release again, on reaching the character
that the press was turned into, exactly when the press is one that can be made again. -/
theorem sendText_retypes_iff (tables : CaseTables) (Sequence : Type) (path : QString)
    {items : List Item} (isRecording : IsRecording items) {calls : List Call}
    (completes : simplifyStrings.calls () items = .ok calls) {call : Call} (made : call ∈ calls)
    {front : List Item} {press : Item} {back : List Item} {character : QChar}
    (typed : TypedBy call front press back character)
    (plain : isPlain press.parameters.toMap = true) :
    ∃ after,
      sendText call.item (typedText front ++ character :: after) ∈
        call.outcome.insertions.map Prod.fst ∧
      (RemoteObject.sendText tables path (typedText front ++ character :: after) :
        List (Command Sequence)) =
          RemoteObject.sendText tables path (typedText front) ++
            RemoteObject.sendCharacter tables path character ++
            RemoteObject.sendText tables path after ∧
      (RemoteObject.Retypes (press.parameters.toMap.value "key").toKey
          (press.parameters.toMap.value "modifiers").toKeyboardModifiers character
          (RemoteObject.sendCharacter tables path character : List (Command Sequence)) ↔
        RemoteObject.Retypable tables (press.parameters.toMap.value "key").toKey
          (press.parameters.toMap.value "modifiers").toKeyboardModifiers character) := by
  rcases exists_recordedCalls isRecording with ⟨others, recorded⟩
  have same := recorded.accounted.completes
  rw [completes] at same
  cases same
  rcases typed.exists_text with ⟨after, whole⟩
  have sent := recorded.sends made (by simp [whole])
  rw [whole] at sent
  refine ⟨after, sent, ?_, ?_⟩
  · rw [RemoteObject.sendText_append, List.append_assoc]
    rfl
  · exact RemoteObject.sendCharacter_retypes_iff (RemoteObject.modifiers_of_isPlain plain)

/-- The entries for ASCII characters; no other character has a lower case. -/
def asciiTables : CaseTables where
  toCharacterTables := separatorTables
  toLower character := if 65 ≤ character ∧ character ≤ 90 then character + 32 else character
  toLower_ascii _ := rfl
  toLower_not_capital character := by
    intro capital
    split at capital
    next upper =>
      have upper : 65 ≤ character.toNat ∧ character.toNat ≤ 90 := upper
      have next : (character + 32).toNat = character.toNat + 32 := by
        rw [UInt16.toNat_add]
        exact Nat.mod_eq_of_lt (by change character.toNat + 32 < 65536; omega)
      have capital : (character + 32).toNat ≤ 90 := capital.2
      omega
    next notUpper => exact notUpper capital

/-- A key that is pressed and released on the line edit. -/
def keyRecording (key : Int32) (text : QString) : List Item :=
  recordingOf [keyEvent "pressKey" key text, keyEvent "releaseKey" key text]

theorem isRecording_keyRecording (key : Int32) (text : QString) :
    IsRecording (keyRecording key text) := by
  apply IsRecording.pair 10 ⟨by change QString.ofString "pressKey" ∈ _; decide, _, rfl⟩
  apply IsRecording.pair 10 ⟨by change QString.ofString "releaseKey" ∈ _; decide, _, rfl⟩
  exact .nil

/-- The call that takes the press of such a key. -/
theorem exists_call_keyRecording {key : Int32} {text : QString}
    (made : (simplifyStrings.calls () (keyRecording key text)).toOption.map
      (List.map Call.absorbed) = some [[], [keyEvent "pressKey" key text]]) :
    ∃ calls call, simplifyStrings.calls () (keyRecording key text) = .ok calls ∧
      call ∈ calls ∧ call.absorbed = [keyEvent "pressKey" key text] := by
  rcases exists_recordedCalls (isRecording_keyRecording key text) with ⟨calls, recorded⟩
  have completes := recorded.accounted.completes
  rw [completes] at made
  rcases List.map_eq_cons_iff.mp (Option.some.inj made) with ⟨_, later, isCalls, _, rest⟩
  rcases List.map_eq_singleton_iff.mp rest with ⟨call, isLater, absorbed⟩
  refine ⟨calls, call, completes, ?_, absorbed⟩
  rw [isCalls, isLater]
  exact List.mem_cons_of_mem _ List.mem_cons_self

theorem typedBy_of_absorbed {call : Call} {press : Item} {character : QChar}
    (absorbed : call.absorbed = [press])
    (typed : typeKey press.parameters.toMap [] = [character]) :
    TypedBy call [] press [] character := by
  refine ⟨absorbed, typed, fun later isPrefix => ?_⟩
  rw [List.prefix_nil.mp isPrefix]
  change [character] <+: typeKey press.parameters.toMap []
  rw [typed]

/-- A digit is typed again as it was recorded. -/
theorem digitRecording_retypes : ∃ calls call, call ∈ calls ∧
    simplifyStrings.calls () (keyRecording 0x31 "1") = .ok calls ∧
    TypedBy call [] (keyEvent "pressKey" 0x31 "1") [] 0x31 ∧
    RemoteObject.Retypes 0x31 0 0x31
      (RemoteObject.sendCharacter asciiTables "window::edit" 0x31 : List (Command Unit)) := by
  have takes : (simplifyStrings.calls () (keyRecording 0x31 "1")).toOption.map
      (List.map Call.absorbed) = some [[], [keyEvent "pressKey" 0x31 "1"]] := by
    decide +kernel
  rcases exists_call_keyRecording takes with ⟨calls, call, completes, made, absorbed⟩
  have typed : TypedBy call [] (keyEvent "pressKey" 0x31 "1") [] 0x31 :=
    typedBy_of_absorbed absorbed (by decide)
  rcases sendText_retypes_iff asciiTables Unit "window::edit" (isRecording_keyRecording 0x31 "1")
    completes made typed (by decide) with ⟨_, _, _, retypes⟩
  exact ⟨calls, call, made, completes, typed, retypes.mpr ⟨by decide, by decide⟩⟩

/-- The letter a is typed with another key than the one that was recorded. -/
theorem letterRecording_not_retypes : ∃ calls call, call ∈ calls ∧
    simplifyStrings.calls () (keyRecording 0x41 "a") = .ok calls ∧
    TypedBy call [] (keyEvent "pressKey" 0x41 "a") [] 0x61 ∧
    ¬ RemoteObject.Retypes 0x41 0 0x61
      (RemoteObject.sendCharacter asciiTables "window::edit" 0x61 : List (Command Unit)) := by
  have takes : (simplifyStrings.calls () (keyRecording 0x41 "a")).toOption.map
      (List.map Call.absorbed) = some [[], [keyEvent "pressKey" 0x41 "a"]] := by
    decide +kernel
  rcases exists_call_keyRecording takes with ⟨calls, call, completes, made, absorbed⟩
  refine ⟨calls, call, made, completes, typedBy_of_absorbed absorbed (by decide), ?_⟩
  rw [RemoteObject.sendCharacter_retypes_iff (.inl rfl)]
  exact RemoteObject.not_retypable_of_letter (by decide)

end SimplifyStrings

end Hooq

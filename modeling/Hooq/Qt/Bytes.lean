import Hooq.Qt.Text

/-!
# Bytes and maps

Byte arrays, the encodings between them and strings, and ordered maps.
-/

namespace Hooq

/-- `QByteArray`. -/
abbrev QByteArray := List UInt8

/-- The bytes of a C string literal. -/
def QByteArray.ofString (literal : String) : QByteArray :=
  literal.toList.map fun character => UInt8.ofNat character.toNat

/-- `QString::toUtf8`. -/
def QString.toUtf8 : QString → QByteArray
  | [] => []
  | unit :: rest =>
      let value := unit.toNat
      if value < 0x80 then
        UInt8.ofNat value :: toUtf8 rest
      else if value < 0x800 then
        UInt8.ofNat (0xC0 + value / 0x40) :: UInt8.ofNat (0x80 + value % 0x40) :: toUtf8 rest
      else if 0xD800 ≤ value ∧ value < 0xE000 then
        match rest with
        | [] => [0x3F]
        | low :: later =>
            if value < 0xDC00 ∧ 0xDC00 ≤ low.toNat ∧ low.toNat < 0xE000 then
              let point := 0x10000 + (value - 0xD800) * 0x400 + (low.toNat - 0xDC00)
              UInt8.ofNat (0xF0 + point / 0x40000) ::
                UInt8.ofNat (0x80 + point / 0x1000 % 0x40) ::
                UInt8.ofNat (0x80 + point / 0x40 % 0x40) ::
                UInt8.ofNat (0x80 + point % 0x40) :: toUtf8 later
            else
              0x3F :: toUtf8 (low :: later)
      else
        UInt8.ofNat (0xE0 + value / 0x1000) :: UInt8.ofNat (0x80 + value / 0x40 % 0x40) ::
          UInt8.ofNat (0x80 + value % 0x40) :: toUtf8 rest

/-- `QString::toLatin1`. -/
def QString.toLatin1 (text : QString) : QByteArray :=
  text.map fun unit : QChar => if unit.toNat < 0x100 then UInt8.ofNat unit.toNat else 0x3F

namespace QString

/-- The code units of a code point. -/
def ofPoint (point : Nat) : QString :=
  if point < 0x10000 then
    [UInt16.ofNat point]
  else
    [UInt16.ofNat (0xD7C0 + point / 0x400), UInt16.ofNat (0xDC00 + point % 0x400)]

/-- The code point of a sequence of bytes with its number of continuation bytes, if these
are all there. -/
def continued (first least count : Nat) (rest : QByteArray) : Option (Nat × Nat) :=
  let bytes := rest.take count
  if bytes.length = count ∧ bytes.all (fun byte => 0x80 ≤ byte && byte < 0xC0) then
    let point := bytes.foldl (fun value byte => value * 0x40 + byte.toNat % 0x40) first
    if point < least ∨ 0x110000 ≤ point ∨ (0xD800 ≤ point ∧ point < 0xE000) ∨
        (0xFFFE ≤ point ∧ point < 0x10000) then
      some (0xFFFD, count)
    else
      some (point, count)
  else
    none

def firstPoint (first : UInt8) (rest : QByteArray) : Option (Nat × Nat) :=
  let value := first.toNat
  if value < 0x80 then
    some (value, 0)
  else if 0xC0 ≤ value ∧ value < 0xE0 then
    continued (value % 0x20) 0x80 1 rest
  else if 0xE0 ≤ value ∧ value < 0xF0 then
    continued (value % 0x10) 0x800 2 rest
  else if 0xF0 ≤ value ∧ value < 0xF8 then
    continued (value % 0x8) 0x10000 3 rest
  else
    none

/-- What is decoded behind continuation bytes that have been read already.  A byte that
begins no character is replaced. -/
def decodeUtf8 (skipped : Nat) : QByteArray → QString
  | [] => []
  | byte :: rest =>
      match skipped with
      | skipped + 1 => decodeUtf8 skipped rest
      | 0 =>
          match firstPoint byte rest with
          | some (point, count) => ofPoint point ++ decodeUtf8 count rest
          | none => 0xFFFD :: decodeUtf8 0 rest

/-- The UTF-8 form of U+FEFF. -/
def byteOrderMark : QByteArray :=
  [0xEF, 0xBB, 0xBF]

/-- The bytes behind a byte order mark, or all bytes without one. -/
def behindMark (bytes : QByteArray) : QByteArray :=
  if byteOrderMark.isPrefixOf bytes then bytes.drop byteOrderMark.length else bytes

/-- `QString::fromUtf8` of a byte array, which is taken for a C string. -/
def fromUtf8 (bytes : QByteArray) : QString :=
  decodeUtf8 0 (behindMark (bytes.takeWhile (· ≠ 0)))

/-- `QString::startsWith`. -/
def startsWith (text beginning : QString) : Bool :=
  beginning.isPrefixOf text

theorem decodeUtf8_cons {byte : UInt8} (small : byte.toNat < 0x80) (rest : QByteArray) :
    decodeUtf8 0 (byte :: rest) = UInt16.ofNat byte.toNat :: decodeUtf8 0 rest := by
  have point : firstPoint byte rest = some (byte.toNat, 0) := if_pos small
  have unit : ofPoint byte.toNat = [UInt16.ofNat byte.toNat] :=
    if_pos (Nat.lt_trans small (by decide))
  rw [decodeUtf8, point]
  exact congrArg (· ++ decodeUtf8 0 rest) unit

theorem decodeUtf8_append {word : QByteArray} (small : ∀ byte ∈ word, byte.toNat < 0x80)
    (rest : QByteArray) :
    decodeUtf8 0 (word ++ rest) =
      word.map (fun byte => UInt16.ofNat byte.toNat) ++ decodeUtf8 0 rest := by
  induction word with
  | nil => rfl
  | cons byte word ih =>
      have behind := ih fun other member => small other (List.mem_cons_of_mem _ member)
      rw [List.cons_append, decodeUtf8_cons (small byte List.mem_cons_self), behind]
      rfl

theorem ofPoint_length_le (point : Nat) : (ofPoint point).length ≤ 2 := by
  rw [ofPoint]
  split
  next => exact Nat.le_succ 1
  next => exact Nat.le_refl 2

theorem continued_some {first least count point behind : Nat} {rest : QByteArray}
    (found : continued first least count rest = some (point, behind)) :
    behind = count ∧ count ≤ rest.length ∧ (point = 0xFFFD ∨
      point = (rest.take count).foldl
        (fun value byte => value * 0x40 + byte.toNat % 0x40) first) := by
  rw [continued] at found
  dsimp only at found
  split at found
  next all =>
    have inside : count ≤ rest.length := by
      rw [← all.1]
      exact List.length_take_le' count rest
    split at found
    next =>
      cases found
      exact ⟨rfl, inside, .inl rfl⟩
    next =>
      cases found
      exact ⟨rfl, inside, .inr rfl⟩
  next => cases found

theorem continued_one {first least point behind : Nat} {rest : QByteArray} (small : first < 0x20)
    (found : continued first least 1 rest = some (point, behind)) :
    (ofPoint point).length ≤ 1 := by
  have below : point < 0x10000 := by
    rcases (continued_some found).2.2 with rfl | value
    · decide
    · cases rest with
      | nil => exact absurd (continued_some found).2.1 (by decide)
      | cons byte rest =>
          have shape : point = first * 0x40 + byte.toNat % 0x40 := value
          have part := Nat.mod_lt byte.toNat (show 0 < 0x40 by decide)
          omega
  have unit : ofPoint point = [UInt16.ofNat point] := if_pos below
  rw [unit]
  exact Nat.le_refl 1

/-- A character that is no ASCII character has fewer code units than bytes. -/
theorem firstPoint_some {byte : UInt8} {rest : QByteArray} {point count : Nat}
    (large : 0x80 ≤ byte.toNat) (found : firstPoint byte rest = some (point, count)) :
    count ≤ rest.length ∧ (ofPoint point).length ≤ count := by
  rw [firstPoint, if_neg (Nat.not_lt.mpr large)] at found
  split at found
  next =>
    obtain ⟨rfl, inside, _⟩ := continued_some found
    exact ⟨inside, continued_one (Nat.mod_lt _ (by decide)) found⟩
  next =>
    split at found
    next =>
      obtain ⟨rfl, inside, _⟩ := continued_some found
      exact ⟨inside, ofPoint_length_le point⟩
    next =>
      split at found
      next =>
        obtain ⟨rfl, inside, _⟩ := continued_some found
        exact ⟨inside, Nat.le_succ_of_le (ofPoint_length_le point)⟩
      next => cases found

theorem decodeUtf8_length_le (skipped : Nat) (bytes : QByteArray) :
    (decodeUtf8 skipped bytes).length ≤ bytes.length - skipped := by
  induction bytes generalizing skipped with
  | nil => exact Nat.zero_le _
  | cons byte rest ih =>
      cases skipped with
      | succ skipped =>
          have behind := ih skipped
          rw [decodeUtf8, List.length_cons]
          omega
      | zero =>
          by_cases small : byte.toNat < 0x80
          · rw [decodeUtf8_cons small]
            exact Nat.succ_le_succ (ih 0)
          · rw [decodeUtf8]
            cases found : firstPoint byte rest with
            | none => exact Nat.succ_le_succ (ih 0)
            | some character =>
                obtain ⟨point, count⟩ := character
                obtain ⟨inside, units⟩ := firstPoint_some (Nat.le_of_not_lt small) found
                have behind := ih count
                dsimp only
                rw [List.length_append, List.length_cons]
                omega

theorem continued_concat (first least count : Nat) (rest : QByteArray) {last : UInt8}
    (small : last.toNat < 0x80) :
    continued first least count (rest ++ [last]) = continued first least count rest := by
  by_cases inside : count ≤ rest.length
  · rw [continued, continued, List.take_append_of_le_length inside]
  · have short : ¬((rest.take count).length = count ∧
        (rest.take count).all (fun byte => 0x80 ≤ byte && byte < 0xC0) = true) := by
      intro all
      rw [List.length_take] at all
      omega
    have noByte : ¬(((rest ++ [last]).take count).length = count ∧
        ((rest ++ [last]).take count).all (fun byte => 0x80 ≤ byte && byte < 0xC0) = true) := by
      rintro ⟨_, all⟩
      have member : last ∈ (rest ++ [last]).take count := by
        rw [List.take_of_length_le (by rw [List.length_append, List.length_singleton]; omega)]
        exact List.mem_append_right _ List.mem_cons_self
      have large := List.all_eq_true.mp all last member
      rw [Bool.and_eq_true, decide_eq_true_eq, UInt8.le_iff_toNat_le] at large
      exact absurd large.1 (Nat.not_le.mpr small)
    rw [continued, continued]
    dsimp only
    rw [if_neg short, if_neg noByte]

theorem firstPoint_concat (byte : UInt8) (rest : QByteArray) {last : UInt8}
    (small : last.toNat < 0x80) :
    firstPoint byte (rest ++ [last]) = firstPoint byte rest := by
  rw [firstPoint, firstPoint, continued_concat _ _ _ rest small, continued_concat _ _ _ rest small,
    continued_concat _ _ _ rest small]

/-- An ASCII character behind other bytes is read as such. -/
theorem decodeUtf8_concat {last : UInt8} (small : last.toNat < 0x80) {skipped : Nat}
    {bytes : QByteArray} (inside : skipped ≤ bytes.length) :
    decodeUtf8 skipped (bytes ++ [last]) =
      decodeUtf8 skipped bytes ++ [UInt16.ofNat last.toNat] := by
  induction bytes generalizing skipped with
  | nil =>
      cases Nat.le_zero.mp inside
      exact decodeUtf8_cons small []
  | cons byte rest ih =>
      cases skipped with
      | succ skipped => exact ih (Nat.le_of_succ_le_succ inside)
      | zero =>
          rw [List.cons_append, decodeUtf8, decodeUtf8, firstPoint_concat byte rest small]
          cases found : firstPoint byte rest with
          | none => exact congrArg (0xFFFD :: ·) (ih (Nat.zero_le _))
          | some character =>
              obtain ⟨point, count⟩ := character
              have behind : count ≤ rest.length := by
                by_cases ascii : byte.toNat < 0x80
                · have one : firstPoint byte rest = some (byte.toNat, 0) := if_pos ascii
                  rw [one] at found
                  cases found
                  exact Nat.zero_le _
                · exact (firstPoint_some (Nat.le_of_not_lt ascii) found).1
              dsimp only
              rw [ih behind, List.append_assoc]

/-- Behind a byte that is no ASCII character there are fewer code units than bytes, unless
the byte is replaced. -/
theorem decodeUtf8_large {byte : UInt8} (large : 0x80 ≤ byte.toNat) (rest : QByteArray) :
    (decodeUtf8 0 (byte :: rest)).head? = some 0xFFFD ∨
      (decodeUtf8 0 (byte :: rest)).length ≤ rest.length := by
  rw [decodeUtf8]
  cases found : firstPoint byte rest with
  | none => exact .inl rfl
  | some character =>
      obtain ⟨point, count⟩ := character
      obtain ⟨inside, units⟩ := firstPoint_some large found
      have behind := decodeUtf8_length_le count rest
      right
      dsimp only
      rw [List.length_append]
      omega

/-- What is written as Latin-1 and read as UTF-8 without a change is ASCII. -/
theorem ascii_of_decodeUtf8 {text : QString}
    (same : decodeUtf8 0 ((toLatin1 text).takeWhile (· ≠ 0)) = text) :
    ∀ unit ∈ text, 0 < unit.toNat ∧ unit.toNat < 0x80 := by
  induction text with
  | nil => exact nofun
  | cons unit text ih =>
      have bytes : toLatin1 (unit :: text) =
          (if unit.toNat < 0x100 then UInt8.ofNat unit.toNat else 0x3F) :: toLatin1 text := rfl
      rw [bytes] at same
      by_cases latin : unit.toNat < 0x100
      · have value : (UInt8.ofNat unit.toNat).toNat = unit.toNat := by
          rw [UInt8.toNat_ofNat', Nat.mod_eq_of_lt latin]
        rw [if_pos latin] at same
        by_cases null : UInt8.ofNat unit.toNat = 0
        · rw [null] at same
          cases same
        have kept : decide (UInt8.ofNat unit.toNat ≠ 0) = true := decide_eq_true null
        rw [List.takeWhile_cons, if_pos kept] at same
        by_cases ascii : unit.toNat < 0x80
        · rw [decodeUtf8_cons (by rw [value]; exact ascii), List.cons.injEq] at same
          have positive : 0 < unit.toNat := by
            apply Nat.pos_of_ne_zero
            intro zero
            exact null (congrArg UInt8.ofNat zero)
          intro other member
          rcases List.mem_cons.mp member with rfl | member
          · exact ⟨positive, ascii⟩
          · exact ih same.2 other member
        · have large : 0x80 ≤ (UInt8.ofNat unit.toNat).toNat := by
            rw [value]
            exact Nat.le_of_not_lt ascii
          have taken : ((toLatin1 text).takeWhile (· ≠ 0)).length ≤ text.length := by
            have part := (List.takeWhile_prefix (p := (· ≠ 0)) (l := toLatin1 text)).length_le
            rw [toLatin1, List.length_map] at part
            exact part
          rcases decodeUtf8_large large ((toLatin1 text).takeWhile (· ≠ 0)) with
            replaced | shorter
          · rw [same] at replaced
            cases replaced
            exact absurd latin (by decide)
          · rw [same] at shorter
            exact absurd (shorter.trans taken) (Nat.not_succ_le_self _)
      · have mark : decide ((0x3F : UInt8) ≠ 0) = true := rfl
        rw [if_neg latin, List.takeWhile_cons, if_pos mark, decodeUtf8_cons (by decide),
          List.cons.injEq] at same
        rw [← same.1] at latin
        exact absurd (by decide) latin

end QString

/-! ## Maps -/

/-- `QMap::insert`: the keys are in order, and a new value takes the place of an old
one. -/
def QMap.insert {Value : Type} (map : List (QString × Value)) (key : QString) (value : Value) :
    List (QString × Value) :=
  match map with
  | [] => [(key, value)]
  | first :: rest =>
      if key = first.1 then
        (key, value) :: rest
      else if key < first.1 then
        (key, value) :: first :: rest
      else
        first :: QMap.insert rest key value

namespace QMap

variable {Value : Type}

theorem lookup_cons (map : List (QString × Value)) (key name : QString) (value : Value) :
    List.lookup name ((key, value) :: map) =
      if name = key then some value else map.lookup name := by
  by_cases isKey : name = key
  · rw [if_pos isKey, isKey]
    exact List.lookup_cons_self
  · rw [if_neg isKey, List.lookup_cons, beq_eq_false_iff_ne.mpr isKey]

/-- Insertion changes what is found under its key. -/
theorem lookup_insert (map : List (QString × Value)) (key name : QString) (value : Value) :
    (QMap.insert map key value).lookup name =
      if name = key then some value else map.lookup name := by
  induction map with
  | nil => exact lookup_cons [] key name value
  | cons first rest ih =>
      rcases first with ⟨other, old⟩
      rw [QMap.insert]
      split
      next isOther =>
        rw [lookup_cons, lookup_cons, isOther]
        split <;> rfl
      next notOther =>
        split
        · exact lookup_cons _ key name value
        · rw [lookup_cons, ih, lookup_cons]
          by_cases isKey : name = key
          · have notOther : ¬ name = other := fun isOther => notOther (isKey.symm.trans isOther)
            rw [if_neg notOther, if_pos isKey, if_pos isKey]
          · rw [if_neg isKey, if_neg isKey]

end QMap

end Hooq

import Hooq.Qt.Bytes
import Mathlib.Data.List.TakeWhile

/-!
# UTF-8 there and back

A text is read back from its UTF-8 form if its surrogates come in pairs and it has none of
the characters that the decoder replaces.
-/

namespace Hooq

namespace QString

def isHighSurrogate (unit : QChar) : Bool :=
  0xD800 ≤ unit.toNat && unit.toNat < 0xDC00

def isLowSurrogate (unit : QChar) : Bool :=
  0xDC00 ≤ unit.toNat && unit.toNat < 0xE000

/-- No surrogate is without its other half. -/
def isPaired : QString → Bool
  | [] => true
  | [unit] => !isHighSurrogate unit && !isLowSurrogate unit
  | first :: second :: rest =>
      if isHighSurrogate first then
        isLowSurrogate second && isPaired rest
      else
        !isLowSurrogate first && isPaired (second :: rest)

/-! ## Single characters -/

theorem toNat_ofNat_byte {value : Nat} (small : value < 0x100) :
    (UInt8.ofNat value).toNat = value := by
  rw [UInt8.toNat_ofNat', Nat.mod_eq_of_lt small]

theorem decodeUtf8_skip (more rest : QByteArray) :
    decodeUtf8 more.length (more ++ rest) = decodeUtf8 0 rest := by
  induction more with
  | nil => rfl
  | cons byte more ih => exact ih

/-- A character whose continuation bytes are all there. -/
theorem decodeUtf8_character {byte : UInt8} (more : QByteArray) {point : Nat}
    {rest : QByteArray} (found : firstPoint byte (more ++ rest) = some (point, more.length)) :
    decodeUtf8 0 (byte :: (more ++ rest)) = ofPoint point ++ decodeUtf8 0 rest := by
  rw [decodeUtf8, found]
  exact congrArg (ofPoint point ++ ·) (decodeUtf8_skip more rest)

/-- The code points that are written and read as they are. -/
def IsWritten (point : Nat) : Prop :=
  point < 0x110000 ∧ ¬(0xD800 ≤ point ∧ point < 0xE000) ∧ ¬(0xFFFE ≤ point ∧ point < 0x10000)

theorem continued_eq {first least count point : Nat} {more : QByteArray} (rest : QByteArray)
    (counted : more.length = count)
    (all : ∀ byte ∈ more, 0x80 ≤ byte.toNat ∧ byte.toNat < 0xC0)
    (value : more.foldl (fun value byte => value * 0x40 + byte.toNat % 0x40) first = point)
    (written : IsWritten point) (long : least ≤ point) :
    continued first least count (more ++ rest) = some (point, count) := by
  subst counted
  have bytes : more.all (fun byte => 0x80 ≤ byte && byte < 0xC0) = true := by
    rw [List.all_eq_true]
    intro byte member
    have range := all byte member
    simpa [UInt8.le_iff_toNat_le, UInt8.lt_iff_toNat_lt] using range
  rcases written with ⟨inside, noSurrogate, noReplaced⟩
  rw [continued, List.take_left]
  dsimp only
  rw [if_pos ⟨rfl, bytes⟩, value, if_neg]
  rintro (short | outside | surrogate | replaced)
  · exact absurd short (Nat.not_lt.mpr long)
  · exact absurd inside (Nat.not_lt.mpr outside)
  · exact noSurrogate surrogate
  · exact noReplaced replaced

/-- A continuation byte. -/
theorem toNat_continuation (value : Nat) :
    (UInt8.ofNat (0x80 + value % 0x40)).toNat = 0x80 + value % 0x40 :=
  toNat_ofNat_byte (by omega)

theorem decode_two {value : Nat} (large : 0x80 ≤ value) (small : value < 0x800)
    (rest : QByteArray) :
    decodeUtf8 0 (UInt8.ofNat (0xC0 + value / 0x40) :: UInt8.ofNat (0x80 + value % 0x40) :: rest) =
      ofPoint value ++ decodeUtf8 0 rest := by
  have first : (UInt8.ofNat (0xC0 + value / 0x40)).toNat = 0xC0 + value / 0x40 :=
    toNat_ofNat_byte (by omega)
  have second := toNat_continuation value
  have found : continued ((0xC0 + value / 0x40) % 0x20) 0x80 1
      ([UInt8.ofNat (0x80 + value % 0x40)] ++ rest) = some (value, 1) := by
    refine continued_eq rest rfl ?_ ?_ ?_ large
    · simp only [List.mem_singleton, forall_eq]
      omega
    · simp only [List.foldl_cons, List.foldl_nil]
      omega
    · simp only [IsWritten]
      omega
  refine decodeUtf8_character [UInt8.ofNat (0x80 + value % 0x40)] ?_
  rw [firstPoint, first, if_neg (by omega), if_pos (by omega)]
  exact found

theorem decode_three {value : Nat} (large : 0x800 ≤ value) (small : value < 0x10000)
    (written : IsWritten value) (rest : QByteArray) :
    decodeUtf8 0 (UInt8.ofNat (0xE0 + value / 0x1000) ::
        UInt8.ofNat (0x80 + value / 0x40 % 0x40) :: UInt8.ofNat (0x80 + value % 0x40) :: rest) =
      ofPoint value ++ decodeUtf8 0 rest := by
  have first : (UInt8.ofNat (0xE0 + value / 0x1000)).toNat = 0xE0 + value / 0x1000 :=
    toNat_ofNat_byte (by omega)
  have second := toNat_continuation (value / 0x40)
  have third := toNat_continuation value
  have found : continued ((0xE0 + value / 0x1000) % 0x10) 0x800 2
      ([UInt8.ofNat (0x80 + value / 0x40 % 0x40), UInt8.ofNat (0x80 + value % 0x40)] ++ rest) =
        some (value, 2) := by
    refine continued_eq rest rfl ?_ ?_ written large
    · simp only [List.mem_cons, List.not_mem_nil, or_false, forall_eq_or_imp, forall_eq]
      omega
    · simp only [List.foldl_cons, List.foldl_nil]
      omega
  refine decodeUtf8_character
    [UInt8.ofNat (0x80 + value / 0x40 % 0x40), UInt8.ofNat (0x80 + value % 0x40)] ?_
  rw [firstPoint, first, if_neg (by omega), if_neg (by omega), if_pos (by omega)]
  exact found

theorem decode_four {value : Nat} (large : 0x10000 ≤ value) (small : value < 0x110000)
    (rest : QByteArray) :
    decodeUtf8 0 (UInt8.ofNat (0xF0 + value / 0x40000) ::
        UInt8.ofNat (0x80 + value / 0x1000 % 0x40) ::
        UInt8.ofNat (0x80 + value / 0x40 % 0x40) :: UInt8.ofNat (0x80 + value % 0x40) :: rest) =
      ofPoint value ++ decodeUtf8 0 rest := by
  have first : (UInt8.ofNat (0xF0 + value / 0x40000)).toNat = 0xF0 + value / 0x40000 :=
    toNat_ofNat_byte (by omega)
  have second := toNat_continuation (value / 0x1000)
  have third := toNat_continuation (value / 0x40)
  have fourth := toNat_continuation value
  have found : continued ((0xF0 + value / 0x40000) % 0x8) 0x10000 3
      ([UInt8.ofNat (0x80 + value / 0x1000 % 0x40), UInt8.ofNat (0x80 + value / 0x40 % 0x40),
        UInt8.ofNat (0x80 + value % 0x40)] ++ rest) = some (value, 3) := by
    refine continued_eq rest rfl ?_ ?_ ?_ large
    · simp only [List.mem_cons, List.not_mem_nil, or_false, forall_eq_or_imp, forall_eq]
      omega
    · simp only [List.foldl_cons, List.foldl_nil]
      omega
    · simp only [IsWritten]
      omega
  refine decodeUtf8_character [UInt8.ofNat (0x80 + value / 0x1000 % 0x40),
    UInt8.ofNat (0x80 + value / 0x40 % 0x40), UInt8.ofNat (0x80 + value % 0x40)] ?_
  rw [firstPoint, first, if_neg (by omega), if_neg (by omega), if_neg (by omega),
    if_pos (by omega)]
  exact found

/-! ## Texts -/

/-- A text without the characters that the decoder replaces. -/
def HasNoReplaced (text : QString) : Prop :=
  0xFFFE ∉ text ∧ 0xFFFF ∉ text

instance (text : QString) : Decidable text.HasNoReplaced :=
  inferInstanceAs (Decidable (_ ∧ _))

/-- A text that does not begin with a byte order mark, which the decoder leaves out. -/
def BeginsUnmarked (text : QString) : Prop :=
  text.head? ≠ some 0xFEFF

instance (text : QString) : Decidable text.BeginsUnmarked :=
  inferInstanceAs (Decidable (_ ≠ _))

/-- A character of the basic plane, by the number of its bytes. -/
theorem decodeUtf8_unit {unit : QChar} (noHigh : isHighSurrogate unit = false)
    (noLow : isLowSurrogate unit = false) (notFirst : unit ≠ 0xFFFE) (notSecond : unit ≠ 0xFFFF)
    (rest : QString) :
    decodeUtf8 0 (toUtf8 (unit :: rest)) = unit :: decodeUtf8 0 (toUtf8 rest) := by
  have inside := unit.toNat_lt
  have noSurrogate : ¬(0xD800 ≤ unit.toNat ∧ unit.toNat < 0xE000) := by
    simp only [isHighSurrogate, isLowSurrogate, Bool.and_eq_false_iff, decide_eq_false_iff_not]
      at noHigh noLow
    omega
  have noReplaced : ¬(0xFFFE ≤ unit.toNat ∧ unit.toNat < 0x10000) := by
    rw [Ne, ← UInt16.toNat_inj] at notFirst notSecond
    have values : (0xFFFE : UInt16).toNat = 0xFFFE ∧ (0xFFFF : UInt16).toNat = 0xFFFF := by decide
    omega
  have point : ofPoint unit.toNat = [unit] := by
    rw [ofPoint, if_pos inside, UInt16.ofNat_toNat]
  rw [toUtf8.eq_def]
  dsimp only
  split
  next ascii =>
      have value : (UInt8.ofNat unit.toNat).toNat = unit.toNat := toNat_ofNat_byte (by omega)
      rw [decodeUtf8_cons (by omega), value, UInt16.ofNat_toNat]
  next large =>
      split
      next small =>
          rw [decode_two (Nat.le_of_not_lt large) small, point]
          rfl
      next larger =>
          rw [decode_three (Nat.le_of_not_lt larger) inside
            ⟨by omega, noSurrogate, noReplaced⟩, point]
          rfl

/-- Two surrogates are one character. -/
theorem decodeUtf8_surrogates {high low : QChar} (isHigh : isHighSurrogate high = true)
    (isLow : isLowSurrogate low = true) (rest : QString) :
    decodeUtf8 0 (toUtf8 (high :: low :: rest)) = high :: low :: decodeUtf8 0 (toUtf8 rest) := by
  simp only [isHighSurrogate, isLowSurrogate, Bool.and_eq_true, decide_eq_true_eq] at isHigh isLow
  have first : 0xD7C0 + (0x10000 + (high.toNat - 0xD800) * 0x400 + (low.toNat - 0xDC00)) / 0x400 =
      high.toNat := by
    omega
  have second : 0xDC00 + (0x10000 + (high.toNat - 0xD800) * 0x400 + (low.toNat - 0xDC00)) % 0x400 =
      low.toNat := by
    omega
  rw [toUtf8.eq_def]
  dsimp only
  rw [if_neg (by omega), if_neg (by omega), if_pos (by omega), if_pos (by omega),
    decode_four (by omega) (by omega), ofPoint, if_neg (by omega), first, second,
    UInt16.ofNat_toNat, UInt16.ofNat_toNat]
  rfl

theorem decodeUtf8_toUtf8 {text : QString} (paired : isPaired text = true)
    (kept : HasNoReplaced text) : decodeUtf8 0 (toUtf8 text) = text := by
  rcases kept with ⟨noFirst, noSecond⟩
  fun_induction isPaired text with
  | case1 => rfl
  | case2 unit =>
      simp only [Bool.and_eq_true, Bool.not_eq_true'] at paired
      exact decodeUtf8_unit paired.1 paired.2 (by simpa [eq_comm] using noFirst)
        (by simpa [eq_comm] using noSecond) []
  | case3 first second rest high ih =>
      rw [Bool.and_eq_true] at paired
      rw [decodeUtf8_surrogates high paired.1, ih paired.2
        (fun member => noFirst (by simp [member])) (fun member => noSecond (by simp [member]))]
  | case4 first second rest high ih =>
      simp only [Bool.and_eq_true, Bool.not_eq_true'] at paired
      rw [decodeUtf8_unit (by simpa using high) paired.1
        (Ne.symm (List.ne_of_not_mem_cons noFirst)) (Ne.symm (List.ne_of_not_mem_cons noSecond)),
        ih paired.2 (List.not_mem_of_not_mem_cons noFirst)
          (List.not_mem_of_not_mem_cons noSecond)]

theorem zero_not_mem_cons {value : Nat} (positive : 0 < value) (small : value < 0x100)
    {rest : QByteArray} (later : 0 ∉ rest) : (0 : UInt8) ∉ UInt8.ofNat value :: rest := by
  intro member
  rcases List.mem_cons.mp member with same | member
  · have zero := congrArg UInt8.toNat same
    rw [toNat_ofNat_byte small] at zero
    exact absurd zero.symm (Nat.ne_of_gt positive)
  · exact later member

/-- A null byte comes from a null character alone. -/
theorem zero_not_mem_toUtf8 {text : QString} (solid : 0 ∉ text) : (0 : UInt8) ∉ toUtf8 text := by
  fun_induction toUtf8 text with
  | case1 => exact List.not_mem_nil
  | case2 unit rest value ascii ih =>
      have notNull : value ≠ 0 := by
        intro zero
        have same : unit = 0 := UInt16.toNat_inj.mp zero
        exact solid (by simp [same])
      exact zero_not_mem_cons (Nat.pos_of_ne_zero notNull) (by omega)
        (ih (List.not_mem_of_not_mem_cons solid))
  | case3 unit rest value large small ih =>
      exact zero_not_mem_cons (by omega) (by omega) (zero_not_mem_cons (by omega) (by omega)
        (ih (List.not_mem_of_not_mem_cons solid)))
  | case4 => decide
  | case5 unit value large larger surrogate low later pair point ih =>
      exact zero_not_mem_cons (by omega) (by omega) (zero_not_mem_cons (by omega) (by omega)
        (zero_not_mem_cons (by omega) (by omega) (zero_not_mem_cons (by omega) (by omega)
          (ih (List.not_mem_of_not_mem_cons (List.not_mem_of_not_mem_cons solid))))))
  | case6 unit value large larger surrogate low later single ih =>
      exact List.not_mem_cons_of_ne_of_not_mem (by decide)
        (ih (List.not_mem_of_not_mem_cons solid))
  | case7 unit rest value large larger noSurrogate ih =>
      have inside := unit.toNat_lt
      exact zero_not_mem_cons (by omega) (by omega) (zero_not_mem_cons (by omega) (by omega)
        (zero_not_mem_cons (by omega) (by omega) (ih (List.not_mem_of_not_mem_cons solid))))

/-- A byte order mark comes from U+FEFF alone. -/
theorem head?_of_byteOrderMark {text : QString} (marked : byteOrderMark <+: toUtf8 text) :
    text.head? = some 0xFEFF := by
  have byte {value : Nat} {other : UInt8} (small : value < 0x100)
      (same : other = UInt8.ofNat value) : value = other.toNat := by
    rw [same, toNat_ofNat_byte small]
  have bytes : (0xEF : UInt8).toNat = 0xEF ∧ (0xBB : UInt8).toNat = 0xBB ∧
      (0xBF : UInt8).toNat = 0xBF := by decide
  rw [byteOrderMark] at marked
  revert marked
  fun_cases toUtf8 text with
  | case1 =>
      intro marked
      cases List.eq_nil_of_prefix_nil marked
  | case2 unit rest value ascii =>
      rw [List.cons_prefix_cons]
      intro marked
      have first := byte (by omega) marked.1
      omega
  | case3 unit rest value large small =>
      rw [List.cons_prefix_cons]
      intro marked
      have first := byte (by omega) marked.1
      omega
  | case4 unit value large larger surrogate =>
      rw [List.cons_prefix_cons]
      intro marked
      exact absurd marked.1 (by decide)
  | case5 unit value large larger surrogate low later pair point =>
      rw [List.cons_prefix_cons]
      intro marked
      have first := byte (by omega) marked.1
      omega
  | case6 unit value large larger surrogate low later single =>
      rw [List.cons_prefix_cons]
      intro marked
      exact absurd marked.1 (by decide)
  | case7 unit rest value large larger noSurrogate =>
      have inside := unit.toNat_lt
      rw [List.cons_prefix_cons, List.cons_prefix_cons, List.cons_prefix_cons]
      rintro ⟨isFirst, isSecond, isThird, -⟩
      have first := byte (by omega) isFirst
      have second := byte (by omega) isSecond
      have third := byte (by omega) isThird
      have number : unit.toNat = 0xFEFF := by omega
      rw [List.head?_cons, ← UInt16.ofNat_toNat (x := unit), number]
      rfl

theorem fromUtf8_toUtf8 {text : QString} (paired : isPaired text = true)
    (kept : HasNoReplaced text) (unmarked : BeginsUnmarked text) (solid : 0 ∉ text) :
    fromUtf8 (toUtf8 text) = text := by
  have whole : (toUtf8 text).takeWhile (· ≠ 0) = toUtf8 text := by
    rw [List.takeWhile_eq_self_iff]
    intro byte member
    exact decide_eq_true fun isNull => zero_not_mem_toUtf8 solid (isNull ▸ member)
  have noMark : ¬byteOrderMark.isPrefixOf (toUtf8 text) = true := fun marked =>
    unmarked (head?_of_byteOrderMark (List.isPrefixOf_iff_prefix.mp marked))
  rw [fromUtf8, whole, behindMark, if_neg noMark, decodeUtf8_toUtf8 paired kept]

example : fromUtf8 [0xEF, 0xBB, 0xBF, 0x61] = "a" := by
  decide

end QString

end Hooq

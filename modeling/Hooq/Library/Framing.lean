import Mathlib.Algebra.Ring.Nat
import Mathlib.Data.List.Basic

/-!
# Length-prefixed frames

Data behind its size.  A size takes four bytes, the most significant one first; sizes
that four bytes do not hold are counted out behind a mark.
-/

namespace Hooq.Library.Framing

/-- The size that marks a longer one. -/
def mark : Nat := 0xFFFFFFFE

/-- Four bytes, the most significant one first. -/
def word (value : Nat) : List UInt8 :=
  [UInt8.ofNat (value / 0x1000000), UInt8.ofNat (value / 0x10000 % 0x100),
    UInt8.ofNat (value / 0x100 % 0x100), UInt8.ofNat (value % 0x100)]

def wordValue (first second third fourth : UInt8) : Nat :=
  first.toNat * 0x1000000 + second.toNat * 0x10000 + third.toNat * 0x100 + fourth.toNat

def readCount : List UInt8 → Nat × List UInt8
  | [] => (0, [])
  | byte :: rest => if byte = 1 then ((readCount rest).1 + 1, (readCount rest).2) else (0, rest)

def writeSize (size : Nat) : List UInt8 :=
  if size < mark then word size else word mark ++ List.replicate size 1 ++ [0]

def readSize : List UInt8 → Nat × List UInt8
  | first :: second :: third :: fourth :: rest =>
      let size := wordValue first second third fourth
      if size = mark then readCount rest else (size, rest)
  | _ => (0, [])

theorem wordValue_word {value : Nat} (small : value < 2 ^ 32) :
    wordValue (UInt8.ofNat (value / 0x1000000)) (UInt8.ofNat (value / 0x10000 % 0x100))
      (UInt8.ofNat (value / 0x100 % 0x100)) (UInt8.ofNat (value % 0x100)) = value := by
  simp only [wordValue, UInt8.toNat_ofNat']
  omega

theorem readCount_replicate (count : Nat) (rest : List UInt8) :
    readCount (List.replicate count 1 ++ 0 :: rest) = (count, rest) := by
  induction count with
  | zero => rfl
  | succ count ih =>
      rw [List.replicate_succ, List.cons_append, readCount, if_pos rfl, ih]

theorem readCount_length (bytes : List UInt8) : (readCount bytes).2.length ≤ bytes.length := by
  fun_induction readCount bytes with
  | case1 => exact Nat.le_refl _
  | case2 rest ih => exact Nat.le_succ_of_le ih
  | case3 byte rest => exact Nat.le_succ _

theorem readSize_writeSize (size : Nat) (rest : List UInt8) :
    readSize (writeSize size ++ rest) = (size, rest) := by
  rw [writeSize]
  split
  next small =>
    have value := wordValue_word (Nat.lt_trans small (by decide : mark < 2 ^ 32))
    simp only [word, List.cons_append, List.nil_append, readSize, value]
    exact if_neg (Nat.ne_of_lt small)
  next =>
    have value := wordValue_word (by decide : mark < 2 ^ 32)
    simp only [word, List.cons_append, List.nil_append, List.append_assoc, readSize, value]
    exact readCount_replicate size rest

theorem readSize_length {bytes : List UInt8} (nonempty : bytes ≠ []) :
    (readSize bytes).2.length < bytes.length := by
  fun_cases readSize bytes with
  | case1 first second third fourth rest size isMark =>
      have shorter := readCount_length rest
      simp only [List.length_cons]
      omega
  | case2 first second third fourth rest size notMark =>
      simp only [List.length_cons]
      omega
  | case3 => exact List.length_pos_iff.mpr nonempty

def frame (data : List UInt8) : List UInt8 :=
  writeSize data.length ++ data

def unframe (bytes : List UInt8) : List UInt8 × List UInt8 :=
  let sized := readSize bytes
  (sized.2.take sized.1, sized.2.drop sized.1)

theorem unframe_frame (data rest : List UInt8) : unframe (frame data ++ rest) = (data, rest) := by
  rw [unframe, frame, List.append_assoc, readSize_writeSize]
  simp

theorem unframe_length {bytes : List UInt8} (nonempty : bytes ≠ []) :
    (unframe bytes).2.length < bytes.length := by
  have shorter := readSize_length nonempty
  simp only [unframe, List.length_drop]
  omega

theorem frame_ne_nil (data : List UInt8) : frame data ≠ [] := by
  rw [frame, writeSize]
  split <;> simp [word]

end Hooq.Library.Framing

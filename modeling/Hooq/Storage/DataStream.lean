import Hooq.Library.Framing
import Hooq.Qt.Bytes

/-!
# Streams and compression

What an archive relies on: a data stream that reads back what it wrote, and a
compression that can be undone.  Both come with their laws.
-/

namespace Hooq

/-- `QDataStream`, for strings and byte arrays.  Reading goes on with what is behind the
value, and takes something from a stream that is not at its end. -/
structure DataStream where
  writeString : QString → QByteArray
  writeBytes : QByteArray → QByteArray
  readString : QByteArray → QString × QByteArray
  readBytes : QByteArray → QByteArray × QByteArray
  readString_writeString : ∀ text rest, readString (writeString text ++ rest) = (text, rest)
  readBytes_writeBytes : ∀ data rest, readBytes (writeBytes data ++ rest) = (data, rest)
  writeString_ne_nil : ∀ text, writeString text ≠ []
  writeBytes_ne_nil : ∀ data, writeBytes data ≠ []
  readString_length : ∀ stream, stream ≠ [] → (readString stream).2.length < stream.length
  readBytes_length : ∀ stream, stream ≠ [] → (readBytes stream).2.length < stream.length

/-- `qCompress` and `qUncompress`. -/
structure Compression where
  compress : QByteArray → QByteArray
  uncompress : QByteArray → QByteArray
  uncompress_compress : ∀ data, uncompress (compress data) = data

namespace DataStream

/-- The bytes of a string, for each code unit the more significant one first. -/
def unitBytes (text : QString) : QByteArray :=
  text.flatMap fun unit : QChar =>
    [UInt8.ofNat (unit.toNat / 0x100), UInt8.ofNat (unit.toNat % 0x100)]

def unitsOf : QByteArray → QString
  | high :: low :: rest => UInt16.ofNat (high.toNat * 0x100 + low.toNat) :: unitsOf rest
  | _ => []

theorem unit_of_bytes (unit : UInt16) :
    UInt16.ofNat ((UInt8.ofNat (unit.toNat / 0x100)).toNat * 0x100 +
      (UInt8.ofNat (unit.toNat % 0x100)).toNat) = unit := by
  have small := unit.toNat_lt
  apply UInt16.toNat_inj.mp
  simp only [UInt16.toNat_ofNat', UInt8.toNat_ofNat']
  omega

theorem unitsOf_unitBytes (text : QString) : unitsOf (unitBytes text) = text := by
  induction text with
  | nil => rw [unitBytes, List.flatMap_nil, unitsOf.eq_def]
  | cons unit text ih =>
      rw [unitBytes, List.flatMap_cons, List.cons_append, List.cons_append, List.nil_append,
        unitsOf, unit_of_bytes]
      exact congrArg _ ih

/-- The format of Qt 4.4 as far as sizes below `0xFFFFFFFE` go: both kinds of values are
written behind their size in bytes.  Longer values are written in a way of their own, and
`0xFFFFFFFF`, which stands for a null value there, is a size like any other here. -/
def qt44 : DataStream where
  writeString text := Library.Framing.frame (unitBytes text)
  writeBytes := Library.Framing.frame
  readString stream :=
    (unitsOf (Library.Framing.unframe stream).1, (Library.Framing.unframe stream).2)
  readBytes := Library.Framing.unframe
  readString_writeString := by
    intro text rest
    rw [Library.Framing.unframe_frame, unitsOf_unitBytes]
  readBytes_writeBytes := Library.Framing.unframe_frame
  writeString_ne_nil text := Library.Framing.frame_ne_nil _
  writeBytes_ne_nil := Library.Framing.frame_ne_nil
  readString_length _ := Library.Framing.unframe_length
  readBytes_length _ := Library.Framing.unframe_length

end DataStream

end Hooq

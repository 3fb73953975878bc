import Hooq.Control.ReplyStream
import Mathlib.Data.List.DropRight

/-!
# Paths that come back

Which paths the interpreter gets from the reply about an object that was not found.  They
are written as Latin-1 and read as UTF-8, as one line without its white space at the end.
-/

namespace Hooq.Replies

open QString

/-- What the bytes of a path say, up to a null character. -/
def arrivedText (path : QString) : QString :=
  decodeUtf8 0 (path.toLatin1.takeWhile (· ≠ 0))

theorem arrivedText_length_le (path : QString) : (arrivedText path).length ≤ path.length := by
  have decoded := decodeUtf8_length_le 0 (path.toLatin1.takeWhile (· ≠ 0))
  have taken := (List.takeWhile_prefix (p := (· ≠ 0)) (l := path.toLatin1)).length_le
  rw [QString.toLatin1, List.length_map] at taken
  exact decoded.trans taken

/-- The line break is white space at the end. -/
theorem rdropWhile_line (path : QString) :
    (decodeUtf8 0 ((path.toLatin1 ++ [newlineByte]).takeWhile (· ≠ 0))).rdropWhile isSpace =
      (arrivedText path).rdropWhile isSpace := by
  rw [arrivedText, List.takeWhile_append]
  split
  next whole =>
    have all := List.takeWhile_prefix (p := (· ≠ 0)) (l := path.toLatin1) |>.eq_of_length whole
    have line : [newlineByte].takeWhile (· ≠ 0) = [newlineByte] := rfl
    rw [all, line, decodeUtf8_concat (by decide) (Nat.zero_le _)]
    exact List.rdropWhile_concat_pos isSpace _ _ rfl
  next => rfl

/-- A path that only has white space is not told from the word in front of it. -/
theorem notFoundText_eq (path : QString) :
    notFoundText path =
      if (arrivedText path).rdropWhile isSpace = [] then QString.ofString "NOTFOUND"
      else (arrivedText path).rdropWhile isSpace := by
  let line := decodeUtf8 0 ((path.toLatin1 ++ [newlineByte]).takeWhile (· ≠ 0))
  have trimmed : (fromUtf8 (QByteArray.ofString "NOTFOUND " ++
      (path.toLatin1 ++ [newlineByte]))).trimmed =
        QString.ofString "NOTFOUND" ++ (0x20 :: line).rdropWhile isSpace := by
    rw [fromUtf8_notFound, QString.trimmed_append notFound_solid (by decide)]
    rfl
  have blank : (0x20 :: line).rdropWhile isSpace =
      if line.rdropWhile isSpace = [] then [] else 0x20 :: line.rdropWhile isSpace := by
    rw [List.rdropWhile, List.reverse_cons, List.dropWhile_append, List.rdropWhile]
    simp only [List.isEmpty_iff, List.reverse_eq_nil_iff]
    split
    next => rfl
    next => rw [List.reverse_append, List.reverse_singleton, List.singleton_append]
  rw [notFoundText, trimmed, blank, rdropWhile_line]
  split
  next => decide
  next =>
    have found : (0x20 : QChar) ∈ QString.ofString "NOTFOUND" ++
        0x20 :: (arrivedText path).rdropWhile isSpace :=
      List.mem_append_right _ List.mem_cons_self
    rw [afterSpace, if_pos found]
    rfl

theorem isPlain_word : IsPlain (QString.ofString "NOTFOUND") where
  ascii := by
    have all : (QString.ofString "NOTFOUND").all
        (fun unit => 0 < unit.toNat && unit.toNat < 0x80) = true := by decide
    intro unit member
    simpa using List.all_eq_true.mp all unit member
  ending := ⟨QString.ofString "NOTFOUN", 0x44, by decide, by decide⟩

/-- The path that is handed on is the path that was looked for if it is plain, and only
then. -/
theorem notFoundText_eq_self_iff (path : QString) : notFoundText path = path ↔ IsPlain path := by
  constructor
  · intro same
    rw [notFoundText_eq] at same
    split at same
    next => exact same ▸ isPlain_word
    next visible =>
      have part := List.rdropWhile_prefix isSpace (arrivedText path)
      have whole : arrivedText path = path := by
        rw [same] at part
        exact (part.eq_of_length_le (arrivedText_length_le path)).symm
      have last := List.rdropWhile_last_not isSpace (arrivedText path) visible
      refine ⟨ascii_of_decodeUtf8 whole, path.dropLast, path.getLast (same ▸ visible), ?_, ?_⟩
      · exact (List.dropLast_append_getLast _).symm
      · simpa only [same, Bool.not_eq_true] using last
  · exact notFoundText_of_isPlain

/-- What is handed on is the word in front of the path, or it is no longer than the path. -/
theorem notFoundText_length_le (path : QString) :
    notFoundText path = QString.ofString "NOTFOUND" ∨
      (notFoundText path).length ≤ path.length := by
  rw [notFoundText_eq]
  split
  next => exact .inl rfl
  next =>
    exact .inr ((List.rdropWhile_prefix isSpace _).length_le.trans (arrivedText_length_le path))

variable {Double : Type} (xml : ObjectXml) (toDouble : QString → Double)

theorem newlineByte_mem_toLatin1 {path : QString} :
    newlineByte ∈ path.toLatin1 ↔ (10 : QChar) ∈ path := by
  rw [QString.toLatin1, List.mem_map]
  constructor
  · rintro ⟨unit, member, isBreak⟩
    by_cases latin : unit.toNat < 0x100
    · rw [if_pos latin] at isBreak
      have value := congrArg UInt8.toNat isBreak
      rw [UInt8.toNat_ofNat', Nat.mod_eq_of_lt latin] at value
      have same : unit = 10 := UInt16.toNat_inj.mp value
      exact same ▸ member
    · rw [if_neg latin] at isBreak
      cases isBreak
  · intro member
    exact ⟨10, member, rfl⟩

/-- A plain path in one line comes back, whatever the pieces are that the line arrives in. -/
theorem receive_notFound {path : QString} (plain : IsPlain path) (noBreak : (10 : QChar) ∉ path)
    {deliveries : List QByteArray}
    (arrives : deliveries.flatten = Reply.bytes xml (.notFound path)) :
    receive xml toDouble deliveries = ([.objectNotFound path], []) := by
  have isWire : deliveries.flatten = wire xml [.notFound path] := by
    rw [arrives, wire, List.flatMap_singleton]
  have noDocument : ∀ reply ∈ [(.notFound path : Reply ObjectDocument)],
      document reply = none := by
    intro reply member
    rw [List.mem_singleton.mp member]
    rfl
  have whole : AllWhole xml [.notFound path] deliveries := by
    intro earlier delivery later _ before reply after object shape isDocument
    have none := noDocument reply (shape ▸ List.mem_append_right _ List.mem_cons_self)
    rw [none] at isDocument
    cases isDocument
  have reads : ∀ reply ∈ [.notFound path], ∀ object,
      document reply = some object → xml.Reads object := by
    intro reply member object isDocument
    rw [noDocument reply member] at isDocument
    cases isDocument
  have noBreaks : ∀ other, (.notFound other : Reply ObjectDocument) ∈ [.notFound path] →
      newlineByte ∉ other.toLatin1 := by
    intro other member
    cases List.mem_singleton.mp member
    exact fun isBreak => noBreak (newlineByte_mem_toLatin1.mp isBreak)
  obtain ⟨handled, rest, left, shape, handles, absent, stream, leftover, _⟩ :=
    reached_receive xml toDouble isWire whole reads noBreaks
  rw [List.append_nil] at stream
  cases rest with
  | cons reply rest =>
      rw [stream, wire_cons, List.mem_append, List.mem_append, not_or, not_or] at absent
      exact absurd (newline_mem_bytes xml reply) absent.2.1
  | nil =>
      have nothing : left = [] := by
        rcases leftover with none | ⟨part, rfl, _⟩
        · exact none
        · rw [stream, List.append_assoc] at absent
          exact absurd (List.mem_append_right _ List.mem_cons_self) absent
      have noBytes : (receive xml toDouble deliveries).2 = [] := by
        rw [stream, nothing]
        rfl
      rw [List.append_nil] at shape
      rw [← shape] at handles
      cases handled : (receive xml toDouble deliveries).1 with
      | nil =>
          rw [handled] at handles
          cases handles
      | cons handling others =>
          rw [handled, List.forall₂_cons] at handles
          have none := List.forall₂_nil_left_iff.mp handles.2
          cases handling with
          | objectNotFound found =>
              have same : found = path := handles.1 plain
              rw [none, same] at handled
              exact Prod.ext handled noBytes
          | setAck => exact handles.1.elim
          | dumpedObject information => exact handles.1.elim
          | objectPicked information => exact handles.1.elim

/-- What is behind a line break in the path is read as a reply of its own. -/
theorem processSocketData_break {front : QString} (noBreak : (10 : QChar) ∉ front)
    (back : QString) :
    processSocketData xml toDouble (Reply.bytes xml (.notFound (front ++ 10 :: back))) =
      (.objectNotFound (notFoundText front) ::
          (processSocketData xml toDouble (back.toLatin1 ++ [newlineByte])).1,
        (processSocketData xml toDouble (back.toLatin1 ++ [newlineByte])).2) := by
  have absent : newlineByte ∉ front.toLatin1 := fun isBreak =>
    noBreak (newlineByte_mem_toLatin1.mp isBreak)
  have line := processSocketData_notFound xml toDouble absent (back.toLatin1 ++ [newlineByte])
  have bytes : Reply.bytes xml (.notFound (front ++ 10 :: back)) =
      QByteArray.ofString "NOTFOUND " ++
        (front.toLatin1 ++ newlineByte :: (back.toLatin1 ++ [newlineByte])) := by
    rw [Reply.bytes, QString.toLatin1, List.map_append, List.append_assoc]
    rfl
  rw [bytes, line]

/-- An object name with a line break can forge an acknowledgement. -/
example : processSocketData xml toDouble
    (Reply.bytes xml (.notFound (QString.ofString "ok\nACK"))) =
      ([.objectNotFound (QString.ofString "ok"), .setAck], []) := by
  have noBreak : (10 : QChar) ∉ QString.ofString "ok" := by decide
  have path : QString.ofString "ok\nACK" = QString.ofString "ok" ++ 10 :: QString.ofString "ACK" :=
    rfl
  have text : notFoundText (QString.ofString "ok") = QString.ofString "ok" := by decide +kernel
  have ack : (QString.ofString "ACK").toLatin1 ++ [newlineByte] =
      QByteArray.ofString "ACK\n" ++ [] := rfl
  rw [path, processSocketData_break xml toDouble noBreak, text, ack, processSocketData_ack,
    processSocketData_none xml toDouble List.not_mem_nil]

/-- A path comes back: whatever the pieces are that its reply arrives in, the interpreter
reads one reply, with this path. -/
def ReturnsPath (path : QString) : Prop :=
  ∀ deliveries : List QByteArray, deliveries.flatten = Reply.bytes xml (.notFound path) →
    receive xml toDouble deliveries = ([.objectNotFound path], [])

theorem ReturnsPath.processSocketData {path : QString} (returns : ReturnsPath xml toDouble path) :
    processSocketData xml toDouble (Reply.bytes xml (.notFound path)) =
      ([.objectNotFound path], []) :=
  returns [Reply.bytes xml (.notFound path)] (List.flatten_singleton)

theorem returnsPath_iff (path : QString) :
    ReturnsPath xml toDouble path ↔ IsPlain path ∧ (10 : QChar) ∉ path := by
  constructor
  · intro returns
    have processed := returns.processSocketData
    by_cases isBreak : (10 : QChar) ∈ path
    · obtain ⟨front, back, rfl, noBreak⟩ := List.eq_append_cons_of_mem isBreak
      rw [processSocketData_break xml toDouble noBreak, Prod.mk.injEq, List.cons.injEq,
        Handling.objectNotFound.injEq] at processed
      rcases notFoundText_length_le front with word | shorter
      · rw [processed.1.1] at word
        rw [word] at isBreak
        exact absurd isBreak (by decide)
      · rw [processed.1.1, List.length_append, List.length_cons] at shorter
        omega
    · have absent : newlineByte ∉ path.toLatin1 := fun member =>
        isBreak (newlineByte_mem_toLatin1.mp member)
      rw [Reply.bytes, processSocketData_notFound xml toDouble absent [], Prod.mk.injEq,
        List.cons.injEq, Handling.objectNotFound.injEq] at processed
      exact ⟨(notFoundText_eq_self_iff path).mp processed.1.1, isBreak⟩
  · rintro ⟨plain, noBreak⟩ deliveries arrives
    exact receive_notFound xml toDouble plain noBreak arrives

theorem umlaut_not_returnsPath :
    ¬ReturnsPath labelXml (fun _ => ()) (QString.ofString "Größe") := by
  intro returns
  have processed := returns.processSocketData
  have absent : newlineByte ∉ (QString.ofString "Größe").toLatin1 := by decide
  rw [Reply.bytes, processSocketData_notFound labelXml _ absent [], Prod.mk.injEq,
    List.cons.injEq, Handling.objectNotFound.injEq] at processed
  exact absurd processed.1.1 (by decide +kernel)

end Hooq.Replies

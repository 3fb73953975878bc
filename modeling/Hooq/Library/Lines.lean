import Mathlib.Algebra.Ring.Nat
import Mathlib.Data.List.Induction
import Mathlib.Data.List.TakeWhile

/-!
# Lines

Lines at the start of the data that has arrived.  A line is there once its ending is.
The lines of a whole text, with an ending between them, can be cut apart at the start of each.
-/

namespace Hooq.Library.Lines

variable {α : Type} [DecidableEq α] {ending : α}

/-- The first line with its ending, and what is behind it. -/
def readLine (ending : α) (data : List α) : Option (List α × List α) :=
  match data.dropWhile (· ≠ ending) with
  | [] => none
  | found :: rest => some (data.takeWhile (· ≠ ending) ++ [found], rest)

theorem readLine_eq_none {data : List α} (absent : ending ∉ data) :
    readLine ending data = none := by
  have none : data.dropWhile (· ≠ ending) = [] := by
    apply List.dropWhile_eq_nil_iff.mpr
    intro item member
    exact decide_eq_true fun same => absent (same ▸ member)
  rw [readLine, none]

theorem readLine_append {line : List α} (absent : ending ∉ line) (rest : List α) :
    readLine ending (line ++ ending :: rest) = some (line ++ [ending], rest) := by
  have inside : ∀ item ∈ line, decide (item ≠ ending) = true := by
    intro item member
    exact decide_eq_true fun same => absent (same ▸ member)
  have dropped : (line ++ ending :: rest).dropWhile (· ≠ ending) = ending :: rest := by
    rw [List.dropWhile_append_of_pos inside, List.dropWhile_cons, if_neg (by simp)]
  have taken : (line ++ ending :: rest).takeWhile (· ≠ ending) = line := by
    rw [List.takeWhile_append_of_pos inside, List.takeWhile_cons, if_neg (by simp),
      List.append_nil]
  rw [readLine, dropped, taken]

theorem readLine_length {data line rest : List α}
    (read : readLine ending data = some (line, rest)) : rest.length < data.length := by
  rw [readLine] at read
  split at read
  next => cases read
  next found behind shape =>
    cases read
    have shorter := (List.dropWhile_suffix (l := data) (· ≠ ending)).length_le
    rw [shape] at shorter
    exact shorter

/-- Where a line has arrived in the data, the data ends behind it. -/
theorem exists_behind {data future line rest : List α} (absent : ending ∉ line)
    (stream : data ++ future = line ++ ending :: rest) (arrived : ending ∈ data) :
    ∃ behind, data = line ++ ending :: behind ∧ behind ++ future = rest := by
  obtain ⟨front, behind, shape, before⟩ := List.eq_append_cons_of_mem arrived
  have read := readLine_append before (behind ++ future)
  rw [← List.cons_append, ← List.append_assoc, ← shape, stream, readLine_append absent,
    Option.some.injEq, Prod.mk.injEq] at read
  have same : line = front := List.append_cancel_right read.1
  rw [same]
  exact ⟨behind, shape, read.2.symm⟩

/-! ## The lines of a text -/

/-- The lines of a text.  There is no ending behind the last one. -/
def lines (ending : α) (text : List α) : List (List α) :=
  text.splitOn ending

/-- Where a line begins. -/
def start (ending : α) (text : List α) (number : Nat) : Nat :=
  (((lines ending text).take number).map fun line => line.length + 1).sum

theorem lines_append (front back : List α) :
    lines ending (front ++ ending :: back) = lines ending front ++ lines ending back :=
  List.splitOnP_append_cons front back (beq_self_eq_true ending)

theorem lines_of_free {text : List α} (absent : ending ∉ text) : lines ending text = [text] :=
  List.splitOn_eq_singleton absent

/-- A text in front of an ending is the first line where it has no ending itself. -/
theorem head?_lines_iff (text rest : List α) :
    (lines ending (text ++ ending :: rest)).head? = some text ↔ ending ∉ text := by
  constructor
  · intro isFirst member
    obtain ⟨front, back, rfl, absent⟩ := List.eq_append_cons_of_mem member
    rw [List.append_assoc, List.cons_append, lines_append, lines_of_free absent,
      List.singleton_append, List.head?_cons, Option.some.injEq] at isFirst
    simpa using congrArg List.length isFirst
  · intro absent
    rw [lines_append, lines_of_free absent, List.singleton_append, List.head?_cons]

theorem length_lines (text : List α) :
    (lines ending text).length = text.count ending + 1 := by
  induction size : text.length using Nat.strong_induction_on generalizing text with
  | _ size ih =>
      subst size
      by_cases member : ending ∈ text
      · obtain ⟨front, back, rfl, absent⟩ := List.eq_append_cons_of_mem member
        have behind := ih back.length (by simp; omega) back rfl
        rw [lines_append, lines_of_free absent, List.length_append, behind, List.count_append,
          List.count_eq_zero.mpr absent, List.count_cons_self, List.length_singleton]
        omega
      · rw [lines_of_free member, List.count_eq_zero.mpr member]
        rfl

theorem free_of_length_lines {text : List α} (single : (lines ending text).length ≤ 1) :
    ending ∉ text := by
  rw [length_lines] at single
  exact List.count_eq_zero.mp (by omega)

/-- A text is cut in front of one of its lines. -/
theorem exists_cut {text : List α} {number : Nat} (inside : number < (lines ending text).length) :
    ∃ front back, text = front ++ back ∧ front.length = start ending text number ∧
      (∀ more, lines ending (front ++ more) =
        (lines ending text).take number ++ lines ending more) ∧
      lines ending back = (lines ending text).drop number := by
  induction number generalizing text with
  | zero => exact ⟨[], text, rfl, rfl, fun _ => rfl, rfl⟩
  | succ number ih =>
      have member : ending ∈ text := by
        by_contra absent
        rw [lines_of_free absent, List.length_singleton] at inside
        omega
      obtain ⟨line, rest, rfl, absent⟩ := List.eq_append_cons_of_mem member
      have shape : lines ending (line ++ ending :: rest) = line :: lines ending rest := by
        rw [lines_append, lines_of_free absent]
        rfl
      rw [shape] at inside ⊢
      obtain ⟨front, back, rfl, length, append, dropped⟩ := ih (Nat.lt_of_succ_lt_succ inside)
      refine ⟨line ++ ending :: front, back, by simp, ?_, ?_, dropped⟩
      · rw [start, shape, List.take_succ_cons, List.map_cons, List.sum_cons, List.length_append,
          List.length_cons, length, start]
        omega
      · intro more
        rw [List.append_assoc, List.cons_append, lines_append, append, lines_of_free absent]
        rfl

/-- What is inserted at the start of a line comes in front of it. -/
theorem lines_insert {text : List α} {number : Nat} (inside : number < (lines ending text).length)
    (inserted : List α) :
    lines ending (text.take (start ending text number) ++
        (inserted ++ ending :: text.drop (start ending text number))) =
      (lines ending text).take number ++
        (lines ending inserted ++ (lines ending text).drop number) := by
  obtain ⟨front, back, rfl, length, append, dropped⟩ := exists_cut inside
  rw [← length, List.take_left, List.drop_left, append, lines_append, dropped]

end Hooq.Library.Lines

import Mathlib.Data.List.TakeWhile
import BoSyntax.Proofs.Step
import BoSyntax.Text.Cursor

/-!
# Reading a text

A cursor that has come from the start of a text divides it into the characters that were read and
those that are left, and its line and column are told by the former. Reading moves characters from
one part to the other, so what a step of reading does is said of the two lists of characters.
-/

namespace BoSyntax

/-- The place after some characters from the start of a text: the line is one more than the number
of line feeds, and the column one more than the number of characters since the last of them. -/
def placeAfter (before : List Char) : Position :=
  ⟨1 + before.count '\n', 1 + (before.reverse.takeWhile (· ≠ '\n')).length⟩

/-- A line feed leads to the start of the next line, and any other character to the next column. -/
theorem placeAfter_concat (before : List Char) (c : Char) :
    placeAfter (before ++ [c]) =
      if c = '\n' then ⟨(placeAfter before).line + 1, 1⟩
      else ⟨(placeAfter before).line, (placeAfter before).column + 1⟩ := by
  by_cases hc : c = '\n'
  · simp [placeAfter, hc, Int.add_assoc]
  · simp [placeAfter, hc, Int.add_assoc]

namespace TextCursor

/-- The cursor between the characters that were read from the start of a text and those left. -/
def between (before rest : List Char) : TextCursor :=
  ⟨(before ++ rest).toArray, before.length, (placeAfter before).line, (placeAfter before).column⟩

variable (before rest : List Char) (c : Char)

/-- At the start all characters are left. -/
theorem ofString_eq_between (source : String) : ofString source = between [] source.toList :=
  rfl

/-- The position is the place behind what was read. -/
@[simp] theorem position_between : (between before rest).position = placeAfter before :=
  rfl

/-- The end is reached when nothing is left. -/
@[simp] theorem atEnd_between : (between before rest).atEnd = rest.isEmpty := by
  cases rest with
  | nil => simp [atEnd, between]
  | cons c rest =>
    simp only [atEnd, between, List.size_toArray, List.length_append, List.length_cons,
      List.isEmpty_cons, decide_eq_false_iff_not]
    omega

/-- What remains is what is left. -/
@[simp] theorem remaining_between : (between before rest).remaining = rest.length := by
  simp only [remaining, between, List.size_toArray, List.length_append]
  omega

/-- In sight is the first character that is left. -/
@[simp] theorem peek_between : (between before rest).peek 0 = rest.head? := by
  have hpeek : (between before rest).peek 0 = (before ++ rest)[before.length]? := by
    have hnonneg : ¬(before.length : Int) < 0 := by omega
    simp [peek, between, hnonneg]
  rw [hpeek, List.getElem?_append_right (Nat.le_refl _), Nat.sub_self, List.head?_eq_getElem?]

/-- A character that was read is the last one of those read. -/
theorem after_between :
    (between before (c :: rest)).after c = between (before ++ [c]) rest := by
  by_cases hc : c = '\n' <;> simp [after, between, placeAfter_concat, hc]

end TextCursor

/-- An index within a sequence stands for the place of that number. -/
theorem placeOfIndex_natCast {length index : Nat} (h : index < length) :
    placeOfIndex length index = .ok ⟨index, h⟩ := by
  have hplace : (0 : Int) ≤ index ∧ (index : Int) < length := by omega
  have hnonneg : ¬(index : Int) < 0 := by omega
  simp [placeOfIndex, hnonneg, hplace]

namespace Scan

open TextCursor

variable (before rest : List Char) (c : Char)

/-- Reading gives the next character. -/
theorem next_between :
    next (between before (c :: rest)) = .ok c (between (before ++ [c]) rest) := by
  have hlength : before.length < (between before (c :: rest)).source.size := by simp [between]
  have hplace : placeOfIndex (between before (c :: rest)).source.size
      (between before (c :: rest)).offset = .ok ⟨before.length, hlength⟩ :=
    placeOfIndex_natCast hlength
  have hsight : (between before (c :: rest)).source[(⟨before.length, hlength⟩ : Fin _)] = c := by
    simp [between]
  simp only [next, get_bind, atEnd_between, List.isEmpty_cons, Bool.false_eq_true, if_false, hplace,
    hsight, after_between]
  rfl

/-- Reading on stops at the first character that is not as wanted. -/
theorem takeUpTo_between (p : Char → Bool) {count : Nat} (h : rest.length ≤ count) :
    takeUpTo (fun sight => sight.any p) count (between before rest) =
      .ok (rest.takeWhile p) (between (before ++ rest.takeWhile p) (rest.dropWhile p)) := by
  induction count generalizing before rest with
  | zero =>
    obtain rfl := List.length_eq_zero_iff.mp (Nat.le_zero.mp h)
    rw [List.takeWhile_nil, List.append_nil]
    rfl
  | succ count ih =>
    cases rest with
    | nil =>
      simp only [takeUpTo, get_bind, atEnd_between, List.isEmpty_nil, Bool.true_or,
        List.takeWhile_nil, List.append_nil]
      rfl
    | cons c rest =>
      simp only [takeUpTo, get_bind, atEnd_between, List.isEmpty_cons, peek_between,
        List.head?_cons, Option.any_some, Bool.false_or]
      by_cases hp : p c = true
      · rw [List.takeWhile_cons_of_pos hp, List.dropWhile_cons_of_pos hp]
        have hrest := ih (before ++ [c]) rest (Nat.le_of_succ_le_succ h)
        rw [List.append_assoc] at hrest
        simp only [hp]
        exact (bind_of_eq_ok (next_between before rest c)).trans (bind_of_eq_ok hrest)
      · rw [List.takeWhile_cons_of_neg hp, List.dropWhile_cons_of_neg hp, List.append_nil]
        simp only [hp]
        rfl

/-- Reading on takes the longest run of characters that are as wanted. -/
theorem takeWhile_between (p : Char → Bool) :
    takeWhile (fun sight => sight.any p) (between before rest) =
      .ok (rest.takeWhile p) (between (before ++ rest.takeWhile p) (rest.dropWhile p)) := by
  have hcount : rest.length ≤ (between before rest).remaining := by simp
  exact takeUpTo_between before rest p hcount

end Scan

end BoSyntax

import Mathlib.Data.List.TakeDrop
import Mathlib.Data.List.TakeWhile
import BoSyntax.Binary64.Decimal
import BoSyntax.Proofs.Binary64.Integral

/-!
# Numerals

A row of decimal digits, of any scripts and of any length, is the text of a number: the one nearest
to its value. Every natural number is the value of some row of digits.
-/

namespace BoSyntax

namespace Text

/-- The value of a row of digits after digits of value `high`. -/
def decimalValue (high : Nat) (digits : List Char) : Nat :=
  digits.foldl (fun value c => 10 * value + (digitValue? c).getD 0) high

/-- A last digit adds its value to ten times that of the digits before it. -/
theorem decimalValue_concat (high : Nat) (digits : List Char) (c : Char) :
    decimalValue high (digits ++ [c]) =
      10 * decimalValue high digits + (digitValue? c).getD 0 := by
  simp [decimalValue]

/-- A digit is worth less than ten. -/
theorem digitValue?_lt {c : Char} {value : Nat} (h : digitValue? c = some value) : value < 10 := by
  simp only [digitValue?, Option.map_eq_some_iff] at h
  obtain ⟨first, hfind, rfl⟩ := h
  have hrange := List.find?_some hfind
  simp only [Bool.and_eq_true, decide_eq_true_eq] at hrange
  omega

/-- A digit has a value. -/
theorem digitValue?_of_isDigit {c : Char} (h : isDigit c = true) :
    digitValue? c = some ((digitValue? c).getD 0) := by
  obtain ⟨value, hvalue⟩ := Option.isSome_iff_exists.mp h
  rw [hvalue, Option.getD_some]

/-- No block of digits meets a range of blanks. -/
theorem isBlank_of_isDigit {c : Char} (h : isDigit c = true) : isBlank c = false := by
  have hapart : ∀ range ∈ blanks, ∀ first ∈ zeros, range.2 < first ∨ first + 10 ≤ range.1 := by
    decide +kernel
  simp only [isDigit, digitValue?, Option.isSome_map, List.find?_isSome, Bool.and_eq_true,
    decide_eq_true_eq] at h
  obtain ⟨first, hfirst, hlow, hhigh⟩ := h
  rw [Bool.eq_false_iff]
  simp only [isBlank, Ranges.has, Ne, List.any_eq_true, Bool.and_eq_true, decide_eq_true_eq]
  rintro ⟨range, hrange, hbelow, habove⟩
  rcases hapart range hrange first hfirst with h | h <;> omega

end Text

namespace Binary64

open Text

/-- The digit of ASCII with a value. -/
def asciiDigit (value : Nat) : Char :=
  Char.ofNat ('0'.toNat + value)

/-- Among the ASCII characters the digits are those from zero to nine. -/
theorem toAscii?_of_digitValue? {c : Char} {value : Nat} (h : digitValue? c = some value) :
    toAscii? c = some (asciiDigit value) := by
  have hblank : isBlank c = false := isBlank_of_isDigit (by rw [isDigit, h]; rfl)
  by_cases hascii : c.toNat < 0x80
  · have hzeros : ∀ first ∈ zeros, first = '0'.toNat ∨ 0x80 ≤ first := by decide +kernel
    simp only [digitValue?, Option.map_eq_some_iff] at h
    obtain ⟨first, hfind, rfl⟩ := h
    have hrange := List.find?_some hfind
    simp only [Bool.and_eq_true, decide_eq_true_eq] at hrange
    have hfirst : first = '0'.toNat := by
      rcases hzeros first (List.mem_of_find?_eq_some hfind) with h | h
      · exact h
      · omega
    rw [toAscii?, if_pos hascii, asciiDigit, ← hfirst, Nat.add_sub_cancel' hrange.1,
      Char.ofNat_toNat]
  · rw [toAscii?, if_neg hascii, if_neg (by simp [hblank]), h]
    rfl

/-- What is known of the digits of ASCII. -/
theorem asciiDigit_spec {value : Nat} (h : value < 10) :
    asciiDigit? (asciiDigit value) = some value ∧ (asciiDigit value).toNat - '0'.toNat = value ∧
      isAsciiBlank (asciiDigit value) = false ∧ (asciiDigit value).toLower = asciiDigit value ∧
      asciiDigit value ∉ ['_', '-', '+', 'i', 'n'] := by
  have hall : ∀ value < 10, asciiDigit? (asciiDigit value) = some value ∧
      (asciiDigit value).toNat - '0'.toNat = value ∧
      isAsciiBlank (asciiDigit value) = false ∧ (asciiDigit value).toLower = asciiDigit value ∧
      asciiDigit value ∉ ['_', '-', '+', 'i', 'n'] := by decide +kernel
  exact hall value h

/-! ## Rows of ASCII digits -/

section Rows

variable {row : List Nat}

/-- Blanks are taken off the ends of a number, but its digits are none. -/
theorem dropWhile_isAsciiBlank (h : ∀ value ∈ row, value < 10) :
    (row.map asciiDigit).dropWhile isAsciiBlank = row.map asciiDigit := by
  cases row with
  | nil => rfl
  | cons value row =>
    have hblank := (asciiDigit_spec (h value (by simp))).2.2.1
    rw [List.map_cons, List.dropWhile_cons_of_neg (by simp [hblank])]

/-- There are no underscores among digits. -/
theorem dropUnderscores_digits (h : ∀ value ∈ row, value < 10) (before : Option Char) :
    dropUnderscores before (row.map asciiDigit) = some (row.map asciiDigit) := by
  induction row generalizing before with
  | nil => rfl
  | cons value row ih =>
    rw [List.forall_mem_cons] at h
    have hne : asciiDigit value ≠ '_' := by
      have hnot := (asciiDigit_spec h.1).2.2.2.2
      simp only [List.mem_cons, not_or] at hnot
      exact hnot.1
    rw [List.map_cons, dropUnderscores.eq_3 _ _ _ hne, ih h.2, Option.map_some]

/-- Digits are taken to their end. -/
theorem spanDigits_digits (h : ∀ value ∈ row, value < 10) :
    spanDigits (row.map asciiDigit) = (row.map asciiDigit, []) := by
  have hall : ∀ c ∈ row.map asciiDigit, (asciiDigit? c).isSome = true := by
    intro c hmem
    obtain ⟨value, hvalue, rfl⟩ := List.mem_map.mp hmem
    rw [(asciiDigit_spec (h value hvalue)).1, Option.isSome_some]
  rw [spanDigits, List.span_eq_takeWhile_dropWhile, List.takeWhile_eq_self_iff.mpr hall,
    List.dropWhile_eq_nil_iff.mpr hall]

/-- ASCII digits are read as the values that they are written for. -/
theorem digitsValue_digits (h : ∀ value ∈ row, value < 10) (high : Nat) :
    digitsValue high (row.map asciiDigit) = row.foldl (fun n value => 10 * n + value) high := by
  induction row generalizing high with
  | nil => rfl
  | cons value row ih =>
    rw [List.forall_mem_cons] at h
    have hstep : digitsValue high ((value :: row).map asciiDigit) =
        digitsValue (10 * high + ((asciiDigit value).toNat - '0'.toNat)) (row.map asciiDigit) := rfl
    rw [hstep, (asciiDigit_spec h.1).2.1, ih h.2, List.foldl_cons]

/-- A row of digits has no sign and is no word. -/
theorem signed?_digits (hne : row ≠ []) (h : ∀ value ∈ row, value < 10) :
    signed? (row.map asciiDigit) = unsigned? false (row.map asciiDigit) := by
  obtain ⟨value, rest, rfl⟩ := List.exists_cons_of_ne_nil hne
  rw [List.forall_mem_cons] at h
  obtain ⟨-, -, -, hlower, hnot⟩ := asciiDigit_spec h.1
  simp only [List.mem_cons, List.not_mem_nil, or_false, not_or] at hnot
  obtain ⟨-, hminus, hplus, hi, hn⟩ := hnot
  rw [List.map_cons, signed?, spanSign.eq_3 _ (by simpa using hminus) (by simpa using hplus)]
  have hword : ∀ (c : Char) (word : List Char), asciiDigit value ≠ c →
      String.ofList ((asciiDigit value :: rest.map asciiDigit).map Char.toLower) ≠
        String.ofList (c :: word) := by
    intro c word hne heq
    rw [String.ofList_inj, List.map_cons, hlower] at heq
    exact hne (List.cons.inj heq).1
  have hinf := hword 'i' ['n', 'f'] hi
  have hinfinity := hword 'i' ['n', 'f', 'i', 'n', 'i', 't', 'y'] hi
  have hnan := hword 'n' ['a', 'n'] hn
  simp only
  rw [if_neg (not_or.mpr ⟨hinf, hinfinity⟩), if_neg hnan]

/-- A row of digits is a whole number without fraction and exponent. -/
theorem unsigned?_digits (hne : row ≠ []) (h : ∀ value ∈ row, value < 10) :
    unsigned? false (row.map asciiDigit) =
      some (ofDecimal false (row.foldl (fun n value => 10 * n + value) 0) 0) := by
  have hnonempty : (row.map asciiDigit).isEmpty = false := by simpa using hne
  simp only [unsigned?, spanDigits_digits h, hnonempty, Bool.false_and, exponent?,
    digitsValue_digits h, Bool.false_eq_true, if_false, Option.map_some]
  rfl

end Rows

/-- Digits of all scripts are written in ASCII by their values. -/
theorem mapM_toAscii? {text : List Char} (h : ∀ c ∈ text, isDigit c = true) :
    text.mapM toAscii? = some (text.map fun c => asciiDigit ((digitValue? c).getD 0)) := by
  induction text with
  | nil => rfl
  | cons c text ih =>
    rw [List.forall_mem_cons] at h
    rw [List.mapM_cons, toAscii?_of_digitValue? (digitValue?_of_isDigit h.1), ih h.2]
    rfl

/-- A decimal without exponent is rounded as it is. -/
theorem ofDecimal_zero (n : Nat) : ofDecimal false n 0 = ofRatio false n 1 := by
  unfold ofDecimal
  by_cases hn : n = 0
  · have hzero : nearest 0 1 < magnitudes := by
      rw [nearest_zero]
      decide
    rw [if_pos hn, hn, ofRatio_of_lt hzero]
    simp only [nearest_zero]
  · rw [if_neg hn, if_neg (by decide), if_neg (by omega)]
    simp

/-- A row of digits is read as the number nearest to its value. -/
theorem read?_digits {text : String} (hne : text.toList ≠ [])
    (h : ∀ c ∈ text.toList, isDigit c = true) :
    read? text = some (ofRatio false (decimalValue 0 text.toList) 1) := by
  let row := text.toList.map fun c => (digitValue? c).getD 0
  have hrow : ∀ value ∈ row, value < 10 := by
    intro value hmem
    obtain ⟨c, hc, rfl⟩ := List.mem_map.mp hmem
    exact digitValue?_lt (digitValue?_of_isDigit (h c hc))
  have hrowne : row ≠ [] := by simpa [row] using hne
  have hascii : text.toList.mapM toAscii? = some (row.map asciiDigit) := by
    rw [mapM_toAscii? h, List.map_map]
    rfl
  have hvalue : row.foldl (fun n value => 10 * n + value) 0 = decimalValue 0 text.toList := by
    rw [decimalValue, List.foldl_map]
  have hreverse : ((row.map asciiDigit).reverse.dropWhile isAsciiBlank).reverse =
      row.map asciiDigit := by
    have hback : ∀ value ∈ row.reverse, value < 10 := by simpa using hrow
    rw [← List.map_reverse, dropWhile_isAsciiBlank hback, List.map_reverse, List.reverse_reverse]
  rw [read?, hascii]
  simp only [dropWhile_isAsciiBlank hrow, hreverse, dropUnderscores_digits hrow,
    Option.bind_eq_bind, Option.bind_some]
  rw [signed?_digits hrowne hrow, unsigned?_digits hrowne hrow, hvalue, ofDecimal_zero]

/-- Decimal digits of any script are read as the number nearest to their value. -/
theorem read?_ofList_digits {digits : List Char} (hne : digits ≠ [])
    (h : ∀ c ∈ digits, isDigit c = true) :
    read? (String.ofList digits) = some (ofRatio false (decimalValue 0 digits) 1) := by
  simpa using @read?_digits (String.ofList digits) (by simpa) (by simpa)

/-- The ASCII digit of a value has that value. -/
theorem digitValue?_asciiDigit {value : Nat} (h : value < 10) :
    digitValue? (asciiDigit value) = some value := by
  have hall : ∀ value < 10, digitValue? (asciiDigit value) = some value := by decide +kernel
  exact hall value h

/-- The ASCII digit of a value is a digit. -/
theorem isDigit_asciiDigit {value : Nat} (h : value < 10) : isDigit (asciiDigit value) = true := by
  rw [isDigit, digitValue?_asciiDigit h, Option.isSome_some]

/-- Every natural number is the value of a row of digits. -/
theorem exists_digits (n : Nat) :
    ∃ digits : List Char, digits ≠ [] ∧ (∀ c ∈ digits, isDigit c = true) ∧
      decimalValue 0 digits = n := by
  induction n using Nat.strongRecOn with
  | ind n ih =>
    rcases Nat.lt_or_ge n 10 with hn | hn
    · refine ⟨[asciiDigit n], by simp, by simpa using isDigit_asciiDigit hn, ?_⟩
      simp [decimalValue, digitValue?_asciiDigit hn]
    · obtain ⟨digits, -, hall, hvalue⟩ := ih (n / 10) (by omega)
      have hmod : n % 10 < 10 := Nat.mod_lt _ (by decide)
      refine ⟨digits ++ [asciiDigit (n % 10)], by simp, ?_, ?_⟩
      · rw [List.forall_mem_append]
        exact ⟨hall, by simpa using isDigit_asciiDigit hmod⟩
      · rw [decimalValue_concat, hvalue, digitValue?_asciiDigit hmod, Option.getD_some]
        omega

end Binary64

end BoSyntax

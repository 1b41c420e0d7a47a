import BoSyntax.Proofs.Binary64.Numeral
import BoSyntax.Proofs.Binary64.Shortest
import BoSyntax.Proofs.Text.Separation

/-!
# Numbers in JSON documents

The numerals of the JSON grammar of RFC 8259 and the numbers that they stand for: a whole part
without leading zeros, then perhaps a fraction and an exponent. A numeral is read as the number that
it stands for, and the text of a finite number is a numeral that stands for it.
-/

namespace BoSyntax.Json

open Binary64

/-- One or more digits. -/
def Digits (s : List Char) : Prop :=
  s ≠ [] ∧ ∀ c ∈ s, c.isDigit = true

/-- The digits before the point: a zero, or digits that start with another one. -/
inductive WholePart : List Char → Prop
  | zero : WholePart ['0']
  | digits {s} : Digits s → s.head? ≠ some '0' → WholePart s

/-- A point and digits behind it, or nothing. -/
inductive FractionPart : List Char → List Char → Prop
  | none : FractionPart [] []
  | some {s} : Digits s → FractionPart ('.' :: s) s

/-- The signs of an exponent, and whether they make it negative. -/
def exponentSigns : List (List Char × Bool) :=
  [([], false), (['+'], false), (['-'], true)]

/-- An exponent with its mark, or nothing. -/
inductive ExponentPart : List Char → Int → Prop
  | none : ExponentPart [] 0
  | some {mark sign negative s} : mark = 'e' ∨ mark = 'E' → (sign, negative) ∈ exponentSigns →
    Digits s → ExponentPart (mark :: (sign ++ s))
      (if negative then -(digitsValue 0 s : Int) else digitsValue 0 s)

/-- A numeral, and the number nearest to its decimal value. -/
inductive Numeral : List Char → Binary64 → Prop
  | parts {whole fraction digits ending exponent} (negative : Bool) : WholePart whole →
    FractionPart fraction digits → ExponentPart ending exponent →
    Numeral ((if negative then ['-'] else []) ++ whole ++ fraction ++ ending)
      (ofDecimal negative (digitsValue (digitsValue 0 whole) digits) (exponent - digits.length))

/-! ## Reading numerals -/

/-- The digits that are read as such are those of ASCII. -/
theorem isSome_asciiDigit? (c : Char) : (asciiDigit? c).isSome = c.isDigit := by
  unfold asciiDigit? Char.isDigit
  split <;> simp_all [Char.le_def]

/-- Digits are the digits of ASCII. -/
theorem exists_asciiDigit {c : Char} (h : c.isDigit = true) :
    ∃ value, value < 10 ∧ asciiDigit value = c := by
  have hrange : 48 ≤ c.toNat ∧ c.toNat ≤ 57 := by
    simpa [Char.isDigit, Char.le_def, UInt32.le_iff_toNat_le] using h
  refine ⟨c.toNat - 48, by omega, ?_⟩
  change Char.ofNat (48 + (c.toNat - 48)) = c
  rw [Nat.add_sub_cancel' hrange.1, Char.ofNat_toNat]

/-- The characters of numerals. -/
def NumeralChar (c : Char) : Prop :=
  c.isDigit = true ∨ c ∈ ['-', '+', '.', 'e', 'E']

/-- The characters of numerals are read as they are. -/
theorem NumeralChar.spec {c : Char} (h : NumeralChar c) :
    toAscii? c = some c ∧ isAsciiBlank c = false ∧ c ≠ '_' := by
  have hdigits : ∀ value < 10, toAscii? (asciiDigit value) = some (asciiDigit value) ∧
      isAsciiBlank (asciiDigit value) = false ∧ asciiDigit value ≠ '_' := by
    decide +kernel
  have hsigns : (['-', '+', '.', 'e', 'E'].all fun c =>
      toAscii? c = some c ∧ isAsciiBlank c = false ∧ c ≠ '_') = true := by
    decide +kernel
  rcases h with h | h
  · obtain ⟨value, hvalue, rfl⟩ := exists_asciiDigit h
    exact hdigits value hvalue
  · exact of_decide_eq_true (List.all_eq_true.mp hsigns c h)

/-- The characters of numerals are ASCII as they stand. -/
theorem mapM_toAscii?_of_numeralChars {text : List Char} (h : ∀ c ∈ text, NumeralChar c) :
    text.mapM toAscii? = some text := by
  induction text with
  | nil => rfl
  | cons c text ih =>
    rw [List.forall_mem_cons] at h
    rw [List.mapM_cons, h.1.spec.1, ih h.2]
    rfl

/-- A numeral does not start with a blank. -/
theorem dropWhile_of_numeralChars {text : List Char} (h : ∀ c ∈ text, NumeralChar c) :
    text.dropWhile isAsciiBlank = text := by
  cases text with
  | nil => rfl
  | cons c text =>
    have hblank := (h c List.mem_cons_self).spec.2.1
    rw [List.dropWhile_cons_of_neg (by simp [hblank])]

/-- There are no underscores in a numeral. -/
theorem dropUnderscores_of_numeralChars {text : List Char} (h : ∀ c ∈ text, NumeralChar c)
    (before : Option Char) : dropUnderscores before text = some text := by
  induction text generalizing before with
  | nil => rfl
  | cons c text ih =>
    rw [List.forall_mem_cons] at h
    rw [dropUnderscores.eq_3 _ _ _ h.1.spec.2.2, ih h.2, Option.map_some]

/-- A text of such characters is read without any change to it. -/
theorem read?_of_numeralChars {text : List Char} (h : ∀ c ∈ text, NumeralChar c) :
    read? (String.ofList text) = signed? text := by
  have hreverse : ∀ c ∈ text.reverse, NumeralChar c := by simpa using h
  simp [read?, mapM_toAscii?_of_numeralChars h, dropWhile_of_numeralChars h,
    dropWhile_of_numeralChars hreverse, dropUnderscores_of_numeralChars h]

/-- Reading takes all digits up to what is none. -/
theorem spanDigits_append {s rest : List Char} (h : ∀ c ∈ s, c.isDigit = true)
    (hrest : ∀ c ∈ rest.head?, c.isDigit = false) : spanDigits (s ++ rest) = (s, rest) := by
  have hdigits : ∀ c ∈ s, (asciiDigit? c).isSome = true := fun c hmem => by
    rw [isSome_asciiDigit?, h c hmem]
  have hend : ∀ c ∈ rest.head?, (asciiDigit? c).isSome = false := fun c hmem => by
    rw [isSome_asciiDigit?, hrest c hmem]
  rw [spanDigits, List.span_eq_takeWhile_dropWhile, takeWhile_run_append hdigits hend,
    dropWhile_run_append hdigits hend]

/-- A digit is no sign. -/
theorem spanSign_of_isDigit {s : List Char} (h : ∀ c ∈ s.head?, c.isDigit = true) :
    spanSign s = (false, s) := by
  refine spanSign.eq_3 s ?_ ?_ <;>
  · rintro rest rfl
    exact absurd (h _ rfl) (by decide)

/-- Digits start with a digit. -/
theorem Digits.isDigit_head {s : List Char} (h : Digits s) : ∀ c ∈ s.head?, c.isDigit = true :=
  fun c hmem => h.2 c (List.mem_of_mem_head? hmem)

/-- The exponent of a numeral is read as what it stands for. -/
theorem exponent?_of_exponentPart {ending : List Char} {exponent : Int}
    (h : ExponentPart ending exponent) : exponent? ending = some exponent := by
  cases h with
  | none => rfl
  | @some mark sign negative s hmark hsign hs =>
    have hspan : spanDigits (s ++ []) = (s, []) := spanDigits_append hs.2 (by simp)
    rw [List.append_nil] at hspan
    have hsplit : spanSign (sign ++ s) = (negative, s) := by
      simp only [exponentSigns, List.mem_cons, List.not_mem_nil, or_false, Prod.mk.injEq] at hsign
      rcases hsign with ⟨rfl, rfl⟩ | ⟨rfl, rfl⟩ | ⟨rfl, rfl⟩
      · exact spanSign_of_isDigit hs.isDigit_head
      · rfl
      · rfl
    simp [exponent?, hmark, hsplit, hspan, hs.1]

/-- The part before the point has digits. -/
theorem WholePart.digits_of {s : List Char} (h : WholePart s) : Digits s := by
  cases h with
  | zero => exact ⟨by simp, by simp⟩
  | digits h _ => exact h

/-- An exponent starts with no digit and no point. -/
theorem ExponentPart.head {ending : List Char} {exponent : Int} (h : ExponentPart ending exponent) :
    ∀ c ∈ ending.head?, c.isDigit = false ∧ c ≠ '.' := by
  cases h with
  | none => simp
  | some hmark _ _ => rcases hmark with rfl | rfl <;> simp

/-- What stands before the exponent is read as the whole part and the fraction. -/
theorem unsigned?_of_parts {whole fraction digits ending : List Char} {exponent : Int}
    (negative : Bool) (hwhole : Digits whole) (hfraction : FractionPart fraction digits)
    (hending : ExponentPart ending exponent) :
    unsigned? negative (whole ++ fraction ++ ending) =
      some (ofDecimal negative (digitsValue (digitsValue 0 whole) digits)
        (exponent - digits.length)) := by
  have hhead := hending.head
  have hexponent := exponent?_of_exponentPart hending
  cases hfraction with
  | none =>
    have hspan : spanDigits (whole ++ ending) = (whole, ending) :=
      spanDigits_append hwhole.2 fun c hmem => (hhead c hmem).1
    rw [List.append_nil, unsigned?, hspan]
    cases hending with
    | none => simp [hwhole.1, hexponent]
    | some hmark _ _ => rcases hmark with rfl | rfl <;> simp [hwhole.1, hexponent]
  | some hdigits =>
    have hspan : spanDigits (whole ++ '.' :: (digits ++ ending)) =
        (whole, '.' :: (digits ++ ending)) := spanDigits_append hwhole.2 (by simp)
    have hspan' : spanDigits (digits ++ ending) = (digits, ending) :=
      spanDigits_append hdigits.2 fun c hmem => (hhead c hmem).1
    rw [List.append_assoc, List.cons_append, unsigned?, hspan]
    simp [hspan', hwhole.1, hexponent]

/-- Digits are characters of numerals. -/
theorem Digits.numeralChar {s : List Char} (h : Digits s) : ∀ c ∈ s, NumeralChar c :=
  fun c hmem => .inl (h.2 c hmem)

/-- All characters of a numeral are characters of numerals. -/
theorem Numeral.numeralChar {s : List Char} {value : Binary64} (h : Numeral s value) :
    ∀ c ∈ s, NumeralChar c := by
  obtain ⟨negative, hwhole, hfraction, hending⟩ := h
  simp only [List.forall_mem_append]
  refine ⟨⟨⟨?_, hwhole.digits_of.numeralChar⟩, ?_⟩, ?_⟩
  · cases negative <;> simp [NumeralChar]
  · cases hfraction with
    | none => simp
    | some h => exact List.forall_mem_cons.mpr ⟨.inr (by simp), h.numeralChar⟩
  · cases hending with
    | none => simp
    | some hmark hsign h =>
      refine List.forall_mem_cons.mpr
        ⟨.inr (by simp [hmark]), List.forall_mem_append.mpr ⟨?_, h.numeralChar⟩⟩
      simp only [exponentSigns, List.mem_cons, List.not_mem_nil, or_false, Prod.mk.injEq] at hsign
      rcases hsign with ⟨rfl, -⟩ | ⟨rfl, -⟩ | ⟨rfl, -⟩ <;> simp [NumeralChar]

/-- What starts with a digit is no word for infinity or a nan. -/
theorem signed?_of_digits {s rest : List Char} (negative : Bool) (h : Digits s) :
    signed? ((if negative then ['-'] else []) ++ (s ++ rest)) = unsigned? negative (s ++ rest) := by
  obtain ⟨hne, hdigits⟩ := h
  obtain ⟨c, s, rfl⟩ := List.exists_cons_of_ne_nil hne
  have hdigit := hdigits c List.mem_cons_self
  have hsign : spanSign ((if negative then ['-'] else []) ++ (c :: s ++ rest)) =
      (negative, c :: s ++ rest) := by
    cases negative with
    | false => exact spanSign_of_isDigit (by simpa using hdigit)
    | true => rfl
  obtain ⟨value, hvalue, rfl⟩ := exists_asciiDigit hdigit
  obtain ⟨-, -, -, hlower, hnot⟩ := asciiDigit_spec hvalue
  have hword : ∀ (letter : Char) (word : List Char), letter ∈ ['i', 'n'] →
      String.ofList ((asciiDigit value :: s ++ rest).map Char.toLower) ≠
        String.ofList (letter :: word) := by
    intro letter word hletter heq
    rw [String.ofList_inj, List.cons_append, List.map_cons, hlower] at heq
    obtain ⟨rfl, -⟩ := List.cons.inj heq
    exact hnot (by simp only [List.mem_cons] at hletter ⊢; tauto)
  have hinf := hword 'i' ['n', 'f'] (by simp)
  have hinfinity := hword 'i' ['n', 'f', 'i', 'n', 'i', 't', 'y'] (by simp)
  have hnan := hword 'n' ['a', 'n'] (by simp)
  simp only [signed?, hsign]
  rw [if_neg (not_or.mpr ⟨hinf, hinfinity⟩), if_neg hnan]

/-- A numeral is read as the number that it stands for. -/
theorem Numeral.read?_eq {s : List Char} {value : Binary64} (h : Numeral s value) :
    read? (String.ofList s) = some value := by
  rw [read?_of_numeralChars h.numeralChar]
  obtain ⟨negative, hwhole, hfraction, hending⟩ := h
  have hunsigned := unsigned?_of_parts negative hwhole.digits_of hfraction hending
  rw [List.append_assoc] at hunsigned
  rw [List.append_assoc, List.append_assoc, signed?_of_digits negative hwhole.digits_of, hunsigned]

/-! ## The text of a number -/

/-- Digits are read from the value of those before them. -/
theorem digitsValue_append (high : Nat) (s t : List Char) :
    digitsValue high (s ++ t) = digitsValue (digitsValue high s) t :=
  List.foldl_append

/-- The digits of a number are read as that number. -/
theorem digitsValue_toDigits (n : Nat) : digitsValue 0 (Nat.toDigits 10 n) = n :=
  Nat.ofDigitChars_toDigits (by decide) (by decide)

/-- The digits of a number are digits, and at least one. -/
theorem digits_toDigits (n : Nat) : Digits (Nat.toDigits 10 n) :=
  ⟨Nat.toDigits_ne_nil, fun _ => Nat.isDigit_of_mem_toDigits (by decide) (by decide)⟩

/-- A positive number is written without leading zeros. -/
theorem head?_toDigits_ne {n : Nat} (h : 0 < n) : (Nat.toDigits 10 n).head? ≠ some '0' := by
  induction n using Nat.strongRecOn with
  | ind n ih =>
    rcases Nat.lt_or_ge n 10 with hlt | hge
    · have hall : ∀ n < 10, 0 < n → [Nat.digitChar n].head? ≠ some '0' := by decide
      rw [Nat.toDigits_of_lt_base hlt]
      exact hall n hlt h
    · rw [Nat.toDigits_of_base_le (by decide) hge, List.head?_append,
        List.head?_eq_some_head Nat.toDigits_ne_nil, Option.some_or,
        ← List.head?_eq_some_head Nat.toDigits_ne_nil]
      exact ih (n / 10) (by omega) (by omega)

/-- A natural number is written as the whole part of a numeral. -/
theorem wholePart_toDigits (n : Nat) : WholePart (Nat.toDigits 10 n) := by
  rcases Nat.eq_zero_or_pos n with rfl | hpos
  · exact .zero
  · exact .digits (digits_toDigits n) (head?_toDigits_ne hpos)

/-- Digits of ASCII have the same value among the digits of all scripts. -/
theorem decimalValue_eq_digitsValue {digits : List Char} (h : ∀ c ∈ digits, c.isDigit = true)
    (high : Nat) : Text.decimalValue high digits = digitsValue high digits := by
  induction digits generalizing high with
  | nil => rfl
  | cons c digits ih =>
    rw [List.forall_mem_cons] at h
    obtain ⟨value, hvalue, rfl⟩ := exists_asciiDigit h.1
    have hstep : Text.decimalValue high (asciiDigit value :: digits) =
        Text.decimalValue (10 * high + value) digits := by
      simp [Text.decimalValue, digitValue?_asciiDigit hvalue]
    have hstep' : digitsValue high (asciiDigit value :: digits) =
        digitsValue (10 * high + ((asciiDigit value).toNat - '0'.toNat)) digits := rfl
    rw [hstep, hstep', (asciiDigit_spec hvalue).2.1, ih h.2]

/-- Zeros behind a number multiply it by powers of ten. -/
theorem digitsValue_replicate (high count : Nat) :
    digitsValue high (List.replicate count '0') = high * 10 ^ count := by
  induction count generalizing high with
  | zero => simp [digitsValue]
  | succ count ih =>
    rw [List.replicate_succ, Nat.pow_succ', ← Nat.mul_assoc, Nat.mul_comm high, ← ih]
    rfl

/-- An exponent is written with a sign and at least two digits. -/
theorem exponentPart_exponentText (exponent : Int) :
    ExponentPart ('e' :: (exponentText exponent).toList) exponent := by
  let digits := Nat.toDigits 10 exponent.natAbs
  let padded := if (toString exponent.natAbs).length < 2 then '0' :: digits else digits
  have hdigits := digits_toDigits exponent.natAbs
  have hvalue := digitsValue_toDigits exponent.natAbs
  have hpadded : Digits padded ∧ digitsValue 0 padded = exponent.natAbs := by
    unfold padded
    split
    · exact ⟨⟨by simp, List.forall_mem_cons.mpr ⟨rfl, hdigits.2⟩⟩, hvalue⟩
    · exact ⟨hdigits, hvalue⟩
  let sign := if exponent < 0 then ['-'] else ['+']
  have htext : (exponentText exponent).toList = sign ++ padded := by
    unfold exponentText sign padded digits
    by_cases hnegative : exponent < 0 <;>
      by_cases hlength : (toString exponent.natAbs).length < 2 <;>
      · simp only [hnegative, hlength, if_true, if_false]
        simp
  have hsign : (sign, decide (exponent < 0)) ∈ exponentSigns := by
    unfold sign
    split <;> simp_all [exponentSigns]
  have hexponent : (if decide (exponent < 0) then -(digitsValue 0 padded : Int)
      else digitsValue 0 padded) = exponent := by
    rw [hpadded.2]
    by_cases hnegative : exponent < 0
    · rw [decide_eq_true hnegative, if_pos rfl]
      omega
    · rw [decide_eq_false hnegative, if_neg (by decide)]
      omega
  have hmark : 'e' = 'e' ∨ 'e' = 'E' := .inl rfl
  have hpart := ExponentPart.some hmark hsign hpadded.1
  rwa [hexponent, ← htext] at hpart

/-- The text is made of the parts of a numeral for the decimal `coefficient · 10 ^ exponent`. -/
def WritesDecimal (text : List Char) (coefficient : Nat) (exponent : Int) : Prop :=
  ∃ whole fraction digits ending power, WholePart whole ∧ FractionPart fraction digits ∧
    ExponentPart ending power ∧ text = whole ++ fraction ++ ending ∧
    digitsValue 0 (whole ++ digits) = coefficient ∧ power - digits.length = exponent

/-- With a sign, such a text is a numeral for the number nearest to the decimal. -/
theorem WritesDecimal.numeral {text : List Char} {coefficient : Nat} {exponent : Int}
    (h : WritesDecimal text coefficient exponent) (negative : Bool) :
    Numeral ((if negative then ['-'] else []) ++ text)
      (ofDecimal negative coefficient exponent) := by
  obtain ⟨whole, fraction, digits, ending, power, hwhole, hfraction, hending, rfl, rfl, rfl⟩ := h
  have hparts := Numeral.parts negative hwhole hfraction hending
  rwa [← digitsValue_append, List.append_assoc, List.append_assoc, ← List.append_assoc whole]
    at hparts

/-- Zeros in front of digits leave them digits. -/
theorem Digits.replicate_append {digits : List Char} (h : Digits digits) (zeros : Nat) :
    Digits (List.replicate zeros '0' ++ digits) :=
  ⟨by simp [h.1], List.forall_mem_append.mpr
    ⟨fun c hmem => List.eq_of_mem_replicate hmem ▸ rfl, h.2⟩⟩

/-- Digits behind a point and some zeros. -/
theorem writesDecimal_small {digits : List Char} (h : Digits digits) (zeros : Nat) :
    WritesDecimal ('0' :: '.' :: List.replicate zeros '0' ++ digits) (digitsValue 0 digits)
      (-(zeros + digits.length)) := by
  refine ⟨['0'], _, List.replicate zeros '0' ++ digits, [], 0, .zero,
    .some (h.replicate_append zeros), .none, by simp, ?_, by simp⟩
  have hzero : digitsValue 0 ['0'] = 0 := rfl
  rw [digitsValue_append, digitsValue_append, digitsValue_replicate, hzero, Nat.zero_mul]

section Layout

variable {digits : List Char} (h : Digits digits) (hhead : digits.head? ≠ some '0')
include h hhead

/-- Digits and zeros before a point, with one more zero behind it. -/
theorem writesDecimal_integer (zeros : Nat) :
    WritesDecimal (digits ++ List.replicate zeros '0' ++ ['.', '0'])
      (digitsValue 0 digits * 10 ^ (zeros + 1)) (-1) := by
  have hwhole : WholePart (digits ++ List.replicate zeros '0') := by
    refine .digits ⟨by simp [h.1], List.forall_mem_append.mpr
      ⟨h.2, fun c hmem => List.eq_of_mem_replicate hmem ▸ rfl⟩⟩ ?_
    rwa [List.head?_append, List.head?_eq_some_head h.1, Option.some_or,
      ← List.head?_eq_some_head h.1]
  refine ⟨_, ['.', '0'], ['0'], [], 0, hwhole, .some ⟨by simp, by simp⟩, .none, by simp, ?_, rfl⟩
  rw [List.append_assoc, ← List.replicate_succ', digitsValue_append, digitsValue_replicate]

/-- The first digits are a whole part. -/
theorem wholePart_take {place : Nat} (hpos : 0 < place) : WholePart (digits.take place) := by
  refine .digits ⟨by simp [h.1, Nat.ne_of_gt hpos],
    fun c hmem => h.2 c (List.mem_of_mem_take hmem)⟩ ?_
  rwa [List.head?_take, if_neg (Nat.ne_of_gt hpos)]

/-- Digits with a point among them. -/
theorem writesDecimal_point {place : Nat} (hpos : 0 < place) (hlt : place < digits.length) :
    WritesDecimal (digits.take place ++ '.' :: digits.drop place) (digitsValue 0 digits)
      (place - digits.length) := by
  have hdrop : Digits (digits.drop place) :=
    ⟨by simpa using hlt, fun c hmem => h.2 c (List.mem_of_mem_drop hmem)⟩
  refine ⟨_, _, _, [], 0, wholePart_take h hhead hpos, .some hdrop, .none, by simp, ?_, ?_⟩
  · rw [List.take_append_drop]
  · rw [List.length_drop]
    omega

/-- A digit, the others behind a point, and an exponent. -/
theorem writesDecimal_exponent (power : Int) :
    WritesDecimal (digits.take 1 ++
      (if (digits.drop 1).isEmpty then [] else '.' :: digits.drop 1) ++
      'e' :: (exponentText power).toList) (digitsValue 0 digits) (power - (digits.length - 1)) := by
  have hfraction : FractionPart (if (digits.drop 1).isEmpty then [] else '.' :: digits.drop 1)
      (digits.drop 1) := by
    have hall : ∀ c ∈ digits.drop 1, c.isDigit = true :=
      fun c hmem => h.2 c (List.mem_of_mem_drop hmem)
    generalize digits.drop 1 = others at hall
    cases others with
    | nil => exact .none
    | cons c others => exact .some ⟨by simp, hall⟩
  refine ⟨_, _, _, _, power, wholePart_take h hhead Nat.one_pos, hfraction,
    exponentPart_exponentText power, rfl, ?_, ?_⟩
  · rw [List.take_append_drop]
  · have hlength := List.length_pos_iff.mpr h.1
    rw [List.length_drop]
    omega

end Layout

/-- A decimal is laid out as the parts of a numeral for its value. -/
theorem writesDecimal_layout {decimal : Decimal} (hpos : 0 < decimal.coefficient) :
    ∃ zeros : Nat, WritesDecimal decimal.layout.toList (decimal.coefficient * 10 ^ zeros)
      (decimal.exponent - zeros) := by
  obtain ⟨coefficient, exponent⟩ := decimal
  have h := digits_toDigits coefficient
  have hvalue := digitsValue_toDigits coefficient
  have hhead := head?_toDigits_ne hpos
  unfold Decimal.layout
  simp only
  generalize Nat.toDigits 10 coefficient = digits at *
  subst hvalue
  have hlength := List.length_pos_iff.mpr h.1
  split
  next hrange =>
    split
    next hsmall =>
      have hwrites := writesDecimal_small h (-(digits.length + exponent)).toNat
      have hexponent : -(((-(digits.length + exponent)).toNat : Int) + digits.length) =
          exponent - (0 : Nat) := by omega
      rw [hexponent] at hwrites
      exact ⟨0, by simpa using hwrites⟩
    next hlarge =>
      split
      next hinteger =>
        have hwrites := writesDecimal_integer h hhead exponent.toNat
        have hexponent : (-1 : Int) = exponent - (exponent.toNat + 1 : Nat) := by omega
        rw [hexponent] at hwrites
        exact ⟨exponent.toNat + 1, by simpa using hwrites⟩
      next hfraction =>
        have hwrites := writesDecimal_point h hhead
          (show 0 < (digits.length + exponent).toNat by omega) (by omega)
        have hexponent : ((digits.length + exponent).toNat : Int) - digits.length =
            exponent - (0 : Nat) := by omega
        rw [hexponent] at hwrites
        exact ⟨0, by simpa using hwrites⟩
  next hrange =>
    have hwrites := writesDecimal_exponent h hhead (digits.length + exponent - 1)
    have hexponent : (digits.length + exponent - 1 : Int) - (digits.length - 1) =
        exponent - (0 : Nat) := by omega
    rw [hexponent] at hwrites
    exact ⟨0, by simpa using hwrites⟩

end BoSyntax.Json

namespace BoSyntax.Binary64

open Json

/-- A negative number has a minus sign in front. -/
theorem toList_signText (negative : Bool) :
    (signText negative).toList = if negative then ['-'] else [] := by
  cases negative <;> rfl

/-- The text of a finite number is a numeral that stands for it. -/
theorem numeral_text (negative : Bool) (magnitude : Fin magnitudes) :
    Numeral (Binary64.finite negative magnitude).text.toList (.finite negative magnitude) := by
  rw [text, String.toList_append, toList_signText]
  by_cases hzero : magnitude.val = 0
  · obtain rfl : magnitude = ⟨0, magnitudes_pos⟩ := Fin.ext hzero
    have hdigits : Digits ['0'] := ⟨by simp, by simp⟩
    exact (writesDecimal_small hdigits 0).numeral negative
  · rw [if_neg hzero]
    have hpos := Nat.pos_of_ne_zero hzero
    have hdecodes := decodes_shortest hpos magnitude.isLt
    obtain ⟨zeros, hwrites⟩ := writesDecimal_layout (hdecodes.coefficient_pos hpos)
    have hnumeral := hwrites.numeral negative
    rwa [(hdecodes.mul_ten_pow zeros).ofDecimal_eq hpos] at hnumeral

/-- The text of a number is read as that number. -/
theorem read?_text (number : Binary64) : read? number.text = some number := by
  cases number with
  | nan => decide +kernel
  | infinite negative => cases negative <;> decide +kernel
  | finite negative magnitude =>
    have hread := (numeral_text negative magnitude).read?_eq
    rwa [String.ofList_toList] at hread

end BoSyntax.Binary64

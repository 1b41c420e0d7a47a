import BoSyntax.Proofs.Binary64.Nearest
import BoSyntax.Proofs.Node.Layout
import BoSyntax.Proofs.Program.Json

/-!
# Numbers in programs

A row of digits of any scripts is a literal for the number nearest to its value, which may be
infinite. An outline shows this number in full, as an integer in the digits of ASCII, and reading
these gives it again.
-/

namespace BoSyntax

open Text Binary64

/-- A token for a number is a literal with a value, wherever an expression may start with it. -/
def Token.IsLiteral (lexeme : String) (value : Binary64) : Prop :=
  ∀ (inner : Rule Node) (cursor : TokenCursor) (start : Position),
    cursor.current = ⟨.number, lexeme, start⟩ →
      Rule.primary inner cursor = .ok (.number start value) cursor.next

/-- A lexeme that is read as a number is a literal with that value. -/
theorem Token.isLiteral_of_read? {lexeme : String} {value : Binary64}
    (h : read? lexeme = some value) : IsLiteral lexeme value := by
  intro inner cursor start hcurrent
  rw [Rule.eq_ok_iff_ensures]
  simp only [Rule.primary, Rule.ensures_bind, Rule.ensures_current, hcurrent, h,
    Rule.ensures_discard, Rule.ensures_advance, Rule.ensures_pure, and_self]

/-- A row of digits is a literal with the number nearest to its value. -/
theorem Token.isLiteral_of_digits {digits : List Char} (hne : digits ≠ [])
    (hdigits : ∀ c ∈ digits, isDigit c = true) :
    IsLiteral (String.ofList digits) (.ofRatio false (decimalValue 0 digits) 1) :=
  isLiteral_of_read? (read?_ofList_digits hne hdigits)

/-- The outline of a number is its line. -/
theorem Node.outline_number (start : Position) (value : Binary64) :
    (Node.number start value).outline = "NumericLiteral: " ++ value.plainText := by
  simp [outline, Outline.render, Outline.visit, Outline.emit, Outline.text, Outline.margin]

namespace Program

open Json

/-- The digits that a natural number is written in are a program: the number nearest to it. -/
theorem ofStringWithin_toString (n limit : Nat) (name : Option String) (hlimit : 1 < limit) :
    ofStringWithin limit (toString n) name =
      .ok (.program ⟨1, 1⟩ [.number ⟨1, 1⟩ (.ofRatio false n 1)]) := by
  have hdigits := digits_toDigits n
  have hisDigit : ∀ c ∈ Nat.toDigits 10 n, isDigit c = true := fun c hmem => by
    obtain ⟨value, hvalue, rfl⟩ := exists_asciiDigit (hdigits.2 c hmem)
    exact isDigit_asciiDigit hvalue
  have hvalue : decimalValue 0 (Nat.toDigits 10 n) = n := by
    rw [decimalValue_eq_digitsValue hdigits.2, digitsValue_toDigits]
  have hprogram := ofStringWithin_of_digits hdigits.1 hisDigit limit name hlimit
  rwa [hvalue, ← toList_toString, String.ofList_toList] at hprogram

/-- What a finite number is shown as. -/
theorem plainText_of_units {magnitude : Fin magnitudes} {n : Nat}
    (h : units magnitude = n * unitsOfOne) :
    WholePart (finite false magnitude).plainText.toList ∧
      digitsValue 0 (finite false magnitude).plainText.toList = n ∧
      ∀ limit name, 1 < limit → ofStringWithin limit (finite false magnitude).plainText name =
        .ok (.program ⟨1, 1⟩ [.number ⟨1, 1⟩ (.finite false magnitude)]) := by
  have hinteger := integer?_eq_some_iff.mpr h
  rw [plainText_of_integer? hinteger, toList_toString, ← ofRatio_of_integer? hinteger]
  exact ⟨wholePart_toDigits n, digitsValue_toDigits n, ofStringWithin_toString n⟩

/-- A row of digits, of any scripts and of any length, is a literal for the number nearest to its
value, infinite from 2¹⁰²⁴ - 2⁹⁷⁰ on, and literals are in the order of their values. An outline
shows a finite number as the integer that it is, in digits of ASCII without leading zeros, and
these are a program with the same number. To be read, a number needs two levels. -/
theorem exists_literal_of_digits {digits : List Char} (hne : digits ≠ [])
    (hdigits : ∀ c ∈ digits, isDigit c = true) :
    ∃ value : Binary64, Token.IsLiteral (String.ofList digits) value ∧
      (∀ limit name, 1 < limit → ofStringWithin limit (String.ofList digits) name =
        .ok (.program ⟨1, 1⟩ [.number ⟨1, 1⟩ value])) ∧
      (value = .infinite false ↔ 2 ^ 1024 - 2 ^ 970 ≤ decimalValue 0 digits) ∧
      (∀ start, (Node.number start value).outline = "NumericLiteral: " ++ value.plainText) ∧
      (value = .infinite false ∧ value.plainText = "inf" ∨
        ∃ (magnitude : Fin magnitudes) (n : Nat), value = .finite false magnitude ∧
          IsNearest (decimalValue 0 digits) magnitude ∧ units magnitude = n * unitsOfOne ∧
          (decimalValue 0 digits ≤ 2 ^ 53 → n = decimalValue 0 digits) ∧
          WholePart value.plainText.toList ∧ digitsValue 0 value.plainText.toList = n ∧
          ∀ limit name, 1 < limit → ofStringWithin limit value.plainText name =
            .ok (.program ⟨1, 1⟩ [.number ⟨1, 1⟩ value])) ∧
      ∀ digits' : List Char, digits' ≠ [] → (∀ c ∈ digits', isDigit c = true) →
        decimalValue 0 digits ≤ decimalValue 0 digits' →
        ∃ value', Token.IsLiteral (String.ofList digits') value' ∧ value.atMost value' = true := by
  refine ⟨_, Token.isLiteral_of_digits hne hdigits, ofStringWithin_of_digits hne hdigits, ?_,
    fun start => Node.outline_number start _, ?_, fun digits' hne' hdigits' hle =>
    ⟨_, Token.isLiteral_of_digits hne' hdigits', atMost_ofRatio hle⟩⟩
  all_goals generalize decimalValue 0 digits = n
  · rw [← magnitudes_le_nearest_iff]
    rcases Nat.lt_or_ge (nearest n 1) magnitudes with hlt | hge
    · simp [ofRatio_of_lt hlt, Nat.not_le.mpr hlt]
    · simp [ofRatio_of_ge hge, hge]
  · rcases Nat.lt_or_ge (nearest n 1) magnitudes with hlt | hge
    · obtain ⟨k, hunits, hexact⟩ := exists_units_nearest n
      rw [ofRatio_of_lt hlt]
      exact .inr ⟨⟨_, hlt⟩, k, rfl, isNearest_nearest n, hunits, hexact, plainText_of_units hunits⟩
    · rw [ofRatio_of_ge hge]
      exact .inl ⟨rfl, rfl⟩

/-- In digits of three scripts and with a zero before them: of the two numbers as near as 2⁵³ + 1,
the one with an even significand is below it. -/
theorem literal_of_mixed_digits :
    "0٩00719925474099３".toList ≠ [] ∧ (∀ c ∈ "0٩00719925474099３".toList, isDigit c = true) ∧
      ∃ (value : Binary64) (magnitude : Fin magnitudes),
        Token.IsLiteral "0٩00719925474099３" value ∧ value = .finite false magnitude ∧
        IsNearest (2 ^ 53 + 1) magnitude ∧ units magnitude = 2 ^ 53 * unitsOfOne ∧
        value.plainText = "9007199254740992" ∧
        ∃ value', Token.IsLiteral (String.ofList (List.replicate 310 '9')) value' ∧
          value.atMost value' = true := by
  have hne : "0٩00719925474099３".toList ≠ [] := by decide +kernel
  have hdigits : ∀ c ∈ "0٩00719925474099３".toList, isDigit c = true := by
    rw [← List.all_eq_true]
    decide +kernel
  have hvalue : decimalValue 0 "0٩00719925474099３".toList = 2 ^ 53 + 1 := by decide +kernel
  obtain ⟨value, hliteral, hprogram, hinfinite, -, hshown, hmono⟩ :=
    exists_literal_of_digits hne hdigits
  have heq : value = .ofRatio false (2 ^ 53 + 1) 1 := by
    have hsame := (hprogram 2 none (by decide)).symm.trans
      (ofStringWithin_of_digits hne hdigits 2 none (by decide))
    rw [hvalue] at hsame
    simpa using hsame
  have htext : value.plainText = "9007199254740992" := by
    rw [heq]
    decide +kernel
  rw [hvalue] at hinfinite hshown hmono
  rcases hshown with ⟨rfl, -⟩ | ⟨magnitude, n, hfinite, hnearest, hunits, -, -, hn, -⟩
  · exact absurd (hinfinite.mp rfl) (by decide +kernel)
  · have hn' : n = 2 ^ 53 := by
      rw [← hn, htext]
      decide +kernel
    rw [hn'] at hunits
    refine ⟨hne, hdigits, value, magnitude, ?_, hfinite, hnearest, hunits, htext, ?_⟩
    · rwa [String.ofList_toList] at hliteral
    · refine hmono (List.replicate 310 '9') (by decide) (fun c hmem => ?_) (by decide +kernel)
      rw [List.eq_of_mem_replicate hmem]
      decide +kernel

end Program

end BoSyntax

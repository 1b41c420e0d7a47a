import BoSyntax.Token.Scan

/-!
# The alphabet of a text

The characters that a text may hold fall into four classes: spacing, punctuation, digits and
letters. No character is in two of them, so the first character of a lexeme tells its kind.
-/

namespace BoSyntax

open Text

/-- The character may stand in a text. -/
def Legal (c : Char) : Prop :=
  c ∈ spacing ∨ c ∈ punctuation.map Prod.fst ∨ isDigit c = true ∨ isLetter c = true

/-- It is decided by the tables whether a character is legal. -/
instance : DecidablePred Legal := fun c =>
  inferInstanceAs (Decidable (c ∈ spacing ∨ c ∈ punctuation.map Prod.fst ∨ isDigit c = true ∨
    isLetter c = true))

/-- A table without a repeated key gives exactly its entries. -/
theorem lookup_eq_some_iff {α β : Type} [BEq α] [LawfulBEq α] {table : List (α × β)}
    (h : (table.map Prod.fst).Nodup) {key : α} {value : β} :
    table.lookup key = some value ↔ (key, value) ∈ table := by
  induction table with
  | nil => simp
  | cons entry table ih =>
    obtain ⟨first, other⟩ := entry
    rw [List.map_cons, List.nodup_cons] at h
    by_cases hkey : key = first
    · subst hkey
      have hnot : (key, value) ∉ table := fun hmem => h.1 (List.mem_map.mpr ⟨_, hmem, rfl⟩)
      simp [hnot, eq_comm]
    · have hne : (key == first) = false := by simpa using hkey
      simp [List.lookup_cons, hne, hkey, ih h.2]

/-- A sign is found in the table exactly if it is there with that kind. -/
theorem lookup_punctuation_eq_some_iff {c : Char} {type : TokenType} :
    punctuation.lookup c = some type ↔ (c, type) ∈ punctuation :=
  lookup_eq_some_iff (by decide)

/-- A keyword is found in the table exactly if it is there with that kind. -/
theorem lookup_keywords_eq_some_iff {word : String} {type : TokenType} :
    keywords.lookup word = some type ↔ (word, type) ∈ keywords :=
  lookup_eq_some_iff (by decide)

/-- The characters of punctuation are those with an entry in the table. -/
theorem mem_punctuation_iff {c : Char} :
    c ∈ punctuation.map Prod.fst ↔ ∃ type, (c, type) ∈ punctuation := by
  simp

/-- A character is not found exactly if it is no sign of the table. -/
theorem lookup_punctuation_eq_none_iff {c : Char} :
    punctuation.lookup c = none ↔ c ∉ punctuation.map Prod.fst := by
  rw [Option.eq_none_iff_forall_ne_some, mem_punctuation_iff, not_exists]
  simp [lookup_punctuation_eq_some_iff]

/-- The kinds of tokens that stand in no table. -/
def untabled : List TokenType :=
  [.endOfInput, .number, .identifier]

/-- The kind of a sign is one of the table. -/
theorem not_mem_untabled_of_mem_punctuation {c : Char} {type : TokenType}
    (h : (c, type) ∈ punctuation) : type ∉ untabled := by
  have hall : (punctuation.all fun entry => !untabled.contains entry.2) = true := rfl
  simpa using List.all_eq_true.mp hall _ h

/-- The kind of a keyword is one of the table. -/
theorem not_mem_untabled_of_mem_keywords {word : String} {type : TokenType}
    (h : (word, type) ∈ keywords) : type ∉ untabled := by
  have hall : (keywords.all fun entry => !untabled.contains entry.2) = true := rfl
  simpa using List.all_eq_true.mp hall _ h

/-- Every keyword has a letter. -/
theorem ne_empty_of_mem_keywords {word : String} {type : TokenType} (h : (word, type) ∈ keywords) :
    word ≠ "" := by
  have hall : (keywords.all fun entry => entry.1 != "") = true := rfl
  simpa using List.all_eq_true.mp hall _ h

/-- Spacing is no digit. -/
theorem isDigit_of_mem_spacing {c : Char} (h : c ∈ spacing) : isDigit c = false := by
  have hall : (spacing.all fun c => !isDigit c) = true := by decide +kernel
  simpa using List.all_eq_true.mp hall c h

/-- Spacing is no letter. -/
theorem isLetter_of_mem_spacing {c : Char} (h : c ∈ spacing) : isLetter c = false := by
  have hall : (spacing.all fun c => !isLetter c) = true := by decide +kernel
  simpa using List.all_eq_true.mp hall c h

/-- Spacing is no sign. -/
theorem not_mem_punctuation_of_mem_spacing {c : Char} (h : c ∈ spacing) :
    c ∉ punctuation.map Prod.fst := by
  have hall : (spacing.all fun c => !(punctuation.map Prod.fst).contains c) = true := rfl
  simpa using List.all_eq_true.mp hall c h

/-- A sign is no digit. -/
theorem isDigit_of_mem_punctuation {c : Char} (h : c ∈ punctuation.map Prod.fst) :
    isDigit c = false := by
  have hall : ((punctuation.map Prod.fst).all fun c => !isDigit c) = true := by decide +kernel
  simpa using List.all_eq_true.mp hall c h

/-- A sign is no letter. -/
theorem isLetter_of_mem_punctuation {c : Char} (h : c ∈ punctuation.map Prod.fst) :
    isLetter c = false := by
  have hall : ((punctuation.map Prod.fst).all fun c => !isLetter c) = true := by decide +kernel
  simpa using List.all_eq_true.mp hall c h

/-- Keywords are runs of letters. -/
theorem isLetter_of_mem_keywords {word : String} {type : TokenType} (h : (word, type) ∈ keywords) :
    ∀ c ∈ word.toList, isLetter c = true := by
  have hall : (keywords.all fun entry => entry.1.toList.all isLetter) = true := by decide +kernel
  exact List.all_eq_true.mp (List.all_eq_true.mp hall _ h)

/-- No block of digits meets a range of letters. -/
theorem isDigit_of_isLetter {c : Char} (h : isLetter c = true) : isDigit c = false := by
  have hapart : (letters.all fun range => zeros.all fun first =>
      Nat.blt range.2 first || Nat.ble (first + 10) range.1) = true := by
    decide +kernel
  simp only [List.all_eq_true, Bool.or_eq_true, Nat.blt_eq, Nat.ble_eq] at hapart
  simp only [isLetter, Ranges.has, List.any_eq_true, Bool.and_eq_true, decide_eq_true_eq] at h
  obtain ⟨range, hrange, hlow, hhigh⟩ := h
  rw [isDigit, digitValue?, Option.isSome_map, Option.isSome_eq_false_iff,
    Option.isNone_iff_eq_none, List.find?_eq_none]
  intro first hfirst
  simp only [Bool.and_eq_true, decide_eq_true_eq]
  rcases hapart range hrange first hfirst with h | h <;> omega

end BoSyntax

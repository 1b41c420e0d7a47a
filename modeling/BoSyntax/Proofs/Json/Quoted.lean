import Mathlib.Data.List.Basic
import BoSyntax.Json

/-!
# Strings in JSON documents

The strings of the JSON grammar of RFC 8259 and the texts that they stand for. A character stands
for itself or is escaped: by a letter, by its code unit in hexadecimal or, beyond the first 65536
characters, by the two code units of its surrogate pair. Half a pair is no character, so strings
with one stand for no text. A string is told from what stands behind it, and the string for a text
stands for that text.
-/

namespace BoSyntax.Json

open Text

/-- Which texts stand for which values. -/
abbrev Form (α : Type) := List Char → α → Prop

/-- The value of a hexadecimal digit. -/
def hexValue? (c : Char) : Option Nat :=
  if '0' ≤ c ∧ c ≤ '9' then some (c.toNat - '0'.toNat)
  else if 'a' ≤ c ∧ c ≤ 'f' then some (c.toNat - 'a'.toNat + 10)
  else if 'A' ≤ c ∧ c ≤ 'F' then some (c.toNat - 'A'.toNat + 10)
  else none

/-- A code unit in four hexadecimal digits. -/
inductive CodeUnit : Form Nat
  | digits {a b c d i j k l} : hexValue? a = some i → hexValue? b = some j →
    hexValue? c = some k → hexValue? d = some l →
    CodeUnit ['\\', 'u', a, b, c, d] (((i * 16 + j) * 16 + k) * 16 + l)

/-- The letters that escape a character. -/
def shortEscapes : List (Char × Char) :=
  [('"', '"'), ('\\', '\\'), ('/', '/'), ('b', '\x08'), ('f', '\x0c'), ('n', '\n'), ('r', '\r'),
    ('t', '\t')]

/-- One character in a string. -/
inductive Symbol : Form Char
  | plain {c} : 0x20 ≤ c.toNat → c ≠ '"' → c ≠ '\\' → Symbol [c] c
  | short {mark c} : (mark, c) ∈ shortEscapes → Symbol ['\\', mark] c
  | unit {s c} : CodeUnit s c.toNat → Symbol s c
  | pair {s t high low c} : CodeUnit s (0xD800 + high) → high < 0x400 →
    CodeUnit t (0xDC00 + low) → low < 0x400 → c.toNat = 0x10000 + high * 0x400 + low →
    Symbol (s ++ t) c

/-- The characters in a string. -/
inductive Symbols : Form (List Char)
  | nil : Symbols [] []
  | cons {s t c cs} : Symbol s c → Symbols t cs → Symbols (s ++ t) (c :: cs)

/-- A string between quotes. -/
inductive Quoted : Form String
  | quotes {s cs} : Symbols s cs → Quoted ('"' :: (s ++ ['"'])) (String.ofList cs)

/-! ## Strings are told from what follows -/

variable {s s' rest rest' : List Char}

/-- Code units of one spelling have one value. -/
theorem CodeUnit.unique {unit unit' : Nat} (h : CodeUnit s unit) (h' : CodeUnit s' unit')
    (heq : s ++ rest = s' ++ rest') : s = s' ∧ unit = unit' := by
  obtain ⟨hi, hj, hk, hl⟩ := h
  obtain ⟨hi', hj', hk', hl'⟩ := h'
  simp only [List.cons_append, List.nil_append, List.cons.injEq, true_and] at heq
  obtain ⟨rfl, rfl, rfl, rfl, -⟩ := heq
  rw [hi, Option.some.injEq] at hi'
  rw [hj, Option.some.injEq] at hj'
  rw [hk, Option.some.injEq] at hk'
  rw [hl, Option.some.injEq] at hl'
  exact ⟨rfl, by rw [hi', hj', hk', hl']⟩

/-- No character is a surrogate. -/
theorem toNat_lt_or_ge (c : Char) : c.toNat < 0xD800 ∨ 0xDFFF < c.toNat := by
  rcases c.valid with h | h
  · exact .inl h
  · exact .inr h.1

/-- A code unit starts with a backslash and its mark. -/
theorem CodeUnit.exists_eq {unit : Nat} (h : CodeUnit s unit) : ∃ t, s = '\\' :: 'u' :: t := by
  obtain ⟨_, _, _, _⟩ := h
  exact ⟨_, rfl⟩

/-- A letter escapes one character. -/
theorem shortEscapes_unique {mark c c' : Char} (h : (mark, c) ∈ shortEscapes)
    (h' : (mark, c') ∈ shortEscapes) : c = c' := by
  have hall : ∀ entry ∈ shortEscapes, ∀ entry' ∈ shortEscapes, entry.1 = entry'.1 →
      entry.2 = entry'.2 := by
    decide
  exact hall _ h _ h' rfl

/-- A code unit does not start with another character than a backslash. -/
theorem CodeUnit.ne_plain {unit : Nat} {c : Char} (h : CodeUnit s unit) (hc : c ≠ '\\') :
    s ++ rest ≠ c :: rest' := by
  obtain ⟨t, rfl⟩ := h.exists_eq
  simp [hc.symm]

/-- The letter that marks code units escapes no character. -/
theorem CodeUnit.ne_short {unit : Nat} {mark c : Char} (h : CodeUnit s unit)
    (hmark : (mark, c) ∈ shortEscapes) : s ++ rest ≠ '\\' :: mark :: rest' := by
  have hall : ∀ entry ∈ shortEscapes, 'u' ≠ entry.1 := by decide
  obtain ⟨t, rfl⟩ := h.exists_eq
  simp [hall _ hmark]

/-- The code unit that starts a pair is no character. -/
theorem CodeUnit.ne_high {c : Char} {high : Nat} (h : CodeUnit s c.toNat)
    (h' : CodeUnit s' (0xD800 + high)) (hhigh : high < 0x400) : s ++ rest ≠ s' ++ rest' := by
  intro heq
  obtain ⟨-, hvalue⟩ := h.unique h' heq
  have hsurrogate := toNat_lt_or_ge c
  omega

/-- Symbols of one spelling stand for one character. -/
theorem Symbol.unique {c c' : Char} (h : Symbol s c) (h' : Symbol s' c')
    (heq : s ++ rest = s' ++ rest') : s = s' ∧ c = c' := by
  cases h with
  | plain _ _ hc =>
    cases h' with
    | plain =>
      obtain ⟨rfl, -⟩ : c = c' ∧ rest = rest' := by simpa using heq
      exact ⟨rfl, rfl⟩
    | short => simp [hc] at heq
    | unit hunit' => exact absurd heq.symm (hunit'.ne_plain hc)
    | pair hhigh' =>
      rw [List.append_assoc] at heq
      exact absurd heq.symm (hhigh'.ne_plain hc)
  | short hmark =>
    cases h' with
    | plain _ _ hc' => simp [hc'.symm] at heq
    | short hmark' =>
      obtain ⟨rfl, -⟩ : _ = _ ∧ rest = rest' := by simpa using heq
      exact ⟨rfl, shortEscapes_unique hmark hmark'⟩
    | unit hunit' => exact absurd heq.symm (hunit'.ne_short hmark)
    | pair hhigh' =>
      rw [List.append_assoc] at heq
      exact absurd heq.symm (hhigh'.ne_short hmark)
  | unit hunit =>
    cases h' with
    | plain _ _ hc' => exact absurd heq (hunit.ne_plain hc')
    | short hmark' => exact absurd heq (hunit.ne_short hmark')
    | unit hunit' =>
      obtain ⟨rfl, hvalue⟩ := hunit.unique hunit' heq
      exact ⟨rfl, Char.toNat_inj.mp hvalue⟩
    | pair hhigh' hlt' =>
      rw [List.append_assoc] at heq
      exact absurd heq (hunit.ne_high hhigh' hlt')
  | pair hhigh hlt hlow _ hc =>
    rw [List.append_assoc] at heq
    cases h' with
    | plain _ _ hc' => exact absurd heq (hhigh.ne_plain hc')
    | short hmark' => exact absurd heq (hhigh.ne_short hmark')
    | unit hunit' => exact absurd heq.symm (hunit'.ne_high hhigh hlt)
    | pair hhigh' _ hlow' _ hc' =>
      rw [List.append_assoc] at heq
      obtain ⟨rfl, hvalue⟩ := hhigh.unique hhigh' heq
      obtain ⟨rfl, hvalue'⟩ := hlow.unique hlow' (List.append_cancel_left heq)
      exact ⟨rfl, Char.toNat_inj.mp (by omega)⟩

/-- No symbol starts with the quote that ends a string. -/
theorem Symbol.ne_quote {c : Char} (h : Symbol s c) : s ++ rest ≠ '"' :: rest' := by
  have hmark : '"' ≠ '\\' := by decide
  cases h with
  | plain _ hc => simp [hc]
  | short => simp
  | unit hunit => exact hunit.ne_plain hmark
  | pair hhigh =>
    rw [List.append_assoc]
    exact hhigh.ne_plain hmark

/-- Characters of one spelling, up to a quote, stand for one text. -/
theorem Symbols.unique {cs cs' : List Char} (h : Symbols s cs) (h' : Symbols s' cs')
    (heq : s ++ '"' :: rest = s' ++ '"' :: rest') : s = s' ∧ cs = cs' := by
  induction h generalizing s' cs' with
  | nil =>
    cases h' with
    | nil => exact ⟨rfl, rfl⟩
    | cons hc' _ =>
      rw [List.append_assoc] at heq
      exact absurd heq.symm hc'.ne_quote
  | cons hc hcs ih =>
    rw [List.append_assoc] at heq
    cases h' with
    | nil => exact absurd heq hc.ne_quote
    | cons hc' hcs' =>
      rw [List.append_assoc] at heq
      obtain ⟨rfl, rfl⟩ := hc.unique hc' heq
      obtain ⟨rfl, rfl⟩ := ih hcs' (List.append_cancel_left heq)
      exact ⟨rfl, rfl⟩

/-- Strings of one spelling stand for one text. -/
theorem Quoted.unique {text text' : String} (h : Quoted s text) (h' : Quoted s' text')
    (heq : s ++ rest = s' ++ rest') : s = s' ∧ text = text' := by
  obtain ⟨h⟩ := h
  obtain ⟨h'⟩ := h'
  simp only [List.cons_append, List.append_assoc, List.nil_append, List.cons.injEq,
    true_and] at heq
  obtain ⟨rfl, rfl⟩ := h.unique h' heq
  exact ⟨rfl, rfl⟩

/-! ## The string of a text -/

/-- Hexadecimal numbers end with the remainder and are padded as the quotient is. -/
theorem toList_hexadecimal_succ {width : Nat} (hwidth : 0 < width) (n : Nat) :
    (hexadecimal (width + 1) n).toList =
      (hexadecimal width (n / 16)).toList ++ [Nat.digitChar (n % 16)] := by
  simp only [hexadecimal, String.toList_ofList]
  rcases Nat.lt_or_ge n 16 with hlt | hge
  · rw [Nat.toDigits_of_lt_base hlt, Nat.div_eq_of_lt hlt, Nat.mod_eq_of_lt hlt,
      Nat.toDigits_of_lt_base (by decide)]
    obtain ⟨width, rfl⟩ := Nat.exists_eq_succ_of_ne_zero (Nat.ne_of_gt hwidth)
    simp [List.replicate_succ', Nat.digitChar]
  · rw [Nat.toDigits_of_base_le (by decide) hge]
    simp

/-- A hexadecimal digit is read as what it is written for. -/
theorem hexValue?_digitChar {value : Nat} (h : value < 16) :
    hexValue? (Nat.digitChar value) = some value := by
  have hall : ∀ value < 16, hexValue? (Nat.digitChar value) = some value := by decide
  exact hall value h

/-- The escape sequence of a code unit stands for it. -/
theorem codeUnit_unitEscape {unit : Nat} (h : unit < 0x10000) :
    CodeUnit (unitEscape unit).toList unit := by
  have hone {n : Nat} (hn : n < 16) : (hexadecimal 1 n).toList = [Nat.digitChar n] := by
    simp [hexadecimal, Nat.toDigits_of_lt_base hn]
  have htext : (unitEscape unit).toList = ['\\', 'u', Nat.digitChar (unit / 16 / 16 / 16),
      Nat.digitChar (unit / 16 / 16 % 16), Nat.digitChar (unit / 16 % 16),
      Nat.digitChar (unit % 16)] := by
    rw [unitEscape, String.toList_append, toList_hexadecimal_succ (by decide),
      toList_hexadecimal_succ (by decide), toList_hexadecimal_succ (by decide), hone (by omega)]
    rfl
  have hunit := CodeUnit.digits (hexValue?_digitChar (show unit / 16 / 16 / 16 < 16 by omega))
    (hexValue?_digitChar (show unit / 16 / 16 % 16 < 16 by omega))
    (hexValue?_digitChar (show unit / 16 % 16 < 16 by omega))
    (hexValue?_digitChar (show unit % 16 < 16 by omega))
  have hvalue : ((unit / 16 / 16 / 16 * 16 + unit / 16 / 16 % 16) * 16 + unit / 16 % 16) * 16 +
      unit % 16 = unit := by
    omega
  rwa [hvalue, ← htext] at hunit

/-- A character as it is written in a string stands for itself. -/
theorem symbol_escaped (c : Char) : Symbol (escaped c).toList c := by
  have hshort {mark c : Char} {text : String} (htext : text.toList = ['\\', mark])
      (hmem : (mark, c) ∈ shortEscapes) : Symbol text.toList c := by
    rw [htext]
    exact .short hmem
  unfold escaped
  iterate 7
    split
    next h => exact h ▸ hshort rfl (by decide)
  next hquote hbackslash _ _ _ _ _ =>
    split
    next hrange =>
      rw [String.toList_singleton]
      exact .plain hrange.1 hquote hbackslash
    split
    next hlt => exact .unit (codeUnit_unitEscape hlt)
    next hge =>
      have hmax : c.toNat < 0x110000 := by
        rcases c.valid with h | h
        · exact Nat.lt_trans h (by decide)
        · exact h.2
      rw [String.toList_append]
      exact .pair (codeUnit_unitEscape (by omega)) (by omega) (codeUnit_unitEscape (by omega))
        (Nat.mod_lt _ (by decide)) (by omega)

/-- The string of a text stands for it. -/
theorem quoted_stringText (text : String) : Quoted (stringText text).toList text := by
  have hsymbols : ∀ cs : List Char, Symbols (String.join (cs.map escaped)).toList cs := by
    intro cs
    induction cs with
    | nil => exact .nil
    | cons c cs ih =>
      rw [List.map_cons, String.join_cons, String.toList_append]
      exact .cons (symbol_escaped c) ih
  have hquoted := Quoted.quotes (hsymbols text.toList)
  rw [String.ofList_toList] at hquoted
  rw [stringText, String.toList_append, String.toList_append]
  exact hquoted

end BoSyntax.Json

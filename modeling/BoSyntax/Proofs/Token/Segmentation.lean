import BoSyntax.Program
import BoSyntax.Proofs.Text.Reading
import BoSyntax.Proofs.Text.Separation
import BoSyntax.Proofs.Token.Alphabet

/-!
# The segmentation of a text

A text is made of lexemes with spacing before them and behind the last one. A lexeme takes as many
digits or letters as there are, so it depends on what follows it. Every text divides in this way up
to its end or up to an illegal character, and the tokens that are read are those of its lexemes.
-/

namespace BoSyntax

open Text

/-- All characters are spacing. -/
def Spaces (w : List Char) : Prop :=
  ∀ c ∈ w, c ∈ spacing

/-- The lexemes of the kinds of token, each with the text that follows it: a punctuation character,
a run of digits that no digit follows, or a run of letters that no letter follows. -/
inductive Lexeme : TokenType → List Char → List Char → Prop
  | punctuation {c type rest} : (c, type) ∈ punctuation → Lexeme type [c] rest
  | number {v rest} : v ≠ [] → (∀ c ∈ v, isDigit c = true) →
    (∀ c ∈ rest.head?, isDigit c = false) → Lexeme .number v rest
  | keyword {v type rest} : (String.ofList v, type) ∈ keywords → (∀ c ∈ v, isLetter c = true) →
    (∀ c ∈ rest.head?, isLetter c = false) → Lexeme type v rest
  | identifier {v rest} : v ≠ [] → (∀ type, (String.ofList v, type) ∉ keywords) →
    (∀ c ∈ v, isLetter c = true) → (∀ c ∈ rest.head?, isLetter c = false) →
    Lexeme .identifier v rest

/-- A text between what is before it and what is after it, divided into lexemes with spacing before
each of them, and the tokens of the lexemes. -/
inductive Segmented (after : List Char) : List Char → List Char → List Token → Prop
  | nil {before} : Segmented after before [] []
  | cons {before w v rest type tokens} : Spaces w → Lexeme type v (rest ++ after) →
    Segmented after (before ++ w ++ v) rest tokens →
    Segmented after before (w ++ v ++ rest)
      (⟨type, String.ofList v, placeAfter (before ++ w)⟩ :: tokens)

/-! ## Lexemes -/

namespace Lexeme

variable {type : TokenType} {v rest : List Char}

/-- A lexeme has a first character, which is no spacing. -/
theorem exists_cons (h : Lexeme type v rest) : ∃ c u, v = c :: u ∧ c ∉ spacing := by
  have hrun : ∀ {p : Char → Bool}, v ≠ [] → (∀ c ∈ v, p c = true) →
      (∀ c, c ∈ spacing → p c = false) → ∃ c u, v = c :: u ∧ c ∉ spacing := by
    intro p hne hall hspacing
    obtain ⟨c, u, rfl⟩ := List.exists_cons_of_ne_nil hne
    refine ⟨c, u, rfl, fun hmem => ?_⟩
    have hp := hall c (List.mem_cons_self ..)
    rw [hspacing c hmem] at hp
    cases hp
  cases h with
  | punctuation h =>
    exact ⟨_, _, rfl, fun hmem =>
      not_mem_punctuation_of_mem_spacing hmem (mem_punctuation_iff.mpr ⟨_, h⟩)⟩
  | number hne hall _ => exact hrun hne hall fun _ => isDigit_of_mem_spacing
  | keyword hword hall _ =>
    have hne : v ≠ [] := fun hnil => ne_empty_of_mem_keywords hword (by rw [hnil])
    exact hrun hne hall fun _ => isLetter_of_mem_spacing
  | identifier hne _ hall _ => exact hrun hne hall fun _ => isLetter_of_mem_spacing

/-- All characters of a lexeme are legal. -/
theorem legal (h : Lexeme type v rest) : ∀ c ∈ v, Legal c := by
  cases h with
  | punctuation h =>
    intro c hmem
    rw [List.mem_singleton] at hmem
    exact .inr (.inl (mem_punctuation_iff.mpr ⟨type, hmem ▸ h⟩))
  | number _ hall _ => exact fun c hmem => .inr (.inr (.inl (hall c hmem)))
  | keyword _ hall _ => exact fun c hmem => .inr (.inr (.inr (hall c hmem)))
  | identifier _ _ hall _ => exact fun c hmem => .inr (.inr (.inr (hall c hmem)))

/-- No spacing stands in a lexeme. -/
theorem notMem_spacing (h : Lexeme type v rest) : ∀ c ∈ v, c ∉ spacing := by
  intro c hc hspacing
  cases h with
  | punctuation h =>
    rw [List.mem_singleton] at hc
    exact not_mem_punctuation_of_mem_spacing hspacing (mem_punctuation_iff.mpr ⟨_, hc ▸ h⟩)
  | number _ hall _ =>
    exact Bool.false_ne_true ((isDigit_of_mem_spacing hspacing).symm.trans (hall c hc))
  | keyword _ hall _ | identifier _ _ hall _ =>
    exact Bool.false_ne_true ((isLetter_of_mem_spacing hspacing).symm.trans (hall c hc))

/-- A lexeme ends where spacing follows, as well as where it did. -/
theorem of_head {rest' : List Char} (h : Lexeme type v rest)
    (hrest : ∀ c ∈ rest'.head?, c ∈ spacing ∨ c ∈ rest.head?) : Lexeme type v rest' := by
  have hend : ∀ {p : Char → Bool}, (∀ c ∈ spacing, p c = false) →
      (∀ c ∈ rest.head?, p c = false) → ∀ c ∈ rest'.head?, p c = false :=
    fun hspacing hrun c hmem => (hrest c hmem).elim (hspacing c) (hrun c)
  cases h with
  | punctuation h => exact .punctuation h
  | number hne hall hrun =>
    exact .number hne hall (hend (fun _ => isDigit_of_mem_spacing) hrun)
  | keyword hword hall hrun =>
    exact .keyword hword hall (hend (fun _ => isLetter_of_mem_spacing) hrun)
  | identifier hne hword hall hrun =>
    exact .identifier hne hword hall (hend (fun _ => isLetter_of_mem_spacing) hrun)

/-- No lexeme is an end of input. -/
theorem type_ne_endOfInput (h : Lexeme type v rest) : type ≠ .endOfInput := by
  intro htype
  cases h with
  | punctuation h => exact not_mem_untabled_of_mem_punctuation h (by simp [htype, untabled])
  | keyword h _ _ => exact not_mem_untabled_of_mem_keywords h (by simp [htype, untabled])
  | number _ _ _ => cases htype
  | identifier _ _ _ _ => cases htype

/-- Only a row of digits is a number. -/
theorem digits_of_number (h : Lexeme .number v rest) : v ≠ [] ∧ ∀ c ∈ v, isDigit c = true := by
  cases h with
  | punctuation h => exact absurd (by simp [untabled]) (not_mem_untabled_of_mem_punctuation h)
  | keyword h _ _ => exact absurd (by simp [untabled]) (not_mem_untabled_of_mem_keywords h)
  | number hne hall _ => exact ⟨hne, hall⟩

/-- Only a run of letters that is no keyword is an identifier. -/
theorem letters_of_identifier (h : Lexeme .identifier v rest) :
    v ≠ [] ∧ (∀ c ∈ v, isLetter c = true) ∧ ∀ type, (String.ofList v, type) ∉ keywords := by
  cases h with
  | punctuation h => exact absurd (by simp [untabled]) (not_mem_untabled_of_mem_punctuation h)
  | keyword h _ _ => exact absurd (by simp [untabled]) (not_mem_untabled_of_mem_keywords h)
  | identifier hne hword hall _ => exact ⟨hne, hall, hword⟩

end Lexeme

/-- A run of letters is a keyword or an identifier. -/
theorem lexeme_wordType {v rest : List Char} (hne : v ≠ []) (hall : ∀ c ∈ v, isLetter c = true)
    (hend : ∀ c ∈ rest.head?, isLetter c = false) :
    Lexeme (Scan.wordType (String.ofList v)) v rest := by
  unfold Scan.wordType
  cases hword : keywords.lookup (String.ofList v) with
  | none =>
    refine .identifier hne (fun type hmem => ?_) hall hend
    rw [lookup_keywords_eq_some_iff.mpr hmem] at hword
    cases hword
  | some type => exact .keyword (lookup_keywords_eq_some_iff.mp hword) hall hend

/-- A legal character that is no spacing starts a lexeme. -/
theorem exists_lexeme {c : Char} (hlegal : Legal c) (hspacing : c ∉ spacing) (rest : List Char) :
    ∃ type v after, c :: rest = v ++ after ∧ Lexeme type v after := by
  -- A run ends where its class of characters does.
  have hrun : ∀ p : Char → Bool, p c = true →
      c :: rest = (c :: rest).takeWhile p ++ (c :: rest).dropWhile p ∧
      (c :: rest).takeWhile p ≠ [] ∧ (∀ a ∈ (c :: rest).takeWhile p, p a = true) ∧
      ∀ a ∈ ((c :: rest).dropWhile p).head?, p a = false := by
    intro p hp
    refine ⟨List.takeWhile_append_dropWhile.symm, by simp [hp], fun a => List.mem_takeWhile_imp, ?_⟩
    intro a hmem
    have hnot := List.head?_dropWhile_not p (c :: rest)
    rw [Option.mem_def.mp hmem] at hnot
    simpa using hnot
  rcases hlegal with h | h | h | h
  · exact absurd h hspacing
  · obtain ⟨type, h⟩ := mem_punctuation_iff.mp h
    exact ⟨type, [c], rest, rfl, .punctuation h⟩
  · obtain ⟨heq, hne, hall, hend⟩ := hrun isDigit h
    exact ⟨_, _, _, heq, .number hne hall hend⟩
  · obtain ⟨heq, hne, hall, hend⟩ := hrun isLetter h
    exact ⟨_, _, _, heq, lexeme_wordType hne hall hend⟩

/-! ## Segmentations -/

namespace Segmented

variable {after before text : List Char} {tokens : List Token}

/-- All characters of lexemes and of the spacing before them are legal. -/
theorem legal (h : Segmented after before text tokens) : ∀ c ∈ text, Legal c := by
  induction h with
  | nil => simp
  | cons hspaces hlexeme _ ih =>
    intro c hmem
    rw [List.mem_append, List.mem_append] at hmem
    rcases hmem with (hmem | hmem) | hmem
    · exact .inl (hspaces c hmem)
    · exact hlexeme.legal c hmem
    · exact ih c hmem

/-- No token of a lexeme is an end of input. -/
theorem type_ne_endOfInput (h : Segmented after before text tokens) :
    ∀ token ∈ tokens, token.type ≠ .endOfInput := by
  induction h with
  | nil => simp
  | cons _ hlexeme _ ih =>
    rw [List.forall_mem_cons]
    exact ⟨hlexeme.type_ne_endOfInput, ih⟩

/-- Every token is that of a lexeme. -/
theorem exists_lexeme_of_mem (h : Segmented after before text tokens) {token : Token}
    (hmem : token ∈ tokens) : ∃ v rest, token.lexeme = String.ofList v ∧
      Lexeme token.type v rest := by
  induction h with
  | nil => simp at hmem
  | cons _ hlexeme _ ih =>
    rcases List.mem_cons.mp hmem with rfl | hmem
    · exact ⟨_, _, rfl, hlexeme⟩
    · exact ih hmem

/-- There are no more lexemes than characters. -/
theorem length_le (h : Segmented after before text tokens) : tokens.length ≤ text.length := by
  induction h with
  | nil => exact Nat.le_refl _
  | cons _ hlexeme _ ih =>
    obtain ⟨c, u, rfl, -⟩ := hlexeme.exists_cons
    simp only [List.length_append, List.length_cons]
    omega

end Segmented

/-- Every text divides into lexemes, with spacing behind them, up to its end or to the first
character that is not legal. -/
theorem exists_segmented (before text : List Char) :
    ∃ tokens lexemes w rest, text = lexemes ++ w ++ rest ∧
      Segmented (w ++ rest) before lexemes tokens ∧ Spaces w ∧ ∀ c ∈ rest.head?, ¬Legal c := by
  induction hn : text.length using Nat.strongRecOn generalizing before text with
  | ind n ih =>
    let isSpacing := fun c => decide (c ∈ spacing)
    have hdivide : text = text.takeWhile isSpacing ++ text.dropWhile isSpacing :=
      List.takeWhile_append_dropWhile.symm
    have hspaces : Spaces (text.takeWhile isSpacing) := fun c hmem => by
      simpa [isSpacing] using List.mem_takeWhile_imp hmem
    generalize text.takeWhile isSpacing = w at hdivide hspaces
    cases hrest : text.dropWhile isSpacing with
    | nil => exact ⟨[], [], w, [], by simpa [hrest] using hdivide, .nil, hspaces, by simp⟩
    | cons c rest =>
      have hspacing : c ∉ spacing := by
        have hnot := List.head?_dropWhile_not isSpacing text
        simpa [hrest, isSpacing] using hnot
      rw [hrest] at hdivide
      by_cases hlegal : Legal c
      · obtain ⟨type, v, after, heq, hlexeme⟩ := exists_lexeme hlegal hspacing rest
        have hshorter : after.length < n := by
          obtain ⟨a, u, rfl, -⟩ := hlexeme.exists_cons
          rw [← hn, hdivide, heq]
          simp only [List.length_append, List.length_cons]
          omega
        obtain ⟨tokens, lexemes, w', rest', rfl, hseg, hspaces', hillegal⟩ :=
          ih _ hshorter (before ++ w ++ v) after rfl
        rw [List.append_assoc] at hlexeme
        refine ⟨_, _, w', rest', ?_, .cons hspaces hlexeme hseg, hspaces', hillegal⟩
        rw [hdivide, heq]
        simp only [List.append_assoc]
      · refine ⟨[], [], w, c :: rest, ?_, .nil, hspaces, by simpa using hlegal⟩
        rw [hdivide, List.nil_append]

/-! ## Reading tokens -/

namespace Scan

open TextCursor

variable (before rest : List Char)

/-- Spacing is skipped up to the first character that is none. -/
theorem skipSpacing_between :
    skipSpacing (between before rest) =
      .ok ⟨⟩ (between (before ++ rest.takeWhile spacing.contains)
        (rest.dropWhile spacing.contains)) :=
  discard_of_eq_ok (takeWhile_between before rest spacing.contains)

/-- Spacing before a token makes no difference to it but for its place. -/
theorem nextToken_spaces {w : List Char} (h : Spaces w) :
    nextToken (between before (w ++ rest)) = nextToken (between (before ++ w) rest) := by
  have hskip : skipSpacing (between before (w ++ rest)) =
      skipSpacing (between (before ++ w) rest) := by
    have hall : ∀ c ∈ w, spacing.contains c = true := fun c hmem => by simpa using h c hmem
    rw [skipSpacing_between, skipSpacing_between, List.takeWhile_append_of_pos hall,
      List.dropWhile_append_of_pos hall, List.append_assoc]
  have hok := skipSpacing_between (before ++ w) rest
  unfold nextToken
  rw [bind_of_eq_ok (hskip.trans hok), bind_of_eq_ok hok]

/-- At the end of the text the next token is the end of input. -/
theorem nextToken_nil :
    nextToken (between before []) = .ok (.ending (placeAfter before)) (between before []) := by
  have hskip := skipSpacing_between before []
  rw [List.takeWhile_nil, List.append_nil, List.dropWhile_nil] at hskip
  unfold nextToken
  rw [bind_of_eq_ok hskip, get_bind]
  simp only [atEnd_between, List.isEmpty_nil, if_true]
  rfl

/-- Where no spacing is in sight, the next token starts at once. -/
theorem nextToken_cons {c : Char} (h : c ∉ spacing) :
    nextToken (between before (c :: rest)) =
      tokenFrom c (placeAfter before) (between before (c :: rest)) := by
  have hnot : ¬spacing.contains c = true := by simpa using h
  have hskip := skipSpacing_between before (c :: rest)
  rw [List.takeWhile_cons_of_neg hnot, List.append_nil, List.dropWhile_cons_of_neg hnot] at hskip
  unfold nextToken
  rw [bind_of_eq_ok hskip, get_bind]
  simp only [atEnd_between, List.isEmpty_cons, Bool.false_eq_true, if_false, peek_between,
    List.head?_cons, position_between]

/-- A run of characters of one class is read as far as it goes. -/
theorem takeWhile_run {p : Char → Bool} {v : List Char} (hall : ∀ c ∈ v, p c = true)
    (hend : ∀ c ∈ rest.head?, p c = false) :
    takeWhile (fun sight => sight.any p) (between before (v ++ rest)) =
      .ok v (between (before ++ v) rest) := by
  rw [takeWhile_between, takeWhile_run_append hall hend, dropWhile_run_append hall hend]

/-- A run of letters is read as a keyword or an identifier. -/
theorem tokenFrom_letters {v : List Char} {c : Char} (hsight : c ∈ v.head?)
    (hall : ∀ c ∈ v, isLetter c = true) (hend : ∀ c ∈ rest.head?, isLetter c = false) :
    tokenFrom c (placeAfter before) (between before (v ++ rest)) =
      .ok ⟨wordType (String.ofList v), String.ofList v, placeAfter before⟩
        (between (before ++ v) rest) := by
  have hletter := hall c (List.mem_of_mem_head? hsight)
  have hdigit := isDigit_of_isLetter hletter
  have hlookup : punctuation.lookup c = none := by
    refine lookup_punctuation_eq_none_iff.mpr fun hmem => ?_
    rw [isLetter_of_mem_punctuation hmem] at hletter
    cases hletter
  simp only [tokenFrom, hlookup, hdigit, hletter]
  exact bind_of_eq_ok (takeWhile_run before rest hall hend)

/-- A run of digits is read as a number. -/
theorem tokenFrom_digits {v : List Char} {c : Char} (hsight : c ∈ v.head?)
    (hall : ∀ c ∈ v, isDigit c = true) (hend : ∀ c ∈ rest.head?, isDigit c = false) :
    tokenFrom c (placeAfter before) (between before (v ++ rest)) =
      .ok ⟨.number, String.ofList v, placeAfter before⟩ (between (before ++ v) rest) := by
  have hdigit := hall c (List.mem_of_mem_head? hsight)
  have hlookup : punctuation.lookup c = none := by
    refine lookup_punctuation_eq_none_iff.mpr fun hmem => ?_
    rw [isDigit_of_mem_punctuation hmem] at hdigit
    cases hdigit
  simp only [tokenFrom, hlookup, hdigit]
  exact bind_of_eq_ok (takeWhile_run before rest hall hend)

/-- A lexeme is read as its token. -/
theorem tokenFrom_lexeme {type : TokenType} {v : List Char} {c : Char} (hsight : c ∈ v.head?)
    (h : Lexeme type v rest) :
    tokenFrom c (placeAfter before) (between before (v ++ rest)) =
      .ok ⟨type, String.ofList v, placeAfter before⟩ (between (before ++ v) rest) := by
  cases h with
  | @punctuation a _ _ h =>
    obtain rfl : a = c := by simpa using hsight
    simp only [tokenFrom, lookup_punctuation_eq_some_iff.mpr h]
    exact bind_of_eq_ok (next_between before rest a)
  | number _ hall hend => exact tokenFrom_digits before rest hsight hall hend
  | keyword hword hall hend =>
    rw [tokenFrom_letters before rest hsight hall hend, wordType,
      lookup_keywords_eq_some_iff.mpr hword]
    rfl
  | identifier _ hword hall hend =>
    have hnone : keywords.lookup (String.ofList v) = none := by
      rw [Option.eq_none_iff_forall_ne_some]
      exact fun type h => hword type (lookup_keywords_eq_some_iff.mp h)
    rw [tokenFrom_letters before rest hsight hall hend, wordType, hnone]
    rfl

/-- Where a lexeme starts, the next token is that of the lexeme. -/
theorem nextToken_lexeme {type : TokenType} {v : List Char} (h : Lexeme type v rest) :
    nextToken (between before (v ++ rest)) =
      .ok ⟨type, String.ofList v, placeAfter before⟩ (between (before ++ v) rest) := by
  obtain ⟨c, u, rfl, hspacing⟩ := h.exists_cons
  rw [← tokenFrom_lexeme before rest rfl h]
  exact nextToken_cons before (u ++ rest) hspacing

/-- An illegal character is no token. -/
theorem nextToken_illegal {c : Char} (h : ¬Legal c) :
    nextToken (between before (c :: rest)) =
      .error (.illegal c (placeAfter before)) (between before (c :: rest)) := by
  simp only [Legal, not_or, Bool.not_eq_true] at h
  obtain ⟨hspacing, hpunctuation, hdigit, hletter⟩ := h
  rw [nextToken_cons before rest hspacing]
  simp only [tokenFrom, lookup_punctuation_eq_none_iff.mpr hpunctuation, hdigit, hletter]
  rfl

/-- A token that does not end the input comes first, and then further tokens. -/
theorem tokensUpTo_succ {c d : TextCursor} {token : Token} (h : nextToken c = .ok token d)
    (hend : token.isEnd = false) (count : Nat) :
    tokensUpTo (count + 1) c = ((token :: ·) <$> tokensUpTo count : Scan _) d := by
  rw [map_apply, tokensUpTo, bind_of_eq_ok h]
  simp only [hend, Bool.false_eq_true, if_false]
  cases hrest : tokensUpTo count d with
  | ok tokens e => exact bind_of_eq_ok hrest
  | error fault e => exact bind_of_eq_error hrest

/-- The tokens of the lexemes of a text come first, and then those of what is after it. -/
theorem tokensUpTo_segmented {after before text : List Char} {tokens : List Token}
    (h : Segmented after before text tokens) (count : Nat) :
    tokensUpTo (tokens.length + count) (between before (text ++ after)) =
      ((tokens ++ ·) <$> tokensUpTo count : Scan _) (between (before ++ text) after) := by
  induction h with
  | nil => simp
  | @cons before w v rest type tokens hspaces hlexeme _ ih =>
    have htoken := nextToken_lexeme (before ++ w) (rest ++ after) hlexeme
    rw [← nextToken_spaces before (v ++ (rest ++ after)) hspaces] at htoken
    have hend := hlexeme.type_ne_endOfInput
    have hfirst := tokensUpTo_succ htoken (by simpa [Token.isEnd] using hend)
      (tokens.length + count)
    rw [map_apply, ih, map_apply] at hfirst
    rw [List.length_cons, Nat.add_right_comm, map_apply]
    simp only [List.append_assoc] at hfirst ⊢
    rw [hfirst]
    cases tokensUpTo count (between (before ++ (w ++ (v ++ rest))) after) <;> rfl

/-- Spacing at the end of a text is followed by the end of input alone. -/
theorem tokensUpTo_spaces {w : List Char} (h : Spaces w) (count : Nat) :
    tokensUpTo count (between before w) =
      .ok [.ending (placeAfter (before ++ w))] (between (before ++ w) []) := by
  have htoken := nextToken_spaces before [] h
  rw [List.append_nil, nextToken_nil] at htoken
  cases count with
  | zero => exact bind_of_eq_ok htoken
  | succ count => exact bind_of_eq_ok htoken

/-- No tokens are read up to an illegal character. -/
theorem tokensUpTo_illegal {w : List Char} {c : Char} (hspaces : Spaces w) (h : ¬Legal c)
    (count : Nat) :
    tokensUpTo count (between before (w ++ c :: rest)) =
      .error (.illegal c (placeAfter (before ++ w))) (between (before ++ w) (c :: rest)) := by
  have htoken := nextToken_spaces before (c :: rest) hspaces
  rw [nextToken_illegal _ _ h] at htoken
  cases count with
  | zero => exact bind_of_eq_error htoken
  | succ count => exact bind_of_eq_error htoken

variable {lexemes w after : List Char} {c : Char} {ts : List Token}

/-- A text that ends in spacing gives the tokens of its lexemes and the end of input. -/
theorem tokens_of_segmented (h : Segmented w before lexemes ts) (hspaces : Spaces w) :
    tokens (between before (lexemes ++ w)) =
      .ok (ts ++ [.ending (placeAfter (before ++ lexemes ++ w))])
        (between (before ++ lexemes ++ w) []) := by
  have hlength := h.length_le
  have hcount : (between before (lexemes ++ w)).remaining =
      ts.length + (lexemes.length + w.length - ts.length) := by
    rw [remaining_between, List.length_append]
    omega
  rw [tokens, get_bind, hcount, tokensUpTo_segmented h, map_apply, tokensUpTo_spaces _ hspaces]

/-- A text with an illegal character behind its lexemes gives that character. -/
theorem tokens_of_illegal (h : Segmented (w ++ c :: after) before lexemes ts) (hspaces : Spaces w)
    (hillegal : ¬Legal c) :
    tokens (between before (lexemes ++ (w ++ c :: after))) =
      .error (.illegal c (placeAfter (before ++ lexemes ++ w)))
        (between (before ++ lexemes ++ w) (c :: after)) := by
  have hlength := h.length_le
  have hcount : (between before (lexemes ++ (w ++ c :: after))).remaining =
      ts.length + (lexemes.length + (w ++ c :: after).length - ts.length) := by
    rw [remaining_between, List.length_append]
    omega
  rw [tokens, get_bind, hcount, tokensUpTo_segmented h, map_apply,
    tokensUpTo_illegal _ after hspaces hillegal]

end Scan

/-! ## The tokens of a text -/

namespace Token

variable {source : String}

/-- A text that divides into lexemes and spacing gives the tokens of the lexemes. -/
theorem ofString_of_segmented {lexemes w : List Char} {ts : List Token}
    (hsource : source.toList = lexemes ++ w) (h : Segmented w [] lexemes ts) (hspaces : Spaces w) :
    ofString source = .ok (ts ++ [.ending (placeAfter source.toList)]) := by
  rw [ofString, TextCursor.ofString_eq_between, hsource, Scan.tokens_of_segmented _ h hspaces]
  rfl

/-- A text with an illegal character behind its lexemes is faulty there. -/
theorem ofString_of_illegal {lexemes w after : List Char} {c : Char} {ts : List Token}
    (hsource : source.toList = lexemes ++ (w ++ c :: after))
    (h : Segmented (w ++ c :: after) [] lexemes ts) (hspaces : Spaces w) (hillegal : ¬Legal c) :
    ofString source = .error (.illegal c (placeAfter (lexemes ++ w))) := by
  rw [ofString, TextCursor.ofString_eq_between, hsource,
    Scan.tokens_of_illegal _ h hspaces hillegal]
  rfl

/-- The tokens of a text are those of its lexemes and the end of input. -/
theorem ofString_eq_ok_iff {tokens : List Token} :
    ofString source = .ok tokens ↔
      ∃ lexemes w ts, source.toList = lexemes ++ w ∧ Segmented w [] lexemes ts ∧ Spaces w ∧
        tokens = ts ++ [.ending (placeAfter source.toList)] := by
  constructor
  · intro h
    obtain ⟨ts, lexemes, w, rest, hsource, hseg, hspaces, hillegal⟩ :=
      exists_segmented [] source.toList
    rw [List.append_assoc] at hsource
    cases rest with
    | nil =>
      rw [List.append_nil] at hsource hseg
      rw [ofString_of_segmented hsource hseg hspaces, Except.ok.injEq] at h
      exact ⟨lexemes, w, ts, hsource, hseg, hspaces, h.symm⟩
    | cons c after =>
      rw [ofString_of_illegal hsource hseg hspaces (hillegal c rfl)] at h
      cases h
  · rintro ⟨lexemes, w, ts, hsource, hseg, hspaces, rfl⟩
    exact ofString_of_segmented hsource hseg hspaces

/-- The first character that is not legal is the only one there is. -/
theorem first_illegal_unique {before before' after after' : List Char} {c c' : Char}
    (h : before ++ c :: after = before' ++ c' :: after') (hlegal : ∀ b ∈ before, Legal b)
    (hillegal : ¬Legal c) (hlegal' : ∀ b ∈ before', Legal b) (hillegal' : ¬Legal c') :
    before = before' ∧ c = c' := by
  induction before generalizing before' with
  | nil =>
    cases before' with
    | nil => exact ⟨rfl, (List.cons.inj h).1⟩
    | cons b before' => exact absurd ((List.cons.inj h).1 ▸ hlegal' b (by simp)) hillegal
  | cons b before ih =>
    rw [List.forall_mem_cons] at hlegal
    cases before' with
    | nil => exact absurd ((List.cons.inj h).1 ▸ hlegal.1) hillegal'
    | cons b' before' =>
      rw [List.forall_mem_cons] at hlegal'
      obtain ⟨rfl, hrest⟩ := List.cons.inj h
      obtain ⟨rfl, rfl⟩ := ih hrest hlegal.2 hlegal'.2
      exact ⟨rfl, rfl⟩

/-- A text is faulty at its first illegal character, and only there. -/
theorem ofString_eq_error_iff {fault : ReadFault} :
    ofString source = .error fault ↔
      ∃ before c after, source.toList = before ++ c :: after ∧ (∀ b ∈ before, Legal b) ∧ ¬Legal c ∧
        fault = .illegal c (placeAfter before) := by
  obtain ⟨ts, lexemes, w, rest, hsource, hseg, hspaces, hrest⟩ :=
    exists_segmented [] source.toList
  have hlegal : ∀ b ∈ lexemes ++ w, Legal b := fun b hmem =>
    (List.mem_append.mp hmem).elim (hseg.legal b) fun hmem => .inl (hspaces b hmem)
  cases rest with
  | nil =>
    rw [List.append_nil] at hsource hseg
    rw [ofString_of_segmented hsource hseg hspaces]
    constructor
    · intro h
      cases h
    · rintro ⟨before, c, after, hsource', -, hillegal, -⟩
      exact absurd (hlegal c (by rw [← hsource, hsource']; simp)) hillegal
  | cons c after =>
    have hfault := ofString_of_illegal (by rw [hsource, List.append_assoc]) hseg hspaces
      (hrest c rfl)
    rw [hfault, Except.error.injEq]
    constructor
    · rintro rfl
      exact ⟨_, c, after, hsource, hlegal, hrest c rfl, rfl⟩
    · rintro ⟨before, c', after', hsource', hlegal', hillegal', rfl⟩
      obtain ⟨rfl, rfl⟩ := first_illegal_unique (hsource.symm.trans hsource') hlegal (hrest c rfl)
        hlegal' hillegal'
      rfl

/-- A text that has tokens has legal characters only. -/
theorem legal_of_ofString {tokens : List Token} (h : ofString source = .ok tokens) :
    ∀ c ∈ source.toList, Legal c := by
  intro c hmem
  obtain ⟨lexemes, w, ts, hsource, hseg, hspaces, -⟩ := ofString_eq_ok_iff.mp h
  rw [hsource] at hmem
  exact (List.mem_append.mp hmem).elim (hseg.legal c) fun hmem => .inl (hspaces c hmem)

/-- A text that is faulty has an illegal character. -/
theorem exists_illegal_of_ofString {fault : ReadFault} (h : ofString source = .error fault) :
    ∃ c ∈ source.toList, ¬Legal c := by
  obtain ⟨before, c, after, hsource, -, hillegal, -⟩ := ofString_eq_error_iff.mp h
  exact ⟨c, by simp [hsource], hillegal⟩

/-- The last token of a text is its only end of input. -/
theorem ending_of_ofString {ts : List Token} {stop : Token}
    (h : ofString source = .ok (ts ++ [stop])) :
    (∀ token ∈ ts, token.type ≠ .endOfInput) ∧ stop = .ending (placeAfter source.toList) := by
  obtain ⟨_, _, us, -, hseg, -, heq⟩ := ofString_eq_ok_iff.mp h
  obtain ⟨rfl, hstop⟩ := List.append_inj' heq rfl
  exact ⟨hseg.type_ne_endOfInput, List.singleton_inj.mp hstop⟩

end Token

namespace Program

/-- The tokens of a text do not depend on its name. -/
theorem tokens_eq_ok_iff {source : String} {name : Option String} {ts : List Token} :
    tokens source name = .ok ts ↔ Token.ofString source = .ok ts := by
  unfold tokens
  cases Token.ofString source <;> simp

/-- A fault of a text is reported under its name. -/
theorem tokens_eq_error_iff {source : String} {name : Option String} {failure : Failure} :
    tokens source name = .error failure ↔
      ∃ fault, Token.ofString source = .error fault ∧ failure = fault.failure name := by
  unfold tokens
  cases Token.ofString source <;> simp [eq_comm]

/-- What cutting a text into tokens gives. A text of legal characters gives the tokens of its
lexemes, each with its place, and one end of input; any other text a report on its first illegal
character. -/
theorem tokens_segmentation (source : String) (name : Option String) :
    ((∀ c ∈ source.toList, Legal c) → ∃ ts lexemes w,
      tokens source name = .ok (ts ++ [.ending (placeAfter source.toList)]) ∧
      (∀ token ∈ ts, token.type ≠ .endOfInput) ∧
      source.toList = lexemes ++ w ∧ Segmented w [] lexemes ts ∧ Spaces w) ∧
    ∀ before c after, source.toList = before ++ c :: after → (∀ b ∈ before, Legal b) → ¬Legal c →
      ∃ report, tokens source name = .error (.diagnosed report) ∧
        report = .lexical c (some (placeAfter before).line) (some (placeAfter before).column) name ∧
        report.char = some c ∧ report.codePoint = some c.toNat := by
  constructor
  · intro hlegal
    cases hok : Token.ofString source with
    | ok ts =>
      obtain ⟨lexemes, w, ts, hsource, hseg, hspaces, rfl⟩ := Token.ofString_eq_ok_iff.mp hok
      exact ⟨ts, lexemes, w, by rw [tokens, hok], hseg.type_ne_endOfInput, hsource, hseg, hspaces⟩
    | error fault =>
      obtain ⟨before, c, after, hsource, -, hillegal, -⟩ := Token.ofString_eq_error_iff.mp hok
      exact absurd (hlegal c (by simp [hsource])) hillegal
  · intro before c after hsource hlegal hillegal
    have herror :=
      Token.ofString_eq_error_iff.mpr ⟨before, c, after, hsource, hlegal, hillegal, rfl⟩
    exact ⟨_, by rw [tokens, herror]; rfl, rfl, rfl, rfl⟩

end Program

end BoSyntax

import BoSyntax.Proofs.Text.Balance
import BoSyntax.Proofs.Token.Segmentation

/-!
# Braces in a text

A punctuation character is a lexeme of its own wherever it stands in a text of tokens. So the braces
of a text are balanced when those among its tokens are, and behind the same text as an opening brace
stand the tokens before its token.
-/

namespace BoSyntax

open Text

namespace Lexeme

variable {type : TokenType} {v rest : List Char}

/-- A punctuation character stands in its own lexeme only. -/
theorem eq_of_mem_punctuation {c : Char} {kind : TokenType} (h : Lexeme type v rest)
    (hkind : (c, kind) ∈ BoSyntax.punctuation) (hmem : c ∈ v) : v = [c] ∧ type = kind := by
  have hclass := mem_punctuation_iff.mpr ⟨kind, hkind⟩
  cases h with
  | punctuation h =>
    obtain rfl := List.mem_singleton.mp hmem
    have hlookup := lookup_punctuation_eq_some_iff.mpr h
    rw [lookup_punctuation_eq_some_iff.mpr hkind] at hlookup
    exact ⟨rfl, (Option.some.inj hlookup).symm⟩
  | number _ hall _ =>
    exact absurd ((isDigit_of_mem_punctuation hclass).symm.trans (hall c hmem)) (by decide)
  | keyword _ hall _ | identifier _ _ hall _ =>
    exact absurd ((isLetter_of_mem_punctuation hclass).symm.trans (hall c hmem)) (by decide)

/-- A brace is written in one way. -/
theorem eq_of_brace (h : Lexeme type v rest) :
    (type = .openBrace → v = ['{']) ∧ (type = .closeBrace → v = ['}']) := by
  cases h with
  | punctuation h =>
    have hall : ∀ entry ∈ BoSyntax.punctuation,
        (entry.2 = .openBrace → entry.1 = '{') ∧ (entry.2 = .closeBrace → entry.1 = '}') := by
      decide
    simpa using hall _ h
  | keyword h =>
    have hall : ∀ entry ∈ keywords, entry.2 ≠ .openBrace ∧ entry.2 ≠ .closeBrace := by decide
    exact ⟨fun htype => absurd htype (hall _ h).1, fun htype => absurd htype (hall _ h).2⟩
  | number => simp
  | identifier => simp

/-- There is an opening brace in no other lexeme than itself. -/
theorem notMem_openBrace (h : Lexeme type v rest) (htype : type ≠ .openBrace) : '{' ∉ v :=
  fun hmem => htype (h.eq_of_mem_punctuation (by decide) hmem).2

/-- There is a closing brace in no other lexeme than itself. -/
theorem notMem_closeBrace (h : Lexeme type v rest) (htype : type ≠ .closeBrace) : '}' ∉ v :=
  fun hmem => htype (h.eq_of_mem_punctuation (by decide) hmem).2

end Lexeme

namespace Spaces

variable {w : List Char}

/-- No punctuation character is spacing. -/
theorem notMem {c : Char} (h : Spaces w) (hc : c ∈ punctuation.map Prod.fst) : c ∉ w :=
  fun hmem => not_mem_punctuation_of_mem_spacing (h c hmem) hc

/-- Spaces are balanced. -/
theorem balanced (h : Spaces w) : Balanced '{' '}' w :=
  .of_notMem (h.notMem (by decide)) (h.notMem (by decide))

end Spaces

namespace Segmented

variable {after before text : List Char} {ts ts' : List Token} {token : Token}

/-- The first token of a text, and the text around it. -/
theorem exists_cons (h : Segmented after before text (token :: ts)) :
    ∃ w v rest, text = w ++ v ++ rest ∧ Spaces w ∧ Lexeme token.type v (rest ++ after) ∧
      token.start = placeAfter (before ++ w) ∧ Segmented after (before ++ w ++ v) rest ts := by
  cases h with
  | cons hspaces hlexeme h => exact ⟨_, _, _, rfl, hspaces, hlexeme, rfl, h⟩

/-- A text is divided where its tokens are. -/
theorem exists_append (h : Segmented after before text (ts ++ ts')) :
    ∃ s t, text = s ++ t ∧ Segmented (t ++ after) before s ts ∧
      Segmented after (before ++ s) t ts' := by
  induction ts generalizing before text with
  | nil => exact ⟨[], text, rfl, .nil, by rwa [List.append_nil]⟩
  | cons token ts ih =>
    cases h with
    | @cons _ w v _ type _ hspaces hlexeme h =>
      obtain ⟨s, t, rfl, hs, ht⟩ := ih h
      refine ⟨w ++ v ++ s, t, (List.append_assoc ..).symm, .cons hspaces ?_ hs, ?_⟩
      · rwa [← List.append_assoc]
      · simpa only [List.append_assoc] using ht

/-- Where no token is an opening brace, no character is one. -/
theorem openBrace_notMem (h : Segmented after before text ts)
    (hts : ∀ token ∈ ts, token.type ≠ .openBrace) : '{' ∉ text := by
  induction h with
  | nil => simp
  | cons hspaces hlexeme _ ih =>
    rw [List.forall_mem_cons] at hts
    simp only [List.mem_append, not_or]
    exact ⟨⟨hspaces.notMem (by decide), hlexeme.notMem_openBrace hts.1⟩, ih hts.2⟩

/-- An opening brace of a text is that of a token, with the tokens of the text before it. -/
theorem exists_openBrace {s t : List Char} (h : Segmented after before text ts)
    (htext : text = s ++ '{' :: t) : ∃ head brace rest, ts = head ++ brace :: rest ∧
      brace.type = .openBrace ∧ brace.start = placeAfter (before ++ s) ∧
      ∃ u w, s = u ++ w ∧ Spaces w ∧ Segmented (w ++ '{' :: (t ++ after)) before u head := by
  induction h generalizing s with
  | nil => simp at htext
  | @cons before w v rest type ts hspaces hlexeme h ih =>
    rcases append_cons_eq_append htext.symm with ⟨s, rfl, hrest⟩ | ⟨t', hwv, -⟩
    · obtain ⟨head, brace, tail, rfl, hbrace, hstart, u, w', rfl, hspaces', hu⟩ := ih hrest
      refine ⟨_ :: head, brace, tail, rfl, hbrace, by simpa using hstart, w ++ v ++ u, w', by simp,
        hspaces', .cons hspaces ?_ hu⟩
      simpa [hrest] using hlexeme
    · -- The brace is no spacing, so it is the whole lexeme.
      rcases append_cons_eq_append hwv.symm with ⟨q, rfl, hv⟩ | ⟨q, hw, -⟩
      · obtain ⟨hbrace, htype⟩ : v = ['{'] ∧ type = .openBrace :=
          hlexeme.eq_of_mem_punctuation (by decide) (by simp [hv])
        rw [hbrace] at hv
        obtain rfl : q = [] := by
          cases q with
          | nil => rfl
          | cons => simp at hv
        exact ⟨[], _, ts, rfl, htype, by simp, [], w, by simp, hspaces, .nil⟩
      · exact absurd (by simp [hw]) (hspaces.notMem (c := '{') (by decide))

/-- The braces of a text are balanced when those among its tokens are. -/
theorem balanced {types : List TokenType} (h : Balanced .openBrace .closeBrace types)
    (hts : Segmented after before text ts) (htypes : types = ts.map Token.type) :
    Balanced '{' '}' text := by
  induction h generalizing after before text ts with
  | nil =>
    obtain rfl := List.map_eq_nil_iff.mp htypes.symm
    cases hts
    exact .nil
  | other hopening hclosing _ ih =>
    obtain ⟨token, ts, rfl, rfl, rfl⟩ := List.map_eq_cons_iff.mp htypes.symm
    obtain ⟨w, v, rest, rfl, hspaces, hlexeme, -, hrest⟩ := hts.exists_cons
    have hv : Balanced '{' '}' v :=
      .of_notMem (hlexeme.notMem_openBrace hopening) (hlexeme.notMem_closeBrace hclosing)
    exact (hspaces.balanced.append hv).append (ih hrest rfl)
  | block _ _ ihs iht =>
    obtain ⟨opening, ts, rfl, hopening, htail⟩ := List.map_eq_cons_iff.mp htypes.symm
    obtain ⟨inner, ts, rfl, rfl, hrest⟩ := List.map_eq_append_iff.mp htail
    obtain ⟨closing, ts, rfl, hclosing, rfl⟩ := List.map_eq_cons_iff.mp hrest
    obtain ⟨w, v, rest, rfl, hspaces, hlexeme, -, hrest⟩ := hts.exists_cons
    obtain rfl := hlexeme.eq_of_brace.1 hopening
    obtain ⟨s, t, rfl, hs, ht⟩ := hrest.exists_append
    obtain ⟨w', v', rest', rfl, hspaces', hlexeme', -, hrest'⟩ := ht.exists_cons
    obtain rfl := hlexeme'.eq_of_brace.2 hclosing
    have hblock := Balanced.block ((ihs hs rfl).append hspaces'.balanced) (iht hrest' rfl)
    simpa using hspaces.balanced.append hblock

end Segmented

end BoSyntax

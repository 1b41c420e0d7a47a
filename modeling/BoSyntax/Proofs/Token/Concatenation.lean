import Mathlib.Data.List.Induction
import BoSyntax.Proofs.Node.Relocation
import BoSyntax.Proofs.Token.Segmentation

/-!
# Texts one after the other

Where two texts do not join a run of digits or of letters, the tokens of the whole are those of the
first text and, at places moved by its length, those of the second one.
-/

namespace BoSyntax

open Text

/-- A place in a text that starts at some origin: on the first line columns count from the origin,
and on further lines from the start of the line. -/
def Position.from (origin place : Position) : Position :=
  ⟨origin.line + place.line - 1,
    if place.line = 1 then origin.column + place.column - 1 else place.column⟩

/-- The place after two texts is the place after the second one, from where the first one ends. -/
theorem placeAfter_append (before text : List Char) :
    placeAfter (before ++ text) = (placeAfter before).from (placeAfter text) := by
  induction text using List.reverseRecOn with
  | nil =>
    rw [List.append_nil]
    exact (congrArg₂ Position.mk (Int.add_sub_cancel _ _) (Int.add_sub_cancel _ _)).symm
  | append_singleton text c ih =>
    have hline : 1 ≤ (placeAfter text).line := by
      simp only [placeAfter]
      omega
    rw [← List.append_assoc, placeAfter_concat, placeAfter_concat, ih]
    by_cases hc : c = '\n'
    · have hline' : ¬(placeAfter text).line + 1 = 1 := by omega
      simp only [if_pos hc, Position.from, Position.mk.injEq, if_neg hline', and_true]
      omega
    · simp only [if_neg hc, Position.from, Position.mk.injEq, true_and]
      split <;> omega

/-- Two texts do not join a run of digits or of letters. -/
def Apart (text text' : List Char) : Prop :=
  ∀ c ∈ text.getLast?, ∀ d ∈ text'.head?,
    ¬(isDigit c = true ∧ isDigit d = true) ∧ ¬(isLetter c = true ∧ isLetter d = true)

/-- Spacing on either side keeps texts apart. -/
theorem apart_of_spacing {text text' : List Char}
    (h : (∀ c ∈ text.getLast?, c ∈ spacing) ∨ ∀ d ∈ text'.head?, d ∈ spacing) :
    Apart text text' := by
  intro c hc d hd
  rcases h with h | h
  · simp [isDigit_of_mem_spacing (h c hc), isLetter_of_mem_spacing (h c hc)]
  · simp [isDigit_of_mem_spacing (h d hd), isLetter_of_mem_spacing (h d hd)]

/-- Punctuation on either side keeps texts apart. -/
theorem apart_of_punctuation {text text' : List Char}
    (h : (∀ c ∈ text.getLast?, c ∈ punctuation.map Prod.fst) ∨
      ∀ d ∈ text'.head?, d ∈ punctuation.map Prod.fst) :
    Apart text text' := by
  intro c hc d hd
  rcases h with h | h
  · simp [isDigit_of_mem_punctuation (h c hc), isLetter_of_mem_punctuation (h c hc)]
  · simp [isDigit_of_mem_punctuation (h d hd), isLetter_of_mem_punctuation (h d hd)]

/-- What is apart from a text is apart from its end. -/
theorem Apart.of_append {before text text' : List Char} (h : Apart (before ++ text) text') :
    Apart text text' := by
  intro c hc
  refine h c ?_
  rw [Option.mem_def] at *
  rw [List.getLast?_append, hc, Option.some_or]

/-- A lexeme at the end of a text stays one in a longer text, if that does not prolong a run. -/
theorem Lexeme.append {type : TokenType} {v rest extra : List Char} (h : Lexeme type v rest)
    (hapart : Apart (v ++ rest) extra) : Lexeme type v (rest ++ extra) := by
  have hrun : ∀ {p : Char → Bool}, v ≠ [] → (∀ c ∈ v, p c = true) →
      (∀ c ∈ rest.head?, p c = false) →
      (∀ c d, ¬(isDigit c = true ∧ isDigit d = true) ∧ ¬(isLetter c = true ∧ isLetter d = true) →
        p c = true → p d = false) → ∀ c ∈ (rest ++ extra).head?, p c = false := by
    intro p hne hall hrest hp d hd
    cases rest with
    | cons c rest => exact hrest d hd
    | nil =>
      rw [List.append_nil] at hapart
      have hlast := List.getLast?_eq_some_getLast hne
      exact hp _ d (hapart _ hlast d hd) (hall _ (List.getLast_mem hne))
  cases h with
  | punctuation h => exact .punctuation h
  | number hne hall hrest => exact .number hne hall (hrun hne hall hrest (by grind))
  | keyword hword hall hrest =>
    refine .keyword hword hall (hrun ?_ hall hrest (by grind))
    rintro rfl
    exact ne_empty_of_mem_keywords hword rfl
  | identifier hne hword hall hrest =>
    exact .identifier hne hword hall (hrun hne hall hrest (by grind))

namespace Segmented

variable {after before text : List Char} {tokens : List Token}

/-- More text behind changes no segment, if it does not prolong a run. -/
theorem append_after {extra : List Char} (h : Segmented after before text tokens)
    (hapart : Apart (text ++ after) extra) : Segmented (after ++ extra) before text tokens := by
  induction h with
  | nil => exact .nil
  | @cons before w v rest type tokens hspaces hlexeme _ ih =>
    rw [List.append_assoc] at hapart
    refine .cons hspaces ?_ (ih hapart.of_append)
    rw [List.append_assoc] at hapart
    rw [← List.append_assoc]
    exact hlexeme.append hapart.of_append

/-- More text before moves the tokens. -/
theorem append_before (h : Segmented after before text tokens) (first : List Char) :
    Segmented after (first ++ before) text
      (tokens.map (Token.relocate (placeAfter first).from)) := by
  induction h with
  | nil => exact .nil
  | @cons before w v rest type tokens hspaces hlexeme _ ih =>
    rw [← List.append_assoc, ← List.append_assoc] at ih
    have hcons := Segmented.cons hspaces hlexeme ih
    rwa [List.append_assoc first before w, placeAfter_append] at hcons

/-- Segments one after the other. -/
theorem append {text' : List Char} {tokens' : List Token}
    (h : Segmented (text' ++ after) before text tokens)
    (h' : Segmented after (before ++ text) text' tokens') :
    Segmented after before (text ++ text') (tokens ++ tokens') := by
  generalize hrest : text' ++ after = rest at h
  induction h with
  | nil => simpa using h'
  | @cons before w v rest' type tokens hspaces hlexeme _ ih =>
    subst hrest
    rw [List.append_assoc]
    refine .cons hspaces ?_ (ih ?_)
    · rwa [List.append_assoc]
    · simpa only [List.append_assoc] using h'

/-- Spacing may stand before any token. -/
theorem spaces_append {first w : List Char} (h : Segmented after first text tokens)
    (hfirst : first = before ++ w) (hspaces : Spaces w) (hne : tokens ≠ []) :
    Segmented after before (w ++ text) tokens := by
  cases h with
  | nil => exact absurd rfl hne
  | @cons _ w' v rest type tokens hspaces' hlexeme h =>
    rw [← List.append_assoc, ← List.append_assoc]
    rw [hfirst, List.append_assoc before] at h ⊢
    exact .cons (List.forall_mem_append.mpr ⟨hspaces, hspaces'⟩) hlexeme h

/-- There are no lexemes without tokens. -/
theorem text_eq_nil (h : Segmented after before text []) : text = [] := by
  cases h
  rfl

end Segmented

/-- The tokens of two texts that are apart are those of the first one, and those of the second one
where they are in the whole. -/
theorem Token.ofString_append {source source' : String} {ts ts' : List Token}
    {place place' : Position} (h : ofString source = .ok (ts ++ [.ending place]))
    (h' : ofString source' = .ok (ts' ++ [.ending place']))
    (hapart : Apart source.toList source'.toList) :
    ofString (source ++ source') =
      .ok (ts ++ ts'.map (relocate place.from) ++ [.ending (place.from place')]) := by
  obtain ⟨lexemes, w, us, hsource, hseg, hspaces, heq⟩ := ofString_eq_ok_iff.mp h
  obtain ⟨rfl, hplace⟩ := List.append_inj' heq rfl
  obtain ⟨lexemes', w', us', hsource', hseg', hspaces', heq'⟩ := ofString_eq_ok_iff.mp h'
  obtain ⟨rfl, hplace'⟩ := List.append_inj' heq' rfl
  simp only [List.cons.injEq, ending, Token.mk.injEq, and_true, true_and] at hplace hplace'
  subst hplace hplace'
  rw [← placeAfter_append, ← String.toList_append]
  have hfirst := hseg.append_after (hsource ▸ hapart)
  have hsecond := hseg'.append_before source.toList
  rcases eq_or_ne ts' [] with rfl | hne
  -- The second text is all spacing, and so is the end of the whole.
  · obtain rfl := hseg'.text_eq_nil
    rw [List.nil_append] at hsource'
    rw [hsource'] at hfirst
    rw [List.map_nil, List.append_nil]
    refine ofString_of_segmented ?_ hfirst (List.forall_mem_append.mpr ⟨hspaces, hspaces'⟩)
    rw [String.toList_append, hsource, hsource', List.append_assoc]
  -- The spacing at the end of the first text stands before the first token of the second one.
  · rw [List.append_nil] at hsecond
    rw [hsource', ← List.append_assoc] at hfirst
    have hspaced := hsecond.spaces_append hsource hspaces (by simpa using hne)
    refine ofString_of_segmented ?_ (hfirst.append hspaced) hspaces'
    rw [String.toList_append, hsource, hsource', List.append_assoc, List.append_assoc,
      List.append_assoc]

/-- A fault of the first text is one of the whole, whatever follows. -/
theorem Token.ofString_append_of_error {source : String} {fault : ReadFault}
    (h : ofString source = .error fault) (source' : String) :
    ofString (source ++ source') = .error fault := by
  obtain ⟨before, c, after, hsource, hlegal, hillegal, rfl⟩ := ofString_eq_error_iff.mp h
  refine ofString_eq_error_iff.mpr
    ⟨before, c, after ++ source'.toList, ?_, hlegal, hillegal, rfl⟩
  rw [String.toList_append, hsource, List.append_assoc, List.cons_append]

/-- A fault of the second text is one of the whole, where it is in the whole, if there is none in
the first one. -/
theorem Token.ofString_append_error {source source' : String} {ts : List Token} {place : Position}
    {fault : ReadFault} (h : ofString source = .ok (ts ++ [.ending place]))
    (h' : ofString source' = .error fault) : ∃ c place', fault = .illegal c place' ∧
      ofString (source ++ source') = .error (.illegal c (place.from place')) := by
  obtain ⟨before, c, after, hsource', hlegal', hillegal, rfl⟩ := ofString_eq_error_iff.mp h'
  have hplace : place = placeAfter source.toList := by
    simpa [ending] using (ending_of_ofString h).2
  refine ⟨c, placeAfter before, rfl, ofString_eq_error_iff.mpr
    ⟨source.toList ++ before, c, after, ?_, ?_, hillegal, ?_⟩⟩
  · rw [String.toList_append, hsource', List.append_assoc]
  · exact List.forall_mem_append.mpr ⟨legal_of_ofString h, hlegal'⟩
  · rw [hplace, placeAfter_append]

namespace Program

/-- Cutting a text into tokens goes on from one text to the next where these do not join a run. The
tokens of the whole are those of the first text without its end of input and those of the second one
moved to where the first one ends; so is a fault of the second text, and a fault of the first one
comes first. -/
theorem tokens_append (source source' : String) (name : Option String) :
    (source = "" ∨ source' = "" ∨
      (∃ c ∈ source.toList.getLast?, c ∈ spacing ∨ c ∈ punctuation.map Prod.fst) ∨
      (∃ d ∈ source'.toList.head?, d ∈ spacing ∨ d ∈ punctuation.map Prod.fst) →
        Apart source.toList source'.toList) ∧
    (Apart source.toList source'.toList →
      (∀ ts, tokens source name = .ok ts → ∃ us stop, ts = us ++ [stop] ∧
        stop.type = .endOfInput ∧
        (∀ ts', tokens source' name = .ok ts' →
          tokens (source ++ source') name =
            .ok (us ++ ts'.map (Token.relocate stop.start.from))) ∧
        ∀ failure, tokens source' name = .error failure → ∃ c place,
          failure = (ReadFault.illegal c place).failure name ∧
          tokens (source ++ source') name =
            .error ((ReadFault.illegal c (stop.start.from place)).failure name)) ∧
      ∀ failure, tokens source name = .error failure →
        tokens (source ++ source') name = .error failure) := by
  refine ⟨?_, fun hapart => ⟨fun ts hts => ?_, fun failure hfailure => ?_⟩⟩
  · rintro (rfl | rfl | ⟨c, hlast, hspacing | hpunctuation⟩ | ⟨d, hhead, hspacing | hpunctuation⟩)
    · simp [Apart]
    · simp [Apart]
    · exact apart_of_spacing (.inl fun a ha => Option.mem_unique ha hlast ▸ hspacing)
    · exact apart_of_punctuation (.inl fun a ha => Option.mem_unique ha hlast ▸ hpunctuation)
    · exact apart_of_spacing (.inr fun a ha => Option.mem_unique ha hhead ▸ hspacing)
    · exact apart_of_punctuation (.inr fun a ha => Option.mem_unique ha hhead ▸ hpunctuation)
  · have hfirst := tokens_eq_ok_iff.mp hts
    obtain ⟨-, -, us, -, -, -, rfl⟩ := Token.ofString_eq_ok_iff.mp hfirst
    refine ⟨us, _, rfl, rfl, fun ts' hts' => ?_, fun failure hfailure => ?_⟩
    · have hsecond := tokens_eq_ok_iff.mp hts'
      obtain ⟨-, -, us', -, -, -, rfl⟩ := Token.ofString_eq_ok_iff.mp hsecond
      rw [tokens_eq_ok_iff, Token.ofString_append hfirst hsecond hapart, List.map_append,
        List.append_assoc]
      rfl
    · obtain ⟨fault, hfault, rfl⟩ := tokens_eq_error_iff.mp hfailure
      obtain ⟨c, place, rfl, hwhole⟩ := Token.ofString_append_error hfirst hfault
      exact ⟨c, place, rfl, tokens_eq_error_iff.mpr ⟨_, hwhole, rfl⟩⟩
  · obtain ⟨fault, hfault, rfl⟩ := tokens_eq_error_iff.mp hfailure
    exact tokens_eq_error_iff.mpr ⟨_, Token.ofString_append_of_error hfault source', rfl⟩

/-- A letter behind a digit starts a token of its own, and the fault on the line below it moves with
the lines only. -/
theorem tokens_append_of_letter : ∃ us stop, tokens "a\n1" none = .ok (us ++ [stop]) ∧
    stop.start = ⟨2, 2⟩ ∧
    tokens "b\n ?" none = .error ((ReadFault.illegal '?' ⟨2, 2⟩).failure none) ∧
    tokens ("a\n1" ++ "b\n ?") none = .error ((ReadFault.illegal '?' ⟨3, 2⟩).failure none) := by
  have hletter : isLetter '1' = false := by decide +kernel
  have hdigit : isDigit 'b' = false := by decide +kernel
  have hapart : Apart "a\n1".toList "b\n ?".toList := by
    simp [Apart, hletter, hdigit]
  have hts : tokens "a\n1" none =
      .ok ([⟨.identifier, "a", ⟨1, 1⟩⟩, ⟨.number, "1", ⟨2, 1⟩⟩] ++ [.ending ⟨2, 2⟩]) := by
    decide +kernel
  have hfault : tokens "b\n ?" none = .error ((ReadFault.illegal '?' ⟨2, 2⟩).failure none) := by
    decide +kernel
  obtain ⟨us, stop, heq, -, -, hmoved⟩ := ((tokens_append "a\n1" "b\n ?" none).2 hapart).1 _ hts
  obtain ⟨rfl, hstop⟩ := List.append_inj' heq rfl
  obtain rfl := List.singleton_inj.mp hstop
  obtain ⟨c, ⟨line, column⟩, hfailure, hwhole⟩ := hmoved _ hfault
  simp only [ReadFault.failure, Failure.diagnosed.injEq, Diagnostic.lexical.injEq,
    Option.some.injEq, and_true] at hfailure
  obtain ⟨rfl, rfl, rfl⟩ := hfailure
  exact ⟨_, _, hts, rfl, hfault, hwhole⟩

end Program

end BoSyntax

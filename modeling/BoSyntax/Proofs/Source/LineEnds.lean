import BoSyntax.Proofs.Program.Spelling
import BoSyntax.Proofs.Token.Concatenation
import BoSyntax.Source.Basic

/-!
# Line ends and tokens

Where all line ends are read as line feeds, only spacing is exchanged, so a text keeps its words and
its first illegal character. Lines are counted by line feeds, so a lone carriage return becomes a
line end that was none before; where each of them stands before a line feed, no place is moved.
-/

namespace BoSyntax

open Text

namespace Source

/-- Each carriage return stands directly before a line feed. -/
def Paired (text : List Char) : Prop :=
  ∀ before after, text = before ++ '\r' :: after → after.head? = some '\n'

section Paired

variable {c : Char} {text rest : List Char}

/-- The empty text has no unpaired return. -/
@[simp] theorem paired_nil : Paired [] := fun before after h => by simp at h

/-- A return in front is paired if a line feed follows it. -/
@[simp] theorem paired_cons_iff :
    Paired (c :: text) ↔ (c = '\r' → text.head? = some '\n') ∧ Paired text := by
  constructor
  · intro h
    refine ⟨fun hc => h [] text (by rw [hc, List.nil_append]), fun before after heq => ?_⟩
    exact h (c :: before) after (by rw [heq, List.cons_append])
  · rintro ⟨hhead, h⟩ (_ | ⟨b, before⟩) after heq
    · obtain ⟨rfl, rfl⟩ := List.cons.inj heq
      exact hhead rfl
    · exact h before after (List.cons.inj heq).2

/-- A text that is divided, but not at a line feed, is paired in its first part. -/
theorem Paired.of_append (h : Paired (text ++ rest)) (hrest : rest.head? ≠ some '\n') :
    Paired text := by
  rintro before after rfl
  have hnext := h before (after ++ rest) (by simp)
  cases after with
  | nil => exact absurd hnext hrest
  | cons d after => exact hnext

end Paired

/-! ## Unified line ends -/

variable {c : Char} {text rest : List Char}

/-- Another character than a return is kept. -/
theorem unifyLineEnds_cons_of_ne (h : c ≠ '\r') :
    unifyLineEnds (c :: rest) = c :: unifyLineEnds rest := by
  rw [unifyLineEnds] <;> simp_all

/-- A return without a line feed becomes a line feed. -/
theorem unifyLineEnds_return (h : rest.head? ≠ some '\n') :
    unifyLineEnds ('\r' :: rest) = '\n' :: unifyLineEnds rest := by
  rw [unifyLineEnds]
  rintro tail rfl
  exact h rfl

/-- A text without returns is kept. -/
theorem unifyLineEnds_of_notMem (h : '\r' ∉ text) : unifyLineEnds text = text := by
  induction text with
  | nil => rfl
  | cons c text ih =>
    rw [List.mem_cons, not_or] at h
    rw [unifyLineEnds_cons_of_ne (Ne.symm h.1), ih h.2]

/-- Only line feeds are new. -/
theorem mem_unifyLineEnds (h : c ∈ unifyLineEnds text) : c = '\n' ∨ c ∈ text := by
  fun_induction unifyLineEnds text <;> grind

/-- A line end may come first where another one did. -/
theorem head?_unifyLineEnds (h : c ∈ (unifyLineEnds text).head?) :
    c = '\n' ∨ c ∈ text.head? := by
  fun_cases unifyLineEnds text <;> simp_all [unifyLineEnds, eq_comm]

/-- Line ends are read in two parts of a text apart, if these do not part a carriage return from its
line feed. -/
theorem unifyLineEnds_append (h : text.getLast? ≠ some '\r' ∨ rest.head? ≠ some '\n') :
    unifyLineEnds (text ++ rest) = unifyLineEnds text ++ unifyLineEnds rest := by
  fun_induction unifyLineEnds text with
  | case1 => rfl
  | case2 text ih =>
    rw [List.cons_append, List.cons_append, unifyLineEnds, ih, List.cons_append]
    refine h.imp_left fun hlast heq => hlast ?_
    rw [List.getLast?_cons, List.getLast?_cons, heq]
    rfl
  | case3 text hfeed ih =>
    have hhead : (text ++ rest).head? ≠ some '\n' := by
      cases text with
      | nil => simpa using h
      | cons d text => exact fun heq => hfeed text (by rw [← Option.some.inj heq])
    rw [List.cons_append, unifyLineEnds_return hhead, ih, List.cons_append]
    refine h.imp_left fun hlast heq => hlast ?_
    rw [List.getLast?_cons, heq]
    rfl
  | case4 c text _ hne ih =>
    rw [List.cons_append, unifyLineEnds_cons_of_ne hne, ih, List.cons_append]
    refine h.imp_left fun hlast heq => hlast ?_
    rw [List.getLast?_cons, heq]
    rfl

/-- No place is moved in a paired text. -/
theorem placeAfter_unifyLineEnds (h : Paired text) :
    placeAfter (unifyLineEnds text) = placeAfter text := by
  fun_induction unifyLineEnds text with
  | case1 => rfl
  | case2 text ih =>
    have hfeed : placeAfter ['\r', '\n'] = placeAfter ['\n'] := rfl
    have hsplit := placeAfter_append ['\r', '\n'] text
    rw [paired_cons_iff, paired_cons_iff] at h
    rw [hfeed, ← ih h.2.2, ← placeAfter_append] at hsplit
    exact hsplit.symm
  | case3 text hfeed ih =>
    obtain ⟨tail, rfl⟩ := List.head?_eq_some_iff.mp ((paired_cons_iff.mp h).1 rfl)
    exact absurd rfl (hfeed tail)
  | case4 c text _ _ ih =>
    have hsplit := placeAfter_append [c] (unifyLineEnds text)
    rw [ih (paired_cons_iff.mp h).2, ← placeAfter_append] at hsplit
    exact hsplit

end Source

open Source

/-! ## Tokens -/

/-- A line feed is spacing. -/
theorem lineFeed_mem_spacing : '\n' ∈ spacing := by
  simp [spacing]

/-- Spacing stays spacing. -/
theorem Spaces.unifyLineEnds {w : List Char} (h : Spaces w) : Spaces (unifyLineEnds w) := by
  intro c hmem
  rcases mem_unifyLineEnds hmem with rfl | hmem
  · exact lineFeed_mem_spacing
  · exact h c hmem

/-- A legal text stays legal. -/
theorem legal_unifyLineEnds {text : List Char} (h : ∀ c ∈ text, Legal c) :
    ∀ c ∈ unifyLineEnds text, Legal c := by
  intro c hmem
  rcases mem_unifyLineEnds hmem with rfl | hmem
  · exact .inl lineFeed_mem_spacing
  · exact h c hmem

namespace Lexeme

variable {type : TokenType} {v rest : List Char} {c : Char}

/-- A lexeme does not start with spacing. -/
theorem head?_append_ne (h : Lexeme type v rest) (hc : c ∈ spacing) (after : List Char) :
    (v ++ after).head? ≠ some c := by
  obtain ⟨d, u, rfl, hd⟩ := h.exists_cons
  rintro heq
  obtain rfl := Option.some.inj heq
  exact hd hc

/-- A lexeme does not end with spacing. -/
theorem getLast?_append_ne (h : Lexeme type v rest) (hc : c ∈ spacing) (before : List Char) :
    (before ++ v).getLast? ≠ some c := by
  obtain ⟨d, u, hv, -⟩ := h.exists_cons
  rw [List.getLast?_append_of_ne_nil _ (by simp [hv])]
  exact fun hlast => h.notMem_spacing c (List.mem_of_getLast? hlast) hc

/-- No line end is in a lexeme, and none is parted where it starts or ends. -/
theorem unifyLineEnds_append (h : Lexeme type v rest) (before after : List Char) :
    unifyLineEnds (before ++ v ++ after) = unifyLineEnds before ++ v ++ unifyLineEnds after := by
  have hv : unifyLineEnds v = v :=
    unifyLineEnds_of_notMem fun hmem => h.notMem_spacing _ hmem (by simp [spacing])
  have hhead : v.head? ≠ some '\n' := by
    simpa using h.head?_append_ne lineFeed_mem_spacing []
  rw [Source.unifyLineEnds_append (.inl (h.getLast?_append_ne (by simp [spacing]) before)),
    Source.unifyLineEnds_append (.inr hhead), hv]

end Lexeme

namespace Segmented

variable {after before text : List Char} {tokens : List Token}

/-- A text that ends in a lexeme does not end in a line end. -/
theorem getLast?_ne (h : Segmented after before text tokens) : text.getLast? ≠ some '\r' := by
  induction h with
  | nil => simp
  | @cons before w v rest type tokens _ hlexeme _ ih =>
    rw [List.getLast?_append]
    cases hrest : rest.getLast? with
    | none => exact hlexeme.getLast?_append_ne (by simp [spacing]) w
    | some d => simpa [hrest] using ih

/-- The segments of a text are kept where line ends are unified. -/
theorem unifyLineEnds (h : Segmented after before text tokens)
    (hbefore : before.getLast? ≠ some '\r') : ∃ tokens',
      Segmented (unifyLineEnds after) (unifyLineEnds before) (unifyLineEnds text) tokens' ∧
      tokens'.map Token.word = tokens.map Token.word ∧
      (Paired (before ++ text ++ after) → tokens' = tokens) := by
  induction h with
  | nil => exact ⟨[], .nil, rfl, fun _ => rfl⟩
  | @cons before w v rest type tokens hspaces hlexeme hrest ih =>
    obtain ⟨tokens', hsegmented, hwords, hpaired⟩ :=
      ih (hlexeme.getLast?_append_ne (by simp [spacing]) _)
    have hplace : Source.unifyLineEnds (before ++ w) =
        Source.unifyLineEnds before ++ Source.unifyLineEnds w :=
      unifyLineEnds_append (.inl hbefore)
    have hbehind := hlexeme.unifyLineEnds_append (before ++ w) []
    rw [List.append_nil, hplace, Source.unifyLineEnds, List.append_nil] at hbehind
    rw [hbehind] at hsegmented
    -- What follows the lexeme starts as before or with a line feed, which ends it just as well.
    have hlexeme' : Lexeme type v (Source.unifyLineEnds rest ++ Source.unifyLineEnds after) := by
      rw [← unifyLineEnds_append (.inl hrest.getLast?_ne)]
      refine hlexeme.of_head fun c hmem => (head?_unifyLineEnds hmem).imp_left ?_
      rintro rfl
      exact lineFeed_mem_spacing
    rw [hlexeme.unifyLineEnds_append]
    refine ⟨_, .cons hspaces.unifyLineEnds hlexeme' hsegmented, ?_, fun hpaired' => ?_⟩
    · rw [List.map_cons, List.map_cons, hwords]
      rfl
    · have hwhole : Paired (before ++ w ++ (v ++ (rest ++ after))) := by
        simpa only [List.append_assoc] using hpaired'
      have hfirst := hwhole.of_append (hlexeme.head?_append_ne lineFeed_mem_spacing _)
      have hrest : Paired (before ++ w ++ v ++ rest ++ after) := by
        simpa only [List.append_assoc] using hpaired'
      rw [← hplace, placeAfter_unifyLineEnds hfirst, hpaired hrest]

end Segmented

namespace Token

variable {source : String} {tokens : List Token}

/-- The tokens of a text with unified line ends. -/
theorem ofString_unifyLineEnds (h : ofString source = .ok tokens) : ∃ tokens',
    ofString (String.ofList (unifyLineEnds source.toList)) = .ok tokens' ∧
      tokens'.map word = tokens.map word ∧ (Paired source.toList → tokens' = tokens) := by
  obtain ⟨lexemes, w, ts, hsource, hseg, hspaces, rfl⟩ := ofString_eq_ok_iff.mp h
  obtain ⟨ts', hseg', hwords, hpaired⟩ := hseg.unifyLineEnds (by simp)
  have htext : (String.ofList (unifyLineEnds source.toList)).toList =
      unifyLineEnds lexemes ++ unifyLineEnds w := by
    rw [String.toList_ofList, hsource, unifyLineEnds_append (.inl hseg.getLast?_ne)]
  refine ⟨_, ofString_of_segmented htext hseg' hspaces.unifyLineEnds, ?_, fun hsource' => ?_⟩
  · simp [hwords, word, ending]
  · rw [String.toList_ofList, placeAfter_unifyLineEnds hsource',
      hpaired (by rwa [List.nil_append, ← hsource])]

/-- The first illegal character of a text with unified line ends. -/
theorem ofString_unifyLineEnds_of_error {fault : ReadFault} (h : ofString source = .error fault) :
    ∃ c place place', fault = .illegal c place ∧
      ofString (String.ofList (unifyLineEnds source.toList)) = .error (.illegal c place') ∧
      (Paired source.toList → place' = place) := by
  obtain ⟨before, c, after, hsource, hlegal, hillegal, rfl⟩ := ofString_eq_error_iff.mp h
  have hspacing : c ∉ spacing := fun hc => hillegal (.inl hc)
  have hfeed : (c :: after).head? ≠ some '\n' := by
    rintro hfeed
    obtain rfl : c = '\n' := Option.some.inj hfeed
    exact hspacing (by simp [spacing])
  have hreturn : c ≠ '\r' := by
    rintro rfl
    exact hspacing (by simp [spacing])
  refine ⟨c, _, placeAfter (unifyLineEnds before), rfl, ofString_eq_error_iff.mpr
    ⟨_, c, unifyLineEnds after, ?_, legal_unifyLineEnds hlegal, hillegal, rfl⟩, fun hpaired => ?_⟩
  · rw [String.toList_ofList, hsource, unifyLineEnds_append (.inr hfeed),
      unifyLineEnds_cons_of_ne hreturn]
  · rw [hsource] at hpaired
    exact placeAfter_unifyLineEnds (hpaired.of_append hfeed)

/-- A return that stands alone becomes a line end, which moves what is behind it. -/
example : ofString "\r#" = .error (.illegal '#' ⟨1, 2⟩) ∧
    ofString (String.ofList (unifyLineEnds "\r#".toList)) = .error (.illegal '#' ⟨2, 1⟩) := by
  decide +kernel

end Token

end BoSyntax

import Mathlib.Data.Prod.Lex
import BoSyntax.Proofs.Token.Segmentation

/-!
# The order of tokens

Places in a text are ordered by line first and then by column. This is the order of the characters,
so each token of a text starts behind the ones before it, and where it starts its lexeme is written.
-/

namespace BoSyntax

namespace Position

/-- Places are ordered by line first and then by column. -/
instance : LinearOrder Position :=
  LinearOrder.lift' (fun place => toLex (place.line, place.column)) fun p q h => by
    cases p
    cases q
    simpa using h

/-- A position is before another one by its line, or by its column in the same line. -/
theorem lt_iff {p q : Position} :
    p < q ↔ p.line < q.line ∨ p.line = q.line ∧ p.column < q.column :=
  Prod.Lex.toLex_lt_toLex

end Position

/-- Reading a character leads to a later place. -/
theorem placeAfter_lt_concat (before : List Char) (c : Char) :
    placeAfter before < placeAfter (before ++ [c]) := by
  rw [placeAfter_concat, Position.lt_iff]
  split
  · exact .inl (Int.lt_add_one_iff.mpr le_rfl)
  · exact .inr ⟨rfl, Int.lt_add_one_iff.mpr le_rfl⟩

/-- Reading on never leads back. -/
theorem placeAfter_le_append (before text : List Char) :
    placeAfter before ≤ placeAfter (before ++ text) := by
  induction text generalizing before with
  | nil => rw [List.append_nil]
  | cons c text ih =>
    have hle := ih (before ++ [c])
    rw [List.append_assoc] at hle
    exact (placeAfter_lt_concat before c).le.trans hle

/-- Reading on leads to a later place if anything is read. -/
theorem placeAfter_lt_append (before : List Char) {text : List Char} (h : text ≠ []) :
    placeAfter before < placeAfter (before ++ text) := by
  obtain ⟨c, rest, rfl⟩ := List.exists_cons_of_ne_nil h
  have hle := placeAfter_le_append (before ++ [c]) rest
  rw [List.append_assoc] at hle
  exact (placeAfter_lt_concat before c).trans_le hle

namespace Segmented

variable {after before text : List Char} {tokens : List Token}

/-- Each token starts behind some text, and its lexeme follows there. -/
theorem exists_place (h : Segmented after before text tokens) {token : Token}
    (hmem : token ∈ tokens) :
    ∃ left right, text = left ++ token.lexeme.toList ++ right ∧ token.lexeme.toList ≠ [] ∧
      token.start = placeAfter (before ++ left) := by
  induction h with
  | nil => simp at hmem
  | @cons before w v rest type tokens _ hlexeme _ ih =>
    rcases List.mem_cons.mp hmem with rfl | hmem
    · obtain ⟨c, u, rfl, -⟩ := hlexeme.exists_cons
      exact ⟨w, rest, by simp, by simp, rfl⟩
    · obtain ⟨left, right, hrest, hne, hstart⟩ := ih hmem
      refine ⟨w ++ v ++ left, right, by simp [hrest], hne, ?_⟩
      simpa only [List.append_assoc] using hstart

/-- Each token starts behind the ones before it. -/
theorem pairwise_start (h : Segmented after before text tokens) :
    (tokens.map Token.start).Pairwise (· < ·) := by
  induction h with
  | nil => exact .nil
  | @cons before w v rest type tokens _ hlexeme hrest ih =>
    refine List.pairwise_cons.mpr ⟨List.forall_mem_map.mpr fun token hmem => ?_, ih⟩
    obtain ⟨c, u, rfl, -⟩ := hlexeme.exists_cons
    obtain ⟨left, -, -, -, hstart⟩ := hrest.exists_place hmem
    rw [hstart]
    exact (placeAfter_lt_append (before ++ w) (List.cons_ne_nil c u)).trans_le
      (placeAfter_le_append _ left)

end Segmented

/-- The tokens of a text stand in it one after the other, and but for the end of input the lexeme of
each is written where it starts. -/
theorem Token.places_of_ofString {source : String} {ts : List Token} {stop : Token}
    (h : ofString source = .ok (ts ++ [stop])) :
    ((ts ++ [stop]).map Token.start).Pairwise (· < ·) ∧ ∀ token ∈ ts, ∃ before after,
      source.toList = before ++ token.lexeme.toList ++ after ∧ token.start = placeAfter before := by
  obtain ⟨lexemes, w, us, hsource, hseg, -, heq⟩ := ofString_eq_ok_iff.mp h
  obtain ⟨rfl, hstop⟩ := List.append_inj' heq rfl
  obtain rfl := List.singleton_inj.mp hstop
  have hplace : ∀ token ∈ ts, ∃ before after,
      source.toList = before ++ token.lexeme.toList ++ after ∧ token.lexeme.toList ≠ [] ∧
        token.start = placeAfter before := by
    intro token hmem
    obtain ⟨left, right, htext, hne, hstart⟩ := hseg.exists_place hmem
    exact ⟨left, right ++ w, by rw [hsource, htext, List.append_assoc _ right], hne, hstart⟩
  constructor
  · rw [List.map_append, List.pairwise_append]
    refine ⟨hseg.pairwise_start, List.pairwise_singleton _ _, List.forall_mem_map.mpr ?_⟩
    intro token hmem place hstop
    obtain ⟨before, rest, htext, hne, hstart⟩ := hplace token hmem
    obtain rfl := List.mem_singleton.mp hstop
    rw [hstart, Token.ending, htext, List.append_assoc]
    exact placeAfter_lt_append before (List.append_ne_nil_of_left_ne_nil hne rest)
  · intro token hmem
    obtain ⟨before, rest, htext, -, hstart⟩ := hplace token hmem
    exact ⟨before, rest, htext, hstart⟩

end BoSyntax

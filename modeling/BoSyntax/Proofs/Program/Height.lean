import BoSyntax.Proofs.Program.Spelling
import Mathlib.Data.List.MinMax

/-!
# Programs of any height

A sum is read by a loop, so it takes a single level of nesting however many operands it has. But it
is grouped from the left, and each of its operators is one more level of the tree. So no bound to
the nesting of texts bounds the height of their programs.
-/

namespace BoSyntax

open BoSyntax.Language

namespace Node

/-- Each depth that a walk comes to is below the height. -/
theorem lt_height_of_mem_walk {node : Node} {visit : Nat × Node} (h : visit ∈ node.walk) :
    visit.1 < node.height :=
  List.le_max_of_le' 0 (List.mem_map_of_mem h) (Nat.le_refl (visit.1 + 1))

end Node

/-- The words of a sum: a name, and so many times a plus and the name again. -/
def sumWords : Nat → List Word
  | 0 => [(.identifier, "x")]
  | count + 1 => sumWords count ++ [(.binaryOperator, "+"), (.identifier, "x")]

/-- The words of a sum are lexemes. -/
theorem spellable_sumWords (count : Nat) : Spellable (sumWords count) := by
  have hletter : Text.isLetter 'x' = true := by decide +kernel
  have hname : IsIdentifier "x" := ⟨by decide, by simpa using hletter, by simp [keywords]⟩
  induction count with
  | zero => exact spellable_identifier hname spellable_nil
  | succ count ih =>
    exact spellable_append ih (spellable_punctuation (c := '+') rfl
      (spellable_identifier hname spellable_nil))

/-- There is no line break in the text of a sum. -/
theorem lineFeed_notMem_sumWords (count : Nat) : '\n' ∉ spaced (sumWords count) := by
  induction count with
  | zero => decide
  | succ count ih =>
    rw [spaced, sumWords, List.flatMap_append, ← spaced, List.mem_append]
    exact not_or_intro ih (by decide)

/-- Whatever whole expressions are, the words of a sum stand for a tree that is as deep as there are
operators. -/
theorem exists_sum_of_words (E : Language Node) {count : Nat} {s : List Token}
    (h : s.map Token.word = sumWords count) :
    ∃ v, Sum E s v ∧ ∀ depth, ∃ w, (depth + count, w) ∈ v.walkFrom depth := by
  induction count generalizing s with
  | zero =>
    obtain ⟨token, rfl, hword⟩ := List.map_eq_singleton_iff.mp h
    obtain ⟨htype, -⟩ := Token.word_eq_iff.mp hword
    exact ⟨_, .base (.base (.base (.base (.name htype)))), fun _ => ⟨_, List.mem_cons_self⟩⟩
  | succ count ih =>
    obtain ⟨s, t, rfl, hs, ht⟩ := List.map_eq_append_iff.mp h
    obtain ⟨operator, _, rfl, hoperator, ht⟩ := List.map_eq_cons_iff.mp ht
    obtain ⟨name, rfl, hname⟩ := List.map_eq_singleton_iff.mp ht
    obtain ⟨htype, hlexeme⟩ := Token.word_eq_iff.mp hoperator
    obtain ⟨htype', -⟩ := Token.word_eq_iff.mp hname
    obtain ⟨left, hleft, hdeep⟩ := ih hs
    have hadditive : operator.lexeme ∈ additiveOperators := by
      rw [hlexeme]
      decide
    refine ⟨_, .extend hleft (.operator htype hadditive (.base (.base (.base (.name htype'))))),
      fun depth => ?_⟩
    obtain ⟨w, hmem⟩ := hdeep (depth + 1)
    refine ⟨w, ?_⟩
    rw [Nat.add_right_comm, Nat.add_assoc] at hmem
    exact List.mem_cons_of_mem _ (List.mem_append_left _ hmem)

namespace Program

/-- There are texts of one line that are read with a single level of nesting, and whose programs
have more levels than any given number. -/
theorem exists_higher (levels : Nat) :
    ∃ source program, '\n' ∉ source.toList ∧ '+' ∈ source.toList ∧ levels < program.height ∧
      ∀ limit, 0 < limit → ∀ name, ofStringWithin limit source name = .ok program := by
  obtain ⟨ts, place, hmap, htypes, htokens⟩ :=
    exists_ofString_spaced (spellable_sumWords (levels + 1))
  obtain ⟨v, hsum, hdeep⟩ := exists_sum_of_words (fun _ _ => False) hmap
  obtain ⟨w, hmem⟩ := hdeep 1
  let program : Node := .program (ts.headD (.ending place)).start [v]
  have hwalk : (1 + (levels + 1), w) ∈ program.walk :=
    List.mem_cons_of_mem _ (List.mem_append_left _ hmem)
  have hheight := Node.lt_height_of_mem_walk hwalk
  refine ⟨String.ofList (spaced (sumWords (levels + 1))), program, ?_, ?_, by omega,
    fun limit hlimit name => ?_⟩
  · rw [String.toList_ofList]
    exact lineFeed_notMem_sumWords _
  · simp [sumWords, spaced]
  · obtain ⟨depth, rfl⟩ := Nat.exists_eq_succ_of_ne_zero (Nat.ne_of_gt hlimit)
    have hexpression : ExpressionWithin (depth + 1) ts v :=
      .object (.sum (hsum.imp fun _ _ _ h => h.elim))
    have hstatements : Statements (StatementWithin (depth + 1)) (ts ++ []) [v] :=
      .more (.expression hexpression) .none (by simp)
    rw [List.append_nil] at hstatements
    have hprogram : ProgramOf (StatementWithin (depth + 1)) (ts ++ [.ending place]) program :=
      .statements hstatements rfl
    rw [ofStringWithin_of_tokens htokens, (ofTokens_eq_ok_iff_programOf htypes rfl).mpr hprogram]
    rfl

end Program

end BoSyntax

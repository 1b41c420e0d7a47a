import BoSyntax.Proofs.Grammar.Block
import BoSyntax.Proofs.Program.Failure
import BoSyntax.Proofs.Token.Brace

/-!
# The blocks of a program

In the text of a program the braces are balanced, and each opening brace opens a block: the body of
a function or the properties of an object. So a place in the text is between the braces of a block
exactly when there are more opening than closing braces before it.
-/

namespace BoSyntax

open BoSyntax.Language

namespace Node

/-- Behind some text a brace opens the block of a node: an object starts with that brace, and for a
function it is the first brace from its start on. -/
inductive OpensBehind (node : Node) (before : List Char) : Prop
  | object : node.kind = .objectLiteral → node.start = placeAfter before →
    OpensBehind node before
  | function {head rest} : node.kind = .functionDeclaration → node.start = placeAfter head →
    before = head ++ rest → '{' ∉ rest → OpensBehind node before

/-- A place in the text of a program, between `left` and `right`, is in a block: between the brace
that opens the block of a node and the closing brace that matches it. -/
def InBlock (program : Node) (left right : List Char) : Prop :=
  ∃ node ∈ program.nodes, ∃ before inner inner' after, node.OpensBehind before ∧
    left = before ++ '{' :: inner ∧ right = inner' ++ '}' :: after ∧
    Balanced '{' '}' (inner ++ inner')

end Node

/-- A block that opens behind the tokens of a text opens behind that text. -/
theorem OpensBlock.opensBehind {ts : List Token} {brace : Token} {node : Node}
    {after u w : List Char} (h : OpensBlock ts brace node) (hu : Segmented after [] u ts)
    (hspaces : Spaces w) (hstart : brace.start = placeAfter (u ++ w)) :
    node.OpensBehind (u ++ w) := by
  cases h with
  | object hkind hnode => exact .object hkind (hnode.trans hstart)
  | function hkind hnode hts hplain =>
    rw [hts] at hu
    obtain ⟨s, t, rfl, -, ht⟩ := hu.exists_append
    obtain ⟨w', v, rest, rfl, -, -, hkeyword, -⟩ := ht.exists_cons
    have hbetween : '{' ∉ v ++ rest ++ w := by
      have ht' := ht.openBrace_notMem hplain
      have hw := hspaces.notMem (c := '{') (by decide)
      simp only [List.mem_append, not_or] at ht' ⊢
      exact ⟨⟨ht'.1.2, ht'.2⟩, hw⟩
    exact .function hkind (hnode.trans hkeyword) (by simp) hbetween

namespace Program

variable {limit : Nat} {source : String} {name : Option String} {program : Node}

/-- The braces of a program are balanced, and each opening one opens the block of a node. -/
theorem balanced_and_opensBehind (h : ofStringWithin limit source name = .ok program) :
    Balanced '{' '}' source.toList ∧ ∀ before after, source.toList = before ++ '{' :: after →
      ∃ node ∈ program.nodes, node.OpensBehind before := by
  obtain ⟨ts, stop, htokens, hprogram⟩ := exists_programOf_of_ofStringWithin h
  obtain ⟨lexemes, w, ts', hsource, hseg, hspaces, heq⟩ := Token.ofString_eq_ok_iff.mp htokens
  obtain ⟨rfl, -⟩ := List.append_inj' heq rfl
  obtain ⟨-, vs, hvs, rfl⟩ := programOf_concat_iff.mp hprogram
  have hblocks : Blocks ts (Node.program (ts.headD stop).start vs).nodes :=
    .children (.program _ vs) (hvs.blocks fun _ _ h => Statement.blocks ⟨limit, h⟩)
  rw [hsource]
  refine ⟨(hseg.balanced hblocks.balanced rfl).append hspaces.balanced, fun before after h => ?_⟩
  rcases append_cons_eq_append h.symm with ⟨rest, -, hw⟩ | ⟨rest, hlexemes, -⟩
  · exact absurd (by simp [hw]) (hspaces.notMem (c := '{') (by decide))
  · obtain ⟨head, brace, tail, rfl, hbrace, hstart, u, w', rfl, hspaces', hu⟩ :=
      hseg.exists_openBrace hlexemes
    obtain ⟨node, hmem, hnode⟩ := hblocks.opens head brace tail rfl hbrace
    exact ⟨node, hmem, hnode.opensBehind hu hspaces' hstart⟩

/-- A place in a program is in a block exactly when more braces are opened than closed before. -/
theorem inBlock_iff {left right : List Char} (h : ofStringWithin limit source name = .ok program)
    (hsource : source.toList = left ++ right) :
    program.InBlock left right ↔ left.count '}' < left.count '{' := by
  obtain ⟨hbalanced, hopens⟩ := balanced_and_opensBehind h
  constructor
  · rintro ⟨_, -, before, inner, inner', after, -, rfl, -, hinner⟩
    rw [List.append_assoc] at hsource
    have hbefore := hbalanced.count_le (by decide) hsource
    have hinner := hinner.count_le (by decide) rfl
    have hopening : ('{' :: inner).count '}' = inner.count '}' :=
      List.count_cons_of_ne (by decide)
    rw [List.count_append, List.count_append, List.count_cons_self, hopening]
    omega
  · intro hlt
    obtain ⟨before, inner, inner', after, rfl, rfl, hinner⟩ :=
      hbalanced.exists_block (by decide) hsource hlt
    obtain ⟨node, hmem, hnode⟩ := hopens before _ (by rw [hsource, List.append_assoc]; rfl)
    exact ⟨node, hmem, before, inner, inner', after, hnode, rfl, rfl, hinner⟩

end Program

end BoSyntax

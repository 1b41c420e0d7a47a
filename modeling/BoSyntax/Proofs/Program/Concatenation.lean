import BoSyntax.Proofs.Grammar.Mirror
import BoSyntax.Proofs.Program.WellFormed
import BoSyntax.Proofs.Token.Concatenation

/-!
# Programs one after the other

A program on the lines below another one continues it. Only an opening parenthesis at its start
could be taken for the arguments of a call, and this not after a semicolon or a closing brace.
-/

namespace BoSyntax

open BoSyntax.Language

namespace Language

/-- Statements go on after others, unless they start with an opening parenthesis that would continue
the last one. -/
theorem Statements.append {S : Language Node} (hS : ∀ s v, S s v → s ≠ []) {s t : List Token}
    {vs ws : List Node} (h : Statements S s vs) (h' : Statements S t ws)
    (hsep : ∀ token ∈ t.head?, s = [] ∨ Separated s token) :
    Statements S (s ++ t) (vs ++ ws) := by
  induction h with
  | none => exact h'
  | @more s u v vs h _ hhead ih =>
    rw [List.append_assoc]
    have hne : s ++ u ≠ [] := List.append_ne_nil_of_left_ne_nil (hS _ _ h) u
    refine .more h (ih fun token hmem => ?_) fun token hmem => ?_
    · rcases eq_or_ne u [] with hu | hu
      · exact .inl hu
      · exact .inr (((hsep token hmem).resolve_left hne).of_append hu)
    · cases u with
      | nil => simpa using (hsep token hmem).resolve_left hne
      | cons first u => exact hhead token hmem

end Language

namespace Program

variable {limit : Nat} {source source' : String} {name : Option String} {program program' : Node}
  {ts ts' : List Token} {stop stop' : Token} {place place' : Position}

/-- The tokens of two texts, the second one below the first one. -/
theorem ofString_append_below (hts : Token.ofString source = .ok (ts ++ [.ending place]))
    (hts' : Token.ofString source' = .ok (ts' ++ [.ending place'])) :
    Token.ofString (source ++ "\n" ++ source') =
      .ok (ts ++ (ts' ++ [Token.ending place']).map
        (Token.relocate (Position.from ⟨place.line + 1, 1⟩))) := by
  have hfeed : Token.ofString "\n" = .ok ([] ++ [.ending ⟨2, 1⟩]) := rfl
  have hbelow : place.from ⟨2, 1⟩ = ⟨place.line + 1, 1⟩ := by
    simp [Position.from]
    omega
  have hfirst := Token.ofString_append hts hfeed (apart_of_spacing (.inr (by simp [spacing])))
  rw [List.map_nil, List.append_nil, hbelow] at hfirst
  have hapart : Apart (source ++ "\n").toList source'.toList :=
    apart_of_spacing (.inl (by simp [spacing]))
  rw [Token.ofString_append hfirst hts' hapart, List.append_assoc, List.map_append]
  rfl

/-- The programs of texts that are read one below the other. -/
theorem ofStringWithin_concat (h : ofStringWithin limit source name = .ok program)
    (h' : ofStringWithin limit source' name = .ok program')
    (hts : tokens source name = .ok (ts ++ [stop]))
    (hts' : tokens source' name = .ok (ts' ++ [stop']))
    (hjoin : ts = [] ∨ ts' = [] ∨
      (∃ last ∈ ts.getLast?, last.type = .semicolon ∨ last.type = .closeBrace) ∨
      ∃ first ∈ ts'.head?, first.type ≠ .openParen) :
    ∃ whole, ofStringWithin limit (source ++ "\n" ++ source') name = .ok whole ∧
      whole.children = program.children ++
        program'.children.map (Node.relocate (Position.from ⟨stop.start.line + 1, 1⟩)) ∧
      Node.equalAll
        (program'.children.map (Node.relocate (Position.from ⟨stop.start.line + 1, 1⟩)))
        program'.children = true ∧
      (ts ≠ [] → whole.start = program.start) := by
  rw [tokens_eq_ok_iff] at hts hts'
  obtain ⟨-, rfl⟩ := Token.ending_of_ofString hts
  obtain ⟨hends, rfl⟩ := Token.ending_of_ofString hts'
  obtain ⟨-, body, hbody, rfl⟩ :=
    programOf_concat_iff.mp ((ofStringWithin_iff_programOf hts).mp h)
  have hmoved := programOf_relocate hends rfl ((ofStringWithin_iff_programOf hts').mp h')
    (Position.from ⟨(placeAfter source.toList).line + 1, 1⟩)
  obtain ⟨-, body', hbody', hprogram'⟩ := programOf_concat_iff.mp hmoved
  obtain rfl : program'.children.map (Node.relocate _) = body' := by
    rw [← Node.relocate_children, hprogram']
    rfl
  have hsep : ∀ token ∈ (ts'.map (Token.relocate
      (Position.from ⟨(placeAfter source.toList).line + 1, 1⟩))).head?,
      ts = [] ∨ Separated ts token := by
    intro token hmem
    rw [List.head?_map, Option.mem_def, Option.map_eq_some_iff] at hmem
    obtain ⟨first, hfirst, rfl⟩ := hmem
    rcases hjoin with hts | hts' | hclosed | ⟨first', hfirst', htype⟩
    · exact .inl hts
    · simp [hts'] at hfirst
    · exact .inr fun _ => hclosed
    · obtain rfl := Option.mem_unique hfirst hfirst'
      exact .inr fun hopen => absurd hopen htype
  have hwhole := hbody.append (fun _ _ h => h.starts.ne_nil) hbody' hsep
  have htokens := ofString_append_below hts hts'
  rw [List.map_append, ← List.append_assoc] at htokens
  refine ⟨_, (ofStringWithin_iff_programOf htokens).mpr (.statements hwhole rfl), rfl, ?_,
    fun hne => ?_⟩
  · cases wellFormed_of_ofStringWithin h' with
    | program hbody =>
      rw [← Node.relocateAll_eq_map, Node.equalAll_relocateAll _ fun v _ => Node.equal_relocate _ v]
      exact Node.equalAll_self fun v hmem => (hbody v hmem).equal_self
  · obtain ⟨first, rest, rfl⟩ := List.exists_cons_of_ne_nil hne
    rfl

/-- Behind a semicolon an opening parenthesis starts a statement of its own. -/
theorem concat_of_semicolon : ∃ program program' whole,
    ofStringWithin 3 "f;" none = .ok program ∧ ofStringWithin 3 "(g)" none = .ok program' ∧
      ofStringWithin 3 ("f;" ++ "\n" ++ "(g)") none = .ok whole ∧
      whole.children = program.children ++
        program'.children.map (Node.relocate (Position.from ⟨2, 1⟩)) := by
  have hts : tokens "f;" none = .ok ([⟨.identifier, "f", ⟨1, 1⟩⟩, ⟨.semicolon, ";", ⟨1, 2⟩⟩] ++
      [.ending ⟨1, 3⟩]) := by
    decide +kernel
  have hts' : tokens "(g)" none = .ok ([⟨.openParen, "(", ⟨1, 1⟩⟩, ⟨.identifier, "g", ⟨1, 2⟩⟩,
      ⟨.closeParen, ")", ⟨1, 3⟩⟩] ++ [.ending ⟨1, 4⟩]) := by
    decide +kernel
  obtain ⟨program, h⟩ := @exists_eq_ok_of_isOk _ _ (ofStringWithin 3 "f;" none) (by decide +kernel)
  obtain ⟨program', h'⟩ :=
    @exists_eq_ok_of_isOk _ _ (ofStringWithin 3 "(g)" none) (by decide +kernel)
  obtain ⟨whole, hwhole, hchildren, -, -⟩ :=
    ofStringWithin_concat h h' hts hts' (.inr (.inr (.inl ⟨_, rfl, .inl rfl⟩)))
  exact ⟨program, program', whole, h, h', hwhole, hchildren⟩

end Program

end BoSyntax

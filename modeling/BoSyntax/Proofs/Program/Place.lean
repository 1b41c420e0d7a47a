import BoSyntax.Proofs.Grammar.Place
import BoSyntax.Proofs.Program.Failure

/-!
# Places in a program

Each node of a program starts at a token of its text, so its place is that of some lexeme. Along a
walk of the program places never go back, and from one name or number to the next they go on.
-/

namespace BoSyntax

open BoSyntax.Language

namespace Program

open Rule

variable {limit : Nat} {source : String} {name : Option String} {program : Node}

/-- Where the nodes of a program start. Statements and expressions start at the first token ahead
that is no opening parenthesis, declarations at their keyword, properties at their key and the
program at its first token. In a walk the places of nodes never decrease, those of names and numbers
strictly increase, and each name stands where its symbol is written in the text. -/
theorem ofStringWithin_places (h : ofStringWithin limit source name = .ok program) :
    (∀ depth, ∀ rule ∈ phraseRules depth, ∀ c v d, rule c = .ok v d → v.StartsAt c.leading) ∧
    (∀ depth c v d, c.current.type = .letKeyword ∨ c.current.type = .constKeyword →
      variableDeclaration (expression depth) c = .ok v d → v.StartsAt c.current) ∧
    (∀ depth c v d, c.current.type = .fnKeyword →
      functionDeclaration (expression depth) (statement depth) c = .ok v d →
      v.StartsAt c.current) ∧
    (∀ depth c v d, propertyStep (expression depth) c = .ok (some v) d →
      c.current.type = .identifier ∧ ∃ value, v = .entry c.current.start c.current.lexeme value) ∧
    (∀ c v d, Rule.program limit c = .ok v d → v.start = c.current.start) ∧
    (program.nodes.map Node.start).Pairwise (· ≤ ·) ∧
    ((program.nodes.filter (·.kind.isTerminal)).map Node.start).Pairwise (· < ·) ∧
    ∀ start symbol, .identifier start symbol ∈ program.nodes → ∃ before after,
      source.toList = before ++ symbol.toList ++ after ∧ start = placeAfter before := by
  obtain ⟨ts, stop, htokens, hprogram⟩ := exists_programOf_of_ofStringWithin h
  obtain ⟨hordered, hwritten⟩ := Token.places_of_ofString htokens
  have halong := Language.Program.along (hprogram.imp fun _ _ _ h => ⟨limit, h⟩)
  have hpairwise := halong.ordered hordered
  refine ⟨fun _ _ hrule _ _ _ => startsAt_leading hrule,
    fun _ _ _ _ hkeyword h => startsAt_current_of_declaration (.inl ⟨hkeyword, h⟩),
    fun _ _ _ _ hkeyword h => startsAt_current_of_declaration (.inr ⟨hkeyword, h⟩),
    fun _ _ _ _ => eq_entry_of_propertyStep, fun _ _ _ => start_of_program, ?_, ?_, ?_⟩
  · exact List.pairwise_map.mpr (hpairwise.imp fun h => h.1)
  · refine List.pairwise_map.mpr (List.pairwise_filter.mpr (hpairwise.imp ?_))
    exact fun h hu hv => h.2 hu hv
  · intro start symbol hmem
    obtain ⟨token, htoken, hstart, hname⟩ := halong.exists_token _ hmem
    obtain ⟨htype, rfl⟩ := hname start symbol rfl
    rcases List.mem_append.mp htoken with htoken | hstop
    · obtain ⟨before, after, hsource, hplace⟩ := hwritten token htoken
      exact ⟨before, after, hsource, hstart.trans hplace⟩
    · obtain rfl := List.mem_singleton.mp hstop
      obtain ⟨-, rfl⟩ := Token.ending_of_ofString htokens
      cases htype

/-- In an assignment to a member, with parentheses on both sides, places never decrease. -/
theorem places_of_assignment :
    ∃ program, ofStringWithin 4 "((a).b) = f(1, (c + 2) * d);" none = .ok program ∧
      (program.nodes.map Node.start).Pairwise (· ≤ ·) ∧
      ((program.nodes.filter (·.kind.isTerminal)).map Node.start).Pairwise (· < ·) := by
  obtain ⟨program, h⟩ := @exists_eq_ok_of_isOk _ _
    (ofStringWithin 4 "((a).b) = f(1, (c + 2) * d);" none) (by decide +kernel)
  obtain ⟨-, -, -, -, -, hle, hlt, -⟩ := ofStringWithin_places h
  exact ⟨program, h, hle, hlt⟩

end Program

end BoSyntax

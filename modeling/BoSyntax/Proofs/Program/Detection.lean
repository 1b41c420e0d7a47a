import BoSyntax.Proofs.Grammar.Completion
import BoSyntax.Proofs.Grammar.Locality

/-!
# Where faults are detected

Tokens that form no program are rejected at the first token where this shows. Nothing behind the
cursor is looked at, and what stands before it, if it is plain, is the beginning of a program.
-/

namespace BoSyntax.Program

open BoSyntax.Language BoSyntax.Rule TokenCursor

variable {limit : Nat} {body : List Token} {stop : Token} {d : TokenCursor} {s : List Token}

/-- What was taken is what stands before the position. -/
theorem take_position (hbody : ∀ token ∈ body, token.type ≠ .endOfInput)
    (hstop : stop.type = .endOfInput)
    (hs : (TokenCursor.ofTokens (body ++ [stop])).Takes s d) :
    (body ++ [stop]).take d.position = s := by
  obtain ⟨hahead, -⟩ := ofTokens_concat hbody hstop
  rw [hs.position_eq, ← hahead, hs.ahead, List.append_assoc, List.take_left]

/-- What stands at the position is in sight. -/
theorem getElem?_position (hstop : stop.type = .endOfInput)
    (hs : (TokenCursor.ofTokens (body ++ [stop])).Takes s d) :
    (body ++ [stop])[d.position]? = some d.current := by
  rw [← hs.getElem?_position, Token.complete_concat (stop.isEnd_iff.mpr hstop)]

/-- Any tokens that agree up to the token in sight can be taken alike. -/
theorem exists_takes_of_take_eq (hbody : ∀ token ∈ body, token.type ≠ .endOfInput)
    (hstop : stop.type = .endOfInput)
    (hs : (TokenCursor.ofTokens (body ++ [stop])).Takes s d) {tokens : List Token}
    (htake : tokens.take (d.position + 1) = (body ++ [stop]).take (d.position + 1)) :
    ∃ e, (TokenCursor.ofTokens tokens).Takes s e ∧ e.current = d.current := by
  have hend : ∀ token ∈ s, token.type ≠ .endOfInput := fun token hmem =>
    hbody token ((ofTokens_concat hbody hstop).1 ▸ hs.mem hmem)
  have hfirst : tokens.take (d.position + 1) = s ++ [d.current] := by
    rw [htake, List.take_add_one, take_position hbody hstop hs, getElem?_position hstop hs]
    rfl
  obtain ⟨rest, hcomplete⟩ : ∃ rest, Token.complete tokens = s ++ d.current :: rest := by
    have htokens := List.take_append_drop (d.position + 1) tokens
    rw [hfirst, List.append_assoc] at htokens
    obtain ⟨hcomplete, -⟩ | ⟨last, -, hcomplete⟩ := Token.complete_eq tokens
    · exact ⟨_, by rw [hcomplete, ← htokens, List.singleton_append]⟩
    · exact ⟨_, by rw [hcomplete, ← htokens, List.append_assoc, List.append_assoc,
        List.singleton_append]⟩
  exact exists_takes_of_complete_eq hend hcomplete

/-- Tokens are rejected as early as can be. Any others that agree up to the token in sight are
rejected there with the same objection to the same token. If the token in sight is objected to, and
the tokens before it are plain, then these are the beginning of a program within the same limit. -/
theorem rejects_early (hbody : ∀ token ∈ body, token.type ≠ .endOfInput)
    (hstop : stop.type = .endOfInput) {objection : Objection} {token : Token}
    (hfault : Rule.program limit (.ofTokens (body ++ [stop])) =
      .error (.rejected objection token) d) :
    (∀ tokens, tokens.take (d.position + 1) = (body ++ [stop]).take (d.position + 1) →
      ∃ e, Rule.program limit (.ofTokens tokens) = .error (.rejected objection token) e ∧
        e.position = d.position) ∧
    (objection.isImmediate = true → Plain ((body ++ [stop]).take d.position) →
      (body ++ [stop])[d.position]? = some token ∧
      ∃ rest program, (∀ token ∈ rest, token.type ≠ .endOfInput) ∧
        ofTokens limit ((body ++ [stop]).take d.position ++ rest ++ [stop]) = .ok program) := by
  constructor
  · intro tokens htake
    obtain ⟨s, hs, hsettled⟩ := (program_settled limit _).of_eq_error hfault
    obtain ⟨e, hs', hcurrent⟩ := exists_takes_of_take_eq hbody hstop hs htake
    exact ⟨e, hsettled _ e hs' hcurrent, by rw [hs.position_eq, hs'.position_eq]⟩
  · intro himmediate hplain
    obtain ⟨rfl, s, hs, hbegins⟩ :=
      (program_breaks limit _).of_eq_error hfault objection token rfl himmediate
    rw [take_position hbody hstop hs] at hplain ⊢
    obtain ⟨types, vs, hend, hvs⟩ := hbegins hplain
    have hrest : ∀ token ∈ s ++ types.map .filler, token.type ≠ .endOfInput := by
      intro token hmem
      obtain hmem | hmem := List.mem_append.mp hmem
      · exact hbody token ((ofTokens_concat hbody hstop).1 ▸ hs.mem hmem)
      · obtain ⟨type, htype, rfl⟩ := List.mem_map.mp hmem
        exact fun hinput => hend (hinput ▸ htype)
    have hok := (ofTokens_eq_ok_iff_programOf hrest hstop).mpr
      (programOf_concat_iff.mpr ⟨hstop, vs, hvs, rfl⟩)
    exact ⟨getElem?_position hstop hs, types.map .filler, _,
      fun token hmem => hrest token (List.mem_append_right _ hmem), hok⟩

/-- The tokens of a call with an assignment to an object that is still open. -/
def openCall : List Token :=
  [⟨.identifier, "f", ⟨1, 1⟩⟩, ⟨.openParen, "(", ⟨1, 2⟩⟩, ⟨.identifier, "x", ⟨1, 3⟩⟩,
    ⟨.equals, "=", ⟨1, 5⟩⟩, ⟨.openBrace, "\x7b", ⟨1, 7⟩⟩, ⟨.identifier, "a", ⟨1, 8⟩⟩,
    ⟨.colon, ":", ⟨1, 9⟩⟩, ⟨.identifier, "y", ⟨1, 11⟩⟩]

/-- A call that is closed before the object in it is rejected there, whatever follows, and up to
there it could have become a program. -/
theorem rejects_early_of_openCall :
    (∀ tokens, tokens.take 9 = openCall ++ [⟨.closeParen, ")", ⟨1, 12⟩⟩] →
      ∃ e, Rule.program 4 (.ofTokens tokens) = .error (.rejected
        (.expected "Expected comma or closing brace following property." .comma)
        ⟨.closeParen, ")", ⟨1, 12⟩⟩) e ∧ e.position = 8) ∧
    ∃ rest program, (∀ token ∈ rest, token.type ≠ .endOfInput) ∧
      ofTokens 4 (openCall ++ rest ++ [.ending ⟨1, 13⟩]) = .ok program := by
  have hfault : Rule.program 4
      (.ofTokens (openCall ++ [⟨.closeParen, ")", ⟨1, 12⟩⟩] ++ [.ending ⟨1, 13⟩])) =
      .error (.rejected (.expected "Expected comma or closing brace following property." .comma)
        ⟨.closeParen, ")", ⟨1, 12⟩⟩)
        ⟨[⟨.closeParen, ")", ⟨1, 12⟩⟩], .ending ⟨1, 13⟩, 9, by decide, by decide, by decide⟩ := rfl
  obtain ⟨hothers, hbefore⟩ := rejects_early (by decide) rfl hfault
  exact ⟨hothers, (hbefore rfl (plain_of_forall (by decide))).2⟩

end BoSyntax.Program

import BoSyntax.Program
import BoSyntax.Proofs.Grammar.Completeness

/-!
# Recognition of programs

The rule for programs gives exactly the programs that the grammar derives from a list of tokens, and
it objects to one of the tokens when there is none. With a limit to the nesting these are the
programs within that limit, and a limit beyond the number of tokens is none.
-/

namespace BoSyntax

open BoSyntax.Language TokenCursor

/-! ## The cursor at the start -/

/-- A completed list has an end of input: an old one, or a new one behind all tokens. -/
theorem Token.complete_eq (tokens : List Token) :
    (Token.complete tokens = tokens ∧ ∃ token ∈ tokens, token.isEnd = true) ∨
      ∃ stop, stop.isEnd = true ∧ Token.complete tokens = tokens ++ [stop] := by
  cases hlast : tokens.getLast? with
  | none =>
    rw [List.getLast?_eq_none_iff] at hlast
    exact .inr ⟨.ending ⟨1, 1⟩, rfl, by rw [hlast]; rfl⟩
  | some last =>
    by_cases hend : last.isEnd = true
    · refine .inl ⟨by simp [Token.complete, hlast, hend], last, ?_, hend⟩
      exact List.mem_of_getLast? hlast
    · exact .inr ⟨_, rfl, by simp only [Token.complete, hlast, hend]; rfl⟩

/-- Nothing is put behind an end of input. -/
theorem Token.complete_concat {body : List Token} {stop : Token} (h : stop.isEnd = true) :
    complete (body ++ [stop]) = body ++ [stop] := by
  simp [complete, h]

/-- Completed tokens end with an end of input. -/
theorem Token.exists_complete_concat (tokens : List Token) :
    ∃ body stop, stop.isEnd = true ∧ complete tokens = body ++ [stop] := by
  unfold complete
  cases hlast : tokens.getLast? with
  | none => exact ⟨[], _, rfl, rfl⟩
  | some last =>
    cases hend : last.isEnd with
    | true =>
      obtain ⟨body, rfl⟩ := List.getLast?_eq_some_iff.mp hlast
      exact ⟨body, last, hend, by simp [hend]⟩
    | false => exact ⟨tokens, .ending _, rfl, by simp only [hend]; rfl⟩

/-- Completed tokens are complete. -/
theorem Token.complete_complete (tokens : List Token) :
    complete (complete tokens) = complete tokens := by
  obtain ⟨body, stop, hstop, hcomplete⟩ := exists_complete_concat tokens
  rw [hcomplete, complete_concat hstop]

namespace TokenCursor

/-- The first end of input divides a completed list. -/
theorem exists_complete_eq (tokens : List Token) :
    ∃ before stop after, Token.complete tokens = before ++ stop :: after ∧
      stop.isEnd = true ∧ ∀ token ∈ before, token.isEnd = false := by
  have hend : ∃ token ∈ Token.complete tokens, token.isEnd = true := by
    obtain ⟨heq, h⟩ | ⟨stop, hstop, heq⟩ := Token.complete_eq tokens
    · rwa [heq]
    · exact ⟨stop, by simp [heq], hstop⟩
  obtain ⟨stop, hfind⟩ := Option.isSome_iff_exists.mp (List.find?_isSome.mpr hend)
  obtain ⟨hstop, before, after, heq, hbefore⟩ := List.find?_eq_some_iff_append.mp hfind
  exact ⟨before, stop, after, heq, hstop, by simpa using hbefore⟩

/-- A cursor starts with the tokens before the first end of input. -/
theorem ofTokens_of_complete_eq {tokens before after : List Token} {stop : Token}
    (hcomplete : Token.complete tokens = before ++ stop :: after) (hstop : stop.isEnd = true)
    (hbefore : ∀ token ∈ before, token.isEnd = false) :
    (ofTokens tokens).ahead = before ∧ (ofTokens tokens).stop = stop := by
  have htake : (before ++ stop :: after).takeWhile (fun token => !token.isEnd) = before := by
    rw [List.takeWhile_append_of_pos (by simpa using hbefore),
      List.takeWhile_cons_of_neg (by simp [hstop]), List.append_nil]
  constructor
  · rw [← htake, ← hcomplete]
    obtain ⟨heq, -⟩ | ⟨stop, hstop, heq⟩ := Token.complete_eq tokens
    · rw [heq]
      rfl
    · rw [heq, List.takeWhile_append]
      split
      next hlength =>
        have hprefix := List.takeWhile_prefix (l := tokens) fun token => !token.isEnd
        have hall := hprefix.eq_of_length hlength
        simp [ofTokens, hall, hstop]
      next => rfl
  · have hfind : (Token.complete tokens).find? Token.isEnd = some stop :=
      List.find?_eq_some_iff_append.mpr ⟨hstop, before, after, hcomplete, by simpa using hbefore⟩
    simp [ofTokens, hfind]

/-- It makes no difference to a cursor whether tokens are completed before. -/
theorem ofTokens_complete (tokens : List Token) :
    ofTokens (Token.complete tokens) = ofTokens tokens := by
  obtain ⟨before, stop, after, hcomplete, hstop, hbefore⟩ := exists_complete_eq tokens
  obtain ⟨hahead, hlast⟩ := ofTokens_of_complete_eq hcomplete hstop hbefore
  obtain ⟨hahead', hlast'⟩ :=
    ofTokens_of_complete_eq ((Token.complete_complete tokens).trans hcomplete) hstop hbefore
  exact eq_of_ahead (hahead'.trans hahead.symm) (hlast'.trans hlast.symm)
    (congrArg List.length (hahead'.trans hahead.symm))

/-- A list that ends in its only end of input is read as it is. -/
theorem ofTokens_concat {body : List Token} {stop : Token}
    (hbody : ∀ token ∈ body, token.type ≠ .endOfInput) (hstop : stop.type = .endOfInput) :
    (ofTokens (body ++ [stop])).ahead = body ∧ (ofTokens (body ++ [stop])).stop = stop := by
  rw [← Token.isEnd_iff] at hstop
  exact ofTokens_of_complete_eq (Token.complete_concat hstop) hstop fun token hmem =>
    token.isEnd_eq_false_iff.mpr (hbody token hmem)

/-- The position is the number of tokens that were taken since the start. -/
theorem Takes.position_eq {tokens s : List Token} {d : TokenCursor}
    (h : (ofTokens tokens).Takes s d) : d.position = s.length := by
  have hstart : (ofTokens tokens).position = 0 := Nat.sub_self _
  rw [h.position_eq_add, hstart, Nat.zero_add]

/-- The cursor never leaves the completed list: what is in sight stands there at its position. -/
theorem Takes.getElem?_position {tokens s : List Token} {d : TokenCursor}
    (h : (ofTokens tokens).Takes s d) : (Token.complete tokens)[d.position]? = some d.current := by
  obtain ⟨before, stop, after, hcomplete, hstop, hbefore⟩ := exists_complete_eq tokens
  obtain ⟨hahead, hstop'⟩ := ofTokens_of_complete_eq hcomplete hstop hbefore
  have hbefore : before = s ++ d.ahead := hahead ▸ h.ahead
  rw [hcomplete, h.position_eq, hbefore, List.append_assoc,
    List.getElem?_append_right (Nat.le_refl _), Nat.sub_self, ← List.head?_eq_getElem?,
    TokenCursor.current, h.stop, hstop']
  cases d.ahead <;> rfl

/-- Tokens that a completed list begins with can be taken, and then the next one is in sight. -/
theorem exists_takes_of_complete_eq {tokens s rest : List Token} {token : Token}
    (hs : ∀ token ∈ s, token.type ≠ .endOfInput)
    (hcomplete : Token.complete tokens = s ++ token :: rest) :
    ∃ d, (ofTokens tokens).Takes s d ∧ d.current = token := by
  obtain ⟨before, stop, after, heq, hstop, hbefore⟩ := exists_complete_eq tokens
  obtain ⟨hahead, hlast⟩ := ofTokens_of_complete_eq heq hstop hbefore
  rw [hcomplete] at heq
  -- The first end of input stands behind the segment.
  obtain ⟨more, rfl, hmore⟩ :
      ∃ more, before = s ++ more ∧ token :: rest = more ++ stop :: after := by
    obtain h | ⟨_ | ⟨first, more⟩, rfl, hmore⟩ := List.append_eq_append_iff.mp heq
    · exact h
    · exact ⟨[], by simp, hmore.symm⟩
    · obtain ⟨rfl, -⟩ := List.cons_eq_cons.mp hmore
      exact absurd (stop.isEnd_iff.mp hstop) (hs stop (by simp))
  obtain ⟨d, htakes, hrest⟩ := exists_takes hahead
  refine ⟨d, htakes, ?_⟩
  rw [current, hrest, htakes.stop, hlast]
  cases more <;> simp_all

/-- All tokens ahead can be taken, and then the end of input is in sight. -/
theorem exists_takes_ahead (c : TokenCursor) : ∃ d, c.Takes c.ahead d ∧ d.current = c.stop := by
  obtain ⟨d, hs, hrest⟩ := exists_takes (List.append_nil c.ahead).symm
  exact ⟨d, hs, by rw [current, hrest, hs.stop, List.headD_nil]⟩

/-- All tokens before the only end of input can be taken, and then it is in sight. -/
theorem exists_takes_body {body : List Token} {stop : Token}
    (hbody : ∀ token ∈ body, token.type ≠ .endOfInput) (hstop : stop.type = .endOfInput) :
    ∃ d, (ofTokens (body ++ [stop])).Takes body d ∧ d.current = stop := by
  obtain ⟨hahead, hlast⟩ := ofTokens_concat hbody hstop
  obtain ⟨d, hs, hcurrent⟩ := exists_takes_ahead (.ofTokens (body ++ [stop]))
  rw [hahead] at hs
  rw [hlast] at hcurrent
  exact ⟨d, hs, hcurrent⟩

end TokenCursor

/-! ## Programs -/

namespace Program

variable {limit : Nat} {tokens body : List Token} {stop : Token} {program : Node}

/-- Tokens form a program when the rule for programs gives it. -/
theorem ofTokens_eq_ok_iff :
    ofTokens limit tokens = .ok program ↔
      ∃ d, Rule.program limit (.ofTokens tokens) = .ok program d := by
  unfold ofTokens
  cases Rule.program limit (.ofTokens tokens) <;> simp

/-- Tokens form no program when the rule for programs meets a fault. -/
theorem ofTokens_eq_error_iff {fault : ParseFault} :
    ofTokens limit tokens = .error fault ↔
      ∃ d, Rule.program limit (.ofTokens tokens) = .error fault d := by
  unfold ofTokens
  cases Rule.program limit (.ofTokens tokens) <;> simp

/-- Every fault of tokens is justified by them. -/
theorem justified_of_ofTokens_eq_error {fault : ParseFault}
    (h : ofTokens limit tokens = .error fault) :
    ∃ d, fault.Justified limit (.ofTokens tokens) d := by
  obtain ⟨d, h⟩ := ofTokens_eq_error_iff.mp h
  exact ⟨d, (Rule.program_reads limit _).of_eq_error h⟩

/-- Tokens that nest too deeply are objected to. -/
theorem ofTokens_ne_exhausted : ofTokens limit tokens ≠ .error .exhausted := by
  intro h
  obtain ⟨d, h⟩ := ofTokens_eq_error_iff.mp h
  exact Rule.program_ne_exhausted limit _ d h

/-- The programs that tokens form within a limit are made of statements within it. -/
theorem ofTokens_eq_ok_iff_statements :
    ofTokens limit tokens = .ok program ↔
      ∃ vs, Statements (StatementWithin limit) (TokenCursor.ofTokens tokens).ahead vs ∧
        program = .program (TokenCursor.ofTokens tokens).current.start vs := by
  rw [ofTokens_eq_ok_iff]
  constructor
  · rintro ⟨d, h⟩
    obtain ⟨s, hs, htype, vs, hvs, rfl⟩ := (Rule.program_reads limit).of_eq_ok h
    have hrest : d.ahead = [] := d.current_type_eq_endOfInput_iff.mp htype
    obtain rfl : (TokenCursor.ofTokens tokens).ahead = s := by
      rw [hs.ahead, hrest, List.append_nil]
    exact ⟨vs, hvs, by rw [hs.current]⟩
  · rintro ⟨vs, hvs, rfl⟩
    obtain ⟨d, htakes, hcurrent⟩ := exists_takes_ahead (.ofTokens tokens)
    have hstop : d.current.type = .endOfInput := by
      rw [hcurrent, ← Token.isEnd_iff]
      exact TokenCursor.stop_isEnd _
    exact ⟨d, htakes.current ▸ Rule.program_accepts hvs htakes hstop⟩

/-- The programs that tokens form within a limit are those that the grammar derives within it. -/
theorem ofTokens_eq_ok_iff_programOf (hbody : ∀ token ∈ body, token.type ≠ .endOfInput)
    (hstop : stop.type = .endOfInput) :
    ofTokens limit (body ++ [stop]) = .ok program ↔
      ProgramOf (StatementWithin limit) (body ++ [stop]) program := by
  obtain ⟨hahead, hlast⟩ := ofTokens_concat hbody hstop
  rw [ofTokens_eq_ok_iff_statements, programOf_concat_iff, current, hahead, hlast]
  exact (and_iff_right hstop).symm

/-- A limit beyond the number of tokens before the end of input is none. -/
theorem programOf_iff_program (hlimit : body.length < limit) :
    ProgramOf (StatementWithin limit) (body ++ [stop]) program ↔
      Language.Program (body ++ [stop]) program := by
  constructor
  · exact fun h => h.imp fun _ _ _ h => ⟨limit, h⟩
  · refine fun h => h.imp fun s v hlength h => ?_
    obtain ⟨depth, h⟩ := h
    refine h.of_length.mono ?_
    simp only [List.length_append, List.length_singleton] at hlength
    omega

/-- The tokens of a program are read as it, and one of the tokens is objected to when there is no
program: for every list that ends in its only end of input and whose numbers can be read, when the
limit is beyond the number of tokens. -/
theorem ofTokens_recognizes (hbody : ∀ token ∈ body, token.type ≠ .endOfInput)
    (hstop : stop.type = .endOfInput)
    (hnumbers : ∀ token ∈ body, token.type = .number → (Binary64.read? token.lexeme).isSome = true)
    (hlimit : body.length < limit) :
    (∀ program, ofTokens limit (body ++ [stop]) = .ok program ↔
      Language.Program (body ++ [stop]) program) ∧
    ((¬∃ program, Language.Program (body ++ [stop]) program) →
      ∃ objection, ∃ token ∈ body ++ [stop], objection ≠ .tooDeep ∧
        ofTokens limit (body ++ [stop]) = .error (.rejected objection token)) := by
  have hiff : ∀ program, ofTokens limit (body ++ [stop]) = .ok program ↔
      Language.Program (body ++ [stop]) program := fun program =>
    (ofTokens_eq_ok_iff_programOf hbody hstop).trans (programOf_iff_program hlimit)
  refine ⟨hiff, fun hnone => ?_⟩
  obtain ⟨hahead, hlast⟩ := ofTokens_concat hbody hstop
  cases heq : ofTokens limit (body ++ [stop]) with
  | ok program => exact absurd ⟨program, (hiff program).mp heq⟩ hnone
  | error fault =>
    obtain ⟨d, hfault⟩ := justified_of_ofTokens_eq_error heq
    cases fault with
    | rejected objection token =>
      obtain ⟨⟨s, hs, htoken⟩, hdeep⟩ := hfault
      refine ⟨objection, token, ?_, fun hobjection => ?_, rfl⟩
      · have hmem := hs.mem_concat htoken
        rwa [hahead, hlast] at hmem
      · have hle := hdeep hobjection
        rw [hahead] at hle
        omega
    | malformedNumber lexeme =>
      obtain ⟨s, hs, token, hmem, htype, rfl, hread⟩ := hfault
      have hsome := hnumbers token (hahead ▸ hs.mem hmem) htype
      rw [hread] at hsome
      simp at hsome
    | invalidNode fault => exact hfault.elim
    | exhausted => exact absurd heq ofTokens_ne_exhausted

/-- The tokens of an assignment are read, so the grammar derives a program from them. -/
theorem program_of_assignment :
    ∃ program, Language.Program ([⟨.identifier, "x", ⟨1, 1⟩⟩, ⟨.equals, "=", ⟨1, 3⟩⟩,
      ⟨.number, "1", ⟨1, 5⟩⟩] ++ [.ending ⟨1, 6⟩]) program := by
  have hrecognizes := @ofTokens_recognizes 4 [⟨.identifier, "x", ⟨1, 1⟩⟩, ⟨.equals, "=", ⟨1, 3⟩⟩,
    ⟨.number, "1", ⟨1, 5⟩⟩] (.ending ⟨1, 6⟩) (by decide) rfl (by decide +kernel) (by decide)
  have hok : (ofTokens 4 [⟨.identifier, "x", ⟨1, 1⟩⟩, ⟨.equals, "=", ⟨1, 3⟩⟩,
      ⟨.number, "1", ⟨1, 5⟩⟩, .ending ⟨1, 6⟩]).isOk = true := by decide +kernel
  by_contra hnone
  obtain ⟨_, _, _, _, herror⟩ := hrecognizes.2 hnone
  rw [List.cons_append, List.cons_append, List.cons_append, List.nil_append] at herror
  rw [herror] at hok
  cases hok

end Program

end BoSyntax

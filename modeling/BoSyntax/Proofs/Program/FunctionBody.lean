import BoSyntax.Proofs.Program.Concatenation
import BoSyntax.Proofs.Program.Trimming

/-!
# Bodies of programs and of functions

The statements of a program end at the end of input and those of a function at a closing brace, but
they are the same statements. So a text is a program exactly when the braces of a function can be
put around it, with one more level of nesting.
-/

namespace BoSyntax

open BoSyntax.Language Text

namespace Language

/-- What starts with the keyword of functions and makes a function is the declaration of it. -/
theorem StatementForm.exists_of_function {E P S : Language Node} {s : List Token}
    {start : Position} {symbol : String} {parameters : List String} {body : List Node}
    (h : StatementForm E P S s (.function start symbol parameters body))
    (hE : ∀ t w, E t w → Starts expressionStarts t) (hstarts : Starts [.fnKeyword] s) :
    ∃ keyword name t opening u closing args,
      s = keyword :: name :: (t ++ opening :: (u ++ [closing])) ∧ start = keyword.start ∧
        symbol = name.lexeme ∧ Arguments P t args ∧ List.Forall₂ IsName args parameters ∧
        Statements S u body := by
  have hnot : ∀ t : List Token, Starts expressionStarts t → ¬Starts [.fnKeyword] t := by
    rintro t ⟨token, hmem, htype⟩ ⟨token', hmem', hkeyword⟩
    obtain rfl := Option.mem_unique hmem hmem'
    rw [List.mem_singleton.mp hkeyword] at htype
    simp [expressionStarts, sumStarts] at htype
  cases h with
  | function _ _ hargs hnames _ hbody _ =>
    exact ⟨_, _, _, _, _, _, _, rfl, rfl, rfl, hargs, hnames, hbody⟩
  | expression h => exact absurd hstarts (hnot _ (hE _ _ h))
  | terminated h _ => exact absurd hstarts (hnot _ (hE _ _ h).append)

/-- Arguments for no names are a pair of parentheses. -/
theorem Arguments.exists_of_nil {P : Language Node} {s : List Token} {args : List Node}
    (h : Arguments P s args) (hnames : List.Forall₂ IsName args []) :
    ∃ opening closing, s = [opening, closing] := by
  cases hnames
  cases h with
  | none _ _ => exact ⟨_, _, rfl⟩
  | some _ h _ => cases h

/-- A function without parameters is one statement exactly when what stands between its braces is
statements of one level less. -/
theorem statements_function_iff {depth : Nat} {keyword name opening closing brace last : Token}
    {s : List Token} {body : List Node} {start : Position} {symbol : String}
    (hkeyword : keyword.type = .fnKeyword) (hname : name.type = .identifier)
    (hopening : opening.type = .openParen) (hclosing : closing.type = .closeParen)
    (hbrace : brace.type = .openBrace) (hlast : last.type = .closeBrace) :
    Statements (StatementWithin (depth + 1))
        (keyword :: name :: ([opening, closing] ++ brace :: (s ++ [last])))
        [.function start symbol [] body] ↔
      start = keyword.start ∧ symbol = name.lexeme ∧ Statements (StatementWithin depth) s body := by
  constructor
  · intro h
    generalize htokens : keyword :: name :: ([opening, closing] ++ brace :: (s ++ [last])) = tokens
      at h
    obtain _ | ⟨hfirst, hrest, -⟩ := h
    cases hrest
    rw [List.append_nil] at htokens
    subst htokens
    obtain ⟨keyword, name, t, brace, u, last, args, htokens, rfl, rfl, hargs, hnames, hbody⟩ :=
      StatementForm.exists_of_function hfirst (fun _ _ h => h.starts)
        (starts_cons_iff.mpr (by simp [hkeyword]))
    obtain ⟨opening, closing, rfl⟩ := hargs.exists_of_nil hnames
    simp only [List.cons_append, List.nil_append, List.cons.injEq] at htokens
    obtain ⟨rfl, rfl, rfl, rfl, rfl, hrest⟩ := htokens
    obtain ⟨rfl, -⟩ := List.append_inj' hrest rfl
    exact ⟨rfl, rfl, hbody⟩
  · rintro ⟨rfl, rfl, h⟩
    have hfunction : StatementWithin (depth + 1) _ _ :=
      .function hkeyword hname (.none hopening hclosing) .nil hbrace h hlast
    simpa using Statements.more hfunction .none (by simp)

end Language

namespace Program

variable {limit : Nat} {source : String} {name : Option String} {ts : List Token}
  {place start : Position} {program whole : Node} {inner : List Node}

/-- A text between the braces of a function without parameters. -/
def inFunction (source : String) : String :=
  "fn f() \x7b" ++ source ++ "\x7d"

/-- The tokens before the body of that function. -/
def functionHead : List Token :=
  [⟨.fnKeyword, "fn", ⟨1, 1⟩⟩, ⟨.identifier, "f", ⟨1, 4⟩⟩, ⟨.openParen, "(", ⟨1, 5⟩⟩,
    ⟨.closeParen, ")", ⟨1, 6⟩⟩, ⟨.openBrace, "\x7b", ⟨1, 8⟩⟩]

/-- Where a place of a text is between the braces of the function. -/
def placeInFunction : Position → Position :=
  Position.from ⟨1, 9⟩

/-- The tokens of a text stand between those of the function. -/
theorem ofString_inFunction (hts : Token.ofString source = .ok (ts ++ [.ending place])) :
    ∃ last stop, last.type = .closeBrace ∧ stop.type = .endOfInput ∧
      Token.ofString (inFunction source) =
        .ok (functionHead ++ ts.map (Token.relocate placeInFunction) ++ [last] ++ [stop]) := by
  have hhead : Token.ofString "fn f() \x7b" = .ok (functionHead ++ [.ending ⟨1, 9⟩]) := by
    decide +kernel
  have hlast : Token.ofString "\x7d" =
      .ok ([⟨.closeBrace, "\x7d", ⟨1, 1⟩⟩] ++ [.ending ⟨1, 2⟩]) := by
    decide +kernel
  have hopen := Token.ofString_append hhead hts
    (apart_of_punctuation (.inl (by simp [punctuation])))
  have hclose := Token.ofString_append hopen hlast
    (apart_of_punctuation (.inr (by simp [punctuation])))
  exact ⟨_, _, rfl, rfl, hclose⟩

/-- Statements in the function are the only statement of a program, one level up. -/
theorem statements_inFunction_iff {s : List Token} {last : Token}
    (hlast : last.type = .closeBrace) :
    Statements (StatementWithin (limit + 1)) (functionHead ++ s ++ [last])
        [.function start "f" [] inner] ↔
      start = ⟨1, 1⟩ ∧ Statements (StatementWithin limit) s inner := by
  have hiff := @statements_function_iff limit ⟨.fnKeyword, "fn", ⟨1, 1⟩⟩
    ⟨.identifier, "f", ⟨1, 4⟩⟩ ⟨.openParen, "(", ⟨1, 5⟩⟩ ⟨.closeParen, ")", ⟨1, 6⟩⟩
    ⟨.openBrace, "\x7b", ⟨1, 8⟩⟩ last s inner start "f" rfl rfl rfl rfl rfl hlast
  simpa [functionHead] using hiff

/-- The body of a program is a body of a function, at other places. -/
theorem exists_inFunction (h : ofStringWithin limit source name = .ok program) :
    ∃ whole, ofStringWithin (limit + 1) (inFunction source) name = .ok whole ∧
      whole.children =
        [.function ⟨1, 1⟩ "f" [] (program.children.map (Node.relocate placeInFunction))] := by
  obtain ⟨ts, stop, hts, hprogram⟩ := exists_programOf_of_ofStringWithin h
  obtain ⟨hends, rfl⟩ := Token.ending_of_ofString hts
  obtain ⟨last, stop, hlast, hstop, htokens⟩ := ofString_inFunction hts
  have hmoved := programOf_relocate hends rfl hprogram placeInFunction
  obtain ⟨-, body, hbody, hroot⟩ := programOf_concat_iff.mp hmoved
  have hchildren := congrArg Node.children hroot
  rw [Node.relocate_children] at hchildren
  have hstatements := (statements_inFunction_iff hlast).mpr ⟨rfl, hbody⟩
  refine ⟨_, (ofStringWithin_iff_programOf htokens).mpr (.statements hstatements hstop), ?_⟩
  rw [hchildren]
  rfl

/-- The body of the function is the body of a program, at other places. -/
theorem exists_of_inFunction (h : ofStringWithin (limit + 1) (inFunction source) name = .ok whole)
    (hchildren : whole.children = [.function start "f" [] inner]) :
    ∃ program, ofStringWithin limit source name = .ok program ∧
      inner = program.children.map (Node.relocate placeInFunction) := by
  obtain ⟨_, _, htokens, -⟩ := exists_programOf_of_ofStringWithin h
  have hlegal : ∀ c ∈ source.toList, Legal c := fun c hmem =>
    Token.legal_of_ofString htokens c (by simp [inFunction, hmem])
  obtain ⟨ts, place, hts⟩ := Token.ofString_of_legal hlegal
  obtain ⟨hends, -⟩ := Token.ending_of_ofString hts
  obtain ⟨last, stop, hlast, hstop, htokens⟩ := ofString_inFunction hts
  obtain ⟨-, body, hbody, rfl⟩ :=
    programOf_concat_iff.mp ((ofStringWithin_iff_programOf htokens).mp h)
  obtain rfl : body = [.function start "f" [] inner] := hchildren
  obtain ⟨-, hinner⟩ := (statements_inFunction_iff hlast).mp hbody
  -- The moved tokens are read like those of the text, so they come from a program of it.
  have hend : ∃ token ∈ ts ++ [Token.ending place], token.isEnd = true :=
    ⟨.ending place, by simp, rfl⟩
  have hmoved : ∀ token ∈ ts.map (Token.relocate placeInFunction), token.type ≠ .endOfInput :=
    fun token hmem => by
      obtain ⟨old, hold, rfl⟩ := List.mem_map.mp hmem
      exact hends old hold
  have hread := @ofTokens_relocate limit _ placeInFunction hend
  rw [List.map_append, List.map_singleton,
    (ofTokens_eq_ok_iff_programOf hmoved rfl).mpr (.statements hinner rfl)] at hread
  cases hprogram : ofTokens limit (ts ++ [.ending place]) with
  | error fault =>
    rw [hprogram] at hread
    cases hread
  | ok program =>
    rw [hprogram] at hread
    refine ⟨program, by rw [ofStringWithin_of_tokens hts, hprogram]; rfl, ?_⟩
    rw [← Node.relocate_children, ← Except.ok.inj hread]
    rfl

/-- A text is a program with a certain body exactly when the text between the braces of a function
without parameters is a program made of that function, with the same body and one more level of
nesting. -/
theorem ofStringWithin_inFunction (limit : Nat) (source : String) (name : Option String)
    (body : List Node) :
    (∃ program, ofStringWithin limit source name = .ok program ∧
        Node.equalAll program.children body = true) ↔
      ∃ whole start inner, ofStringWithin (limit + 1) (inFunction source) name = .ok whole ∧
        whole.children = [.function start "f" [] inner] ∧
        Node.equalAll inner body = true := by
  have hequal : ∀ nodes, Node.equalAll (nodes.map (Node.relocate placeInFunction)) body =
      Node.equalAll nodes body := fun nodes => by
    rw [← Node.relocateAll_eq_map, Node.equalAll_relocateAll _ fun v _ => Node.equal_relocate _ v]
  constructor
  · rintro ⟨program, h, hbody⟩
    obtain ⟨whole, hwhole, hchildren⟩ := exists_inFunction h
    exact ⟨whole, _, _, hwhole, hchildren, (hequal _).trans hbody⟩
  · rintro ⟨whole, start, inner, h, hchildren, hbody⟩
    obtain ⟨program, hprogram, rfl⟩ := exists_of_inFunction h hchildren
    exact ⟨program, hprogram, (hequal _).symm.trans hbody⟩

end Program

end BoSyntax

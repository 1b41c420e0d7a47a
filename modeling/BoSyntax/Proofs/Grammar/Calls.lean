import BoSyntax.Grammar.Parser
import BoSyntax.Proofs.Grammar.Progress
import BoSyntax.Proofs.Grammar.Recognition

/-!
# What a parser keeps through all calls

A parser can be looked at, moved on and told to read any part of the grammar, in any order and also
after a failure. All that a call ever does to it is to take a segment of its tokens. So the list
stays the same, the position only grows, and it never passes the first end of input.
-/

namespace BoSyntax

/-! ## Tokens behind the cursor -/

namespace TokenCursor

variable {tokens s : List Token} {d : TokenCursor} {token : Token}

/-- What is taken and what is still ahead stand before the first end of input. -/
theorem Takes.findIdx_eq (h : (ofTokens tokens).Takes s d) :
    (Token.complete tokens).findIdx Token.isEnd = s.length + d.ahead.length := by
  obtain ⟨before, stop, after, hcomplete, hstop, hbefore⟩ := exists_complete_eq tokens
  obtain ⟨hahead, -⟩ := ofTokens_of_complete_eq hcomplete hstop hbefore
  have hnone : before.findIdx Token.isEnd = before.length :=
    List.findIdx_eq_length_of_false hbefore
  rw [← h.length, hahead, hcomplete, List.findIdx_append, hnone, if_neg (lt_irrefl _),
    List.findIdx_cons, hstop, cond_true, Nat.zero_add]

/-- A token that was taken stands behind the cursor. -/
theorem Takes.exists_getElem?_eq (h : (ofTokens tokens).Takes s d) (hmem : token ∈ s) :
    ∃ place < d.position, (Token.complete tokens)[place]? = some token := by
  obtain ⟨before, stop, after, hcomplete, hstop, hbefore⟩ := exists_complete_eq tokens
  obtain ⟨hahead, -⟩ := ofTokens_of_complete_eq hcomplete hstop hbefore
  obtain ⟨place, hplace, rfl⟩ := List.getElem_of_mem hmem
  refine ⟨place, h.position_eq ▸ hplace, ?_⟩
  rw [hcomplete, ← hahead, h.ahead, List.append_assoc, List.getElem?_append_left hplace,
    List.getElem?_eq_getElem hplace]

end TokenCursor

namespace Parser

open Rule TokenCursor

/-! ## Calls -/

/-- The parts of the grammar that can be read on their own. -/
inductive Part where
  | program
  | statement
  | variableDeclaration
  | functionDeclaration
  | expression
  | object
  | additive
  | multiplicative
  | callMember
  | call (callee : Node)
  | arguments
  | argumentList
  | member
  | primary

/-- A rule for one node as a rule for a list of nodes. -/
def one (rule : Rule Node) : Rule (List Node) :=
  (fun node => [node]) <$> rule

/-- The rule that reads a part whose nesting is within a limit. -/
def Part.rule (limit : Nat) : Part → Rule (List Node)
  | .program => one (Rule.program limit)
  | .statement => one (Rule.statement limit)
  | .variableDeclaration => one (Rule.variableDeclaration (Rule.expression limit))
  | .functionDeclaration =>
    one (Rule.functionDeclaration (Rule.expression limit) (Rule.statement limit))
  | .expression => one (Rule.expression limit)
  | .object => one (Rule.object (Rule.expression limit))
  | .additive => one (Rule.additive (Rule.expression limit))
  | .multiplicative => one (Rule.multiplicative (Rule.expression limit))
  | .callMember => one (Rule.callMember (Rule.expression limit))
  | .call callee => one (Rule.call (Rule.expression limit) callee)
  | .arguments => Rule.arguments (Rule.expression limit)
  | .argumentList => Rule.argumentList (Rule.expression limit)
  | .member => one (Rule.member (Rule.expression limit))
  | .primary => one (Rule.primary (Rule.expression limit))

/-- How many tokens a part has at least. -/
def Part.least : Part → Nat
  | .program => 0
  | .call _ | .arguments => 2
  | _ => 1

/-- The calls by which a parser can be looked at and moved on. -/
inductive Call where
  | current
  | peek (distance : Int)
  | notAtEnd
  | report (message : String) (token : Option Token)
  | advance
  | expect (type : TokenType) (purpose : String)
  | read (part : Part)

/-- What a call is answered with. -/
inductive Answer where
  | token (token : Token)
  | truth (holds : Bool)
  | report (diagnostic : Diagnostic)
  | nodes (nodes : List Node)

/-- Why a call is not answered. -/
inductive Trouble where
  | index (fault : IndexFault)
  | failure (failure : Failure)

variable {α : Type}

/-- Answers with what a rule gives. -/
def answer (parser : Parser) (wrap : α → Answer) (rule : Rule α) :
    Except Trouble Answer × Parser :=
  let (result, parser) := parser.apply rule
  ((result.map wrap).mapError .failure, parser)

/-- Answers a call. -/
def perform (limit : Nat) (parser : Parser) : Call → Except Trouble Answer × Parser
  | .current => (.ok (.token parser.current), parser)
  | .peek distance => (((parser.peek distance).map .token).mapError .index, parser)
  | .notAtEnd => (.ok (.truth parser.notAtEnd), parser)
  | .report message token => (.ok (.report (parser.report message token)), parser)
  | .advance => parser.answer .token Rule.advance
  | .expect type purpose => parser.answer .token (Rule.expect type purpose)
  | .read part => parser.answer .nodes (part.rule limit)

/-- Answers calls one after the other, each from where the one before left the parser. -/
def performAll (limit : Nat) : List Call → Parser → List (Except Trouble Answer) × Parser
  | [], parser => ([], parser)
  | call :: calls, parser =>
    let (answer, parser) := parser.perform limit call
    let (answers, parser) := performAll limit calls parser
    (answer :: answers, parser)

/-! ## What a call does -/

/-- From one parser to a later one tokens are taken, and nothing else changes. -/
structure LeadsTo (parser later : Parser) : Prop where
  tokens : later.tokens = parser.tokens
  source : later.source = parser.source
  takes : ∃ s, parser.cursor.Takes s later.cursor

variable {limit least : Nat} {parser later : Parser} {tokens : List Token} {source : Option String}

/-- A parser leads to itself. -/
theorem LeadsTo.refl (parser : Parser) : parser.LeadsTo parser :=
  ⟨rfl, rfl, [], .refl _⟩

/-- What a later parser leads to, an earlier one leads to as well. -/
theorem LeadsTo.trans {last : Parser} (h : parser.LeadsTo later) (h' : later.LeadsTo last) :
    parser.LeadsTo last := by
  obtain ⟨s, hs⟩ := h.takes
  obtain ⟨t, ht⟩ := h'.takes
  exact ⟨h'.tokens.trans h.tokens, h'.source.trans h.source, s ++ t, hs.trans ht⟩

/-- The position does not decrease. -/
theorem LeadsTo.position_le (h : parser.LeadsTo later) : parser.position ≤ later.position := by
  obtain ⟨s, hs⟩ := h.takes
  rw [position, position, hs.position_eq_add]
  exact Nat.le_add_right _ _

/-- Each part takes as many tokens as it has at least. -/
theorem Part.takesAtLeast (part : Part) : (part.rule limit).TakesAtLeast part.least := by
  cases part with
  | program => exact program_takesAtLeast.map _
  | statement => exact statement_takesAtLeast.map _
  | variableDeclaration => exact variableDeclaration_takesAtLeast.map _
  | functionDeclaration => exact functionDeclaration_takesAtLeast.map _
  | expression => exact expression_takesAtLeast.map _
  | object => exact object_takesAtLeast.map _
  | additive => exact additive_takesAtLeast.map _
  | multiplicative => exact multiplicative_takesAtLeast.map _
  | callMember => exact callMember_takesAtLeast.map _
  | call callee => exact (call_takesAtLeast callee).map _
  | arguments => exact arguments_takesAtLeast
  | argumentList => exact argumentList_takesAtLeast
  | member => exact member_takesAtLeast.map _
  | primary => exact primary_takesAtLeast.map _

/-- To advance may take nothing, as it does at the end. -/
theorem advance_takesAtLeast : Rule.advance.TakesAtLeast 0 := by
  intro c
  obtain ⟨s, hs⟩ := c.exists_takes_next
  exact ensures_advance.mpr ⟨s, hs, Nat.zero_le _⟩

/-- To expect a token may take nothing, as it does at the end. -/
theorem expect_takesAtLeast (type : TokenType) (purpose : String) :
    (Rule.expect type purpose).TakesAtLeast 0 := by
  intro c
  obtain ⟨s, hs⟩ := c.exists_takes_next
  rw [ensures_expect]
  exact ⟨fun _ => ⟨s, hs, Nat.zero_le _⟩, fun _ => ParseFault.justified_after (.refl c) (by simp)⟩

section Answer

variable {wrap : α → Answer} {rule : Rule α} {d : TokenCursor}

/-- A value that a rule gives is the answer, and the parser stands where the rule ended. -/
theorem answer_of_eq_ok {value : α} (h : rule parser.cursor = .ok value d) :
    parser.answer wrap rule = (.ok (wrap value), { parser with cursor := d }) := by
  rw [answer, apply, h]
  rfl

/-- A fault that a rule meets is answered by its failure, and the parser stands where the rule
ended. -/
theorem answer_of_eq_error {fault : ParseFault} (h : rule parser.cursor = .error fault d) :
    parser.answer wrap rule =
      (.error (.failure (fault.failure parser.source)), { parser with cursor := d }) := by
  rw [answer, apply, h]
  rfl

/-- What a rule does to a parser that it is applied to: it takes tokens, so many at least if it
gives a value, and otherwise there is reason to object to a token. -/
theorem answer_spec (h : rule.TakesAtLeast least) (parser : Parser) :
    parser.LeadsTo (parser.answer wrap rule).2 ∧
    (∀ value, (parser.answer wrap rule).1 = .ok value →
      parser.position + least ≤ (parser.answer wrap rule).2.position) ∧
    ∀ trouble, (parser.answer wrap rule).1 = .error trouble → ∃ fault : ParseFault,
      trouble = .failure (fault.failure parser.source) ∧
        fault.Justified 0 parser.cursor (parser.answer wrap rule).2.cursor := by
  cases hrule : rule parser.cursor with
  | ok value d =>
    obtain ⟨s, hs, hleast⟩ := h.of_eq_ok hrule
    rw [answer_of_eq_ok hrule]
    refine ⟨⟨rfl, rfl, s, hs⟩, fun _ _ => ?_, nofun⟩
    rw [position, position, hs.position_eq_add]
    exact Nat.add_le_add_left hleast _
  | error fault d =>
    have hfault := (h parser.cursor).of_eq_error hrule
    rw [answer_of_eq_error hrule]
    refine ⟨⟨rfl, rfl, hfault.exists_takes⟩, nofun, fun trouble heq => ⟨fault, ?_, hfault⟩⟩
    cases heq
    rfl

end Answer

/-- Every call leads on. -/
theorem leadsTo_perform (call : Call) (parser : Parser) :
    parser.LeadsTo (parser.perform limit call).2 := by
  cases call with
  | advance => exact (answer_spec advance_takesAtLeast parser).1
  | expect type purpose => exact (answer_spec (expect_takesAtLeast type purpose) parser).1
  | read part => exact (answer_spec part.takesAtLeast parser).1
  | _ => exact .refl parser

/-- Calls one after the other lead on. -/
theorem leadsTo_performAll (calls : List Call) (parser : Parser) :
    parser.LeadsTo (performAll limit calls parser).2 := by
  induction calls generalizing parser with
  | nil => exact .refl parser
  | cons call calls ih => exact (leadsTo_perform call parser).trans (ih _)

/-- A failure that a call meets is that of a fault of the tokens since. -/
theorem exists_fault_of_perform {call : Call} {failure : Failure}
    (h : (parser.perform limit call).1 = .error (.failure failure)) :
    ∃ fault : ParseFault, failure = fault.failure parser.source ∧
      fault.Justified 0 parser.cursor (parser.perform limit call).2.cursor := by
  have hanswer : ∃ fault : ParseFault,
      Trouble.failure failure = .failure (fault.failure parser.source) ∧
        fault.Justified 0 parser.cursor (parser.perform limit call).2.cursor := by
    cases call with
    | peek distance =>
      simp only [perform] at h
      cases hpeek : parser.peek distance with
      | ok token => rw [hpeek] at h; cases h
      | error fault => rw [hpeek] at h; cases h
    | advance => exact (answer_spec advance_takesAtLeast parser).2.2 _ h
    | expect type purpose => exact (answer_spec (expect_takesAtLeast type purpose) parser).2.2 _ h
    | read part => exact (answer_spec part.takesAtLeast parser).2.2 _ h
    | _ => cases h
  obtain ⟨fault, heq, hfault⟩ := hanswer
  cases heq
  exact ⟨fault, rfl, hfault⟩

/-- What is expected and not in sight leaves the parser as it is and is reported at what is in
sight. -/
theorem perform_expect_eq_error {type : TokenType} {purpose : String} {trouble : Trouble}
    (h : (parser.perform limit (.expect type purpose)).1 = .error trouble) :
    (parser.perform limit (.expect type purpose)).2 = parser ∧
      trouble = .failure (.diagnosed
        (parser.report ((Objection.expected purpose type).message parser.current) none)) := by
  have hexpect : (Rule.expect type purpose).Ensures parser.cursor (fun _ _ => True)
      fun fault d => fault = .rejected (.expected purpose type) parser.current ∧
        d = parser.cursor := by
    rw [ensures_expect]
    exact ⟨fun _ => trivial, fun _ => ⟨rfl, rfl⟩⟩
  rw [perform] at h ⊢
  cases hrule : Rule.expect type purpose parser.cursor with
  | ok token d =>
    rw [answer_of_eq_ok hrule] at h
    cases h
  | error fault d =>
    rw [answer_of_eq_error hrule] at h ⊢
    cases h
    obtain ⟨rfl, rfl⟩ := hexpect.of_eq_error hrule
    exact ⟨rfl, rfl⟩

/-! ## Parsers at a list of tokens -/

/-- A parser never leaves its list of tokens, and what is in sight stands at its position. -/
theorem LeadsTo.bounds (h : (ofTokens tokens source).LeadsTo parser) :
    parser.tokens = Token.complete tokens ∧
    parser.position ≤ parser.tokens.findIdx Token.isEnd ∧
    parser.tokens.findIdx Token.isEnd < parser.tokens.length ∧
    parser.tokens[parser.position]? = some parser.current := by
  obtain ⟨s, hs⟩ := h.takes
  replace hs : (TokenCursor.ofTokens tokens).Takes s parser.cursor := hs
  have htokens : parser.tokens = Token.complete tokens := h.tokens
  obtain ⟨before, stop, after, hcomplete, hstop, -⟩ := exists_complete_eq tokens
  rw [htokens]
  refine ⟨rfl, ?_, ?_, hs.getElem?_position⟩
  · rw [position, hs.position_eq, hs.findIdx_eq]
    exact Nat.le_add_right _ _
  · exact List.findIdx_lt_length.mpr ⟨stop, by simp [hcomplete], hstop⟩

/-- A fault with reason fails by a report on a token at the position or before it, or by a number
among the tokens that cannot be read, unless the levels ran out. -/
theorem LeadsTo.failure_cases {fault : ParseFault} {d : TokenCursor}
    (h : (ofTokens tokens source).LeadsTo parser) (hfault : fault.Justified 0 parser.cursor d) :
    (∃ message token, ∃ place ≤ d.position, (Token.complete tokens)[place]? = some token ∧
      fault.failure source = .diagnosed (.parse message (some token) source)) ∨
    (∃ token ∈ Token.complete tokens, token.type = .number ∧
      Binary64.read? token.lexeme = none ∧ fault.failure source = .malformedNumber token.lexeme) ∨
    fault = .exhausted := by
  obtain ⟨s, hs⟩ := h.takes
  cases fault with
  | rejected objection token =>
    refine .inl ⟨objection.message token, token, ?_⟩
    obtain ⟨⟨t, ht, hmem | rfl⟩, -⟩ := hfault
    · obtain ⟨place, hlt, hplace⟩ := (hs.trans ht).exists_getElem?_eq (List.mem_append_right s hmem)
      exact ⟨place, hlt.le, hplace, rfl⟩
    · exact ⟨d.position, le_rfl, (hs.trans ht).getElem?_position, rfl⟩
  | malformedNumber lexeme =>
    obtain ⟨t, ht, token, hmem, htype, rfl, hread⟩ := hfault
    obtain ⟨place, -, hplace⟩ := (hs.trans ht).exists_getElem?_eq (List.mem_append_right s hmem)
    exact .inr (.inl ⟨token, List.mem_of_getElem? hplace, htype, hread, rfl⟩)
  | invalidNode fault => exact hfault.elim
  | exhausted => exact .inr (.inr rfl)

/-- Reading a whole program does not fail by running out of levels. -/
theorem perform_program_ne_exhausted (limit : Nat) (parser : Parser) :
    (parser.perform limit (.read .program)).1 ≠ .error (.failure .exhausted) := by
  rw [perform]
  cases hrule : Part.program.rule limit parser.cursor with
  | ok nodes d => simp [answer_of_eq_ok hrule]
  | error fault d =>
    rw [answer_of_eq_error hrule]
    change (one (Rule.program limit)) parser.cursor = _ at hrule
    rw [one, map_apply] at hrule
    cases hprogram : Rule.program limit parser.cursor with
    | ok program d' => rw [hprogram] at hrule; cases hrule
    | error fault' d' =>
      rw [hprogram] at hrule
      cases hrule
      cases fault with
      | exhausted => exact absurd hprogram (program_ne_exhausted _ _ _)
      | _ => simp [ParseFault.failure]

/-- A parser keeps to its tokens through all calls, whatever fails. The list is that of the start,
the position is at most that of the first end of input, and the token there is in sight. Whatever is
called next, the list stays and the position does not decrease, and if the call fails, then by a
report on a token of the list at the position or before it, by a number of the list that cannot be
read, or because the levels ran out where no whole program is read. What is expected in vain leaves
the parser as it is and is reported at the token in sight. A part that was read has taken tokens,
and so has every round of a loop that goes on, so that all loops end. -/
theorem performAll_keeps (limit : Nat) (tokens : List Token) (source : Option String)
    (calls : List Call) :
    let parser := (performAll limit calls (ofTokens tokens source)).2
    parser.tokens = Token.complete tokens ∧
    parser.position ≤ parser.tokens.findIdx Token.isEnd ∧
    parser.tokens.findIdx Token.isEnd < parser.tokens.length ∧
    parser.tokens[parser.position]? = some parser.current ∧
    (∀ call, (parser.perform limit call).2.tokens = parser.tokens ∧
      parser.position ≤ (parser.perform limit call).2.position ∧
      ∀ failure, (parser.perform limit call).1 = .error (.failure failure) →
        (∃ message token, ∃ place ≤ (parser.perform limit call).2.position,
          parser.tokens[place]? = some token ∧
          failure = .diagnosed (.parse message (some token) source)) ∨
        (∃ token ∈ parser.tokens, token.type = .number ∧ Binary64.read? token.lexeme = none ∧
          failure = .malformedNumber token.lexeme) ∨
        failure = .exhausted ∧ call ≠ .read .program) ∧
    (∀ type purpose trouble, (parser.perform limit (.expect type purpose)).1 = .error trouble →
      (parser.perform limit (.expect type purpose)).2 = parser ∧
        trouble = .failure (.diagnosed
          (parser.report ((Objection.expected purpose type).message parser.current) none))) ∧
    (∀ part answer, (parser.perform limit (.read part)).1 = .ok answer →
      parser.position + part.least ≤ (parser.perform limit (.read part)).2.position) ∧
    LoopsEnd limit := by
  intro parser
  have hparser : (ofTokens tokens source).LeadsTo parser := leadsTo_performAll calls _
  obtain ⟨htokens, hbound, hlength, hcurrent⟩ := hparser.bounds
  refine ⟨htokens, hbound, hlength, hcurrent, fun call => ?_, fun _ _ _ => perform_expect_eq_error,
    fun part answer h => (answer_spec part.takesAtLeast parser).2.1 answer h, loopsEnd limit⟩
  have hcall : parser.LeadsTo (parser.perform limit call).2 := leadsTo_perform call parser
  refine ⟨hcall.tokens, hcall.position_le, fun failure h => ?_⟩
  obtain ⟨fault, rfl, hfault⟩ := exists_fault_of_perform h
  rw [show parser.source = source from hparser.source] at h ⊢
  rw [htokens]
  refine (hparser.failure_cases hfault).imp_right (Or.imp_right ?_)
  rintro rfl
  refine ⟨rfl, ?_⟩
  rintro rfl
  exact perform_program_ne_exhausted limit parser h

end Parser

end BoSyntax

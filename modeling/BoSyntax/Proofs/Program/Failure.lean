import BoSyntax.Proofs.Binary64.Numeral
import BoSyntax.Proofs.Grammar.Recognition
import BoSyntax.Proofs.Token.Segmentation

/-!
# How reading a program fails

A text is a program, or there is a report on it: on its first illegal character if it has one, and
otherwise on one of its tokens. The failures that are no report cannot be met. Tokens that come from
no text can fail in one more way, by a number whose lexeme is none.
-/

namespace BoSyntax

open BoSyntax.Language

namespace Token

/-- The numbers of a text can be read. -/
theorem readable_of_ofString {source : String} {tokens : List Token}
    (h : ofString source = .ok tokens) {token : Token} (hmem : token ∈ tokens)
    (htype : token.type = .number) :
    ∃ n, Binary64.read? token.lexeme = some (.ofRatio false n 1) := by
  obtain ⟨lexemes, w, ts, -, hseg, -, rfl⟩ := ofString_eq_ok_iff.mp h
  rcases List.mem_append.mp hmem with hmem | hmem
  · obtain ⟨v, rest, hlexeme, hkind⟩ := hseg.exists_lexeme_of_mem hmem
    rw [htype] at hkind
    obtain ⟨hne, hall⟩ := hkind.digits_of_number
    have hread := @Binary64.read?_digits token.lexeme
    rw [hlexeme, String.toList_ofList] at hread
    exact ⟨_, hlexeme ▸ hread hne hall⟩
  · obtain rfl := List.mem_singleton.mp hmem
    cases htype

end Token

namespace Program

variable {source : String} {name : Option String} {limit : Nat} {tokens : List Token}

/-- Tokens that form no program have one that is objected to, or a number that cannot be read. -/
theorem fault_of_ofTokens_eq_error {fault : ParseFault} (h : ofTokens limit tokens = .error fault) :
    (∃ objection token, fault = .rejected objection token) ∨
      ∃ token ∈ tokens, token.type = .number ∧ Binary64.read? token.lexeme = none ∧
        fault = .malformedNumber token.lexeme := by
  obtain ⟨d, hfault⟩ := justified_of_ofTokens_eq_error h
  cases fault with
  | rejected objection token => exact .inl ⟨objection, token, rfl⟩
  | malformedNumber lexeme =>
    obtain ⟨s, hs, token, hmem, htype, rfl, hread⟩ := hfault
    exact .inr ⟨token, List.takeWhile_subset _ (hs.mem hmem), htype, hread, rfl⟩
  | invalidNode fault => exact hfault.elim
  | exhausted => exact absurd h ofTokens_ne_exhausted

/-- An objection to a token is reported as a fault of the grammar. -/
theorem exists_report_of_rejected (objection : Objection) (token : Token) (name : Option String) :
    ∃ report : Diagnostic, (ParseFault.rejected objection token).failure name = .diagnosed report ∧
      report.heading = "ParseError" :=
  ⟨_, rfl, rfl⟩

/-- A text is read by reading its tokens. -/
theorem ofStringWithin_of_tokens (h : Token.ofString source = .ok tokens) :
    ofStringWithin limit source name = (ofTokens limit tokens).mapError (·.failure name) := by
  have htokens : Program.tokens source name = .ok tokens := by rw [Program.tokens, h]
  rw [ofStringWithin, htokens]
  dsimp only [bind, Except.bind]
  cases ofTokens limit tokens <;> rfl

/-- A text without tokens is not read on. -/
theorem ofStringWithin_of_fault {fault : ReadFault} (h : Token.ofString source = .error fault) :
    ofStringWithin limit source name = .error (fault.failure name) := by
  have htokens : Program.tokens source name = .error (fault.failure name) := by
    rw [Program.tokens, h]
  rw [ofStringWithin, htokens]
  rfl

/-- The programs of a text are those that the grammar derives from its tokens. -/
theorem ofStringWithin_iff_programOf {ts : List Token} {stop : Token} {program : Node}
    (h : Token.ofString source = .ok (ts ++ [stop])) :
    ofStringWithin limit source name = .ok program ↔
      ProgramOf (StatementWithin limit) (ts ++ [stop]) program := by
  obtain ⟨hends, rfl⟩ := Token.ending_of_ofString h
  rw [ofStringWithin_of_tokens h, ← ofTokens_eq_ok_iff_programOf hends rfl]
  cases ofTokens limit (ts ++ [.ending (placeAfter source.toList)]) <;> simp [Except.mapError]

/-- A program that is read is derived from the tokens of its text. -/
theorem exists_programOf_of_ofStringWithin {program : Node}
    (h : ofStringWithin limit source name = .ok program) :
    ∃ ts stop, Token.ofString source = .ok (ts ++ [stop]) ∧
      ProgramOf (StatementWithin limit) (ts ++ [stop]) program := by
  cases htokens : Token.ofString source with
  | error fault =>
    rw [ofStringWithin_of_fault htokens] at h
    cases h
  | ok tokens =>
    obtain ⟨_, _, ts, -, -, -, rfl⟩ := Token.ofString_eq_ok_iff.mp htokens
    exact ⟨ts, _, rfl, (ofStringWithin_iff_programOf htokens).mp h⟩

/-- A parser reads its tokens as a program. -/
theorem apply_program_eq :
    ((Parser.ofTokens tokens name).apply (Rule.program limit)).1 =
      (ofTokens limit tokens).mapError (·.failure name) := by
  simp only [Parser.apply, Parser.ofTokens, ofTokens]
  cases Rule.program limit (.ofTokens tokens) <;> rfl

/-- Reading tokens as a program, with success or not, leaves the parser at one of its tokens. -/
theorem getElem?_position_apply_program :
    ((Parser.ofTokens tokens name).apply (Rule.program limit)).2.tokens[
        ((Parser.ofTokens tokens name).apply (Rule.program limit)).2.position]? =
      some ((Parser.ofTokens tokens name).apply (Rule.program limit)).2.current := by
  have hreads := Rule.program_reads limit (.ofTokens tokens)
  unfold Parser.apply Parser.ofTokens
  cases hresult : Rule.program limit (.ofTokens tokens) with
  | ok program d =>
    obtain ⟨s, hs, -⟩ := hreads.of_eq_ok hresult
    exact hs.getElem?_position
  | error fault d =>
    obtain ⟨s, hs⟩ := (hreads.of_eq_error hresult).exists_takes
    exact hs.getElem?_position

/-- Where there are no tokens there is no program, for the same reason. -/
theorem ofStringWithin_of_tokens_eq_error {failure : Failure}
    (h : Program.tokens source name = .error failure) :
    ofStringWithin limit source name = .error failure := by
  rw [ofStringWithin, h]
  rfl

/-- A text with an illegal character is reported on as such. -/
theorem ofStringWithin_of_illegal (h : ∃ c ∈ source.toList, ¬Legal c) :
    ∃ report, ofStringWithin limit source name = .error (.diagnosed report) ∧
      report.heading = "LexicalError" := by
  obtain ⟨c, hmem, hc⟩ := h
  cases hok : Token.ofString source with
  | ok tokens => exact absurd (Token.legal_of_ofString hok c hmem) hc
  | error fault =>
    obtain ⟨before, c, after, -, -, -, rfl⟩ := Token.ofString_eq_error_iff.mp hok
    exact ⟨_, ofStringWithin_of_fault hok, rfl⟩

/-- A text of legal characters is a program, or it is reported on as a fault of the grammar. -/
theorem ofStringWithin_of_legal (h : ∀ c ∈ source.toList, Legal c) :
    (∃ program, ofStringWithin limit source name = .ok program) ∨
      ∃ report, ofStringWithin limit source name = .error (.diagnosed report) ∧
        report.heading = "ParseError" := by
  cases hok : Token.ofString source with
  | error fault =>
    obtain ⟨c, hmem, hc⟩ := Token.exists_illegal_of_ofString hok
    exact absurd (h c hmem) hc
  | ok tokens =>
    rw [ofStringWithin_of_tokens hok]
    cases hprogram : ofTokens limit tokens with
    | ok program => exact .inl ⟨program, rfl⟩
    | error fault =>
      rcases fault_of_ofTokens_eq_error hprogram with
        ⟨objection, token, rfl⟩ | ⟨token, hmem, htype, hread, -⟩
      · obtain ⟨report, hreport, hheading⟩ := exists_report_of_rejected objection token name
        exact .inr ⟨report, congrArg Except.error hreport, hheading⟩
      · obtain ⟨n, hn⟩ := Token.readable_of_ofString hok hmem htype
        rw [hread] at hn
        cases hn

/-- A text has tokens, or there is a report on an illegal character of it. -/
theorem tokens_eq_ok_or_error (limit : Nat) (source : String) (name : Option String) :
    (∃ tokens, Program.tokens source name = .ok tokens ∧ ∀ c ∈ source.toList, Legal c) ∨
      ∃ c report, c ∈ source.toList ∧ ¬Legal c ∧
        Program.tokens source name = .error (.diagnosed report) ∧
        ofStringWithin limit source name = .error (.diagnosed report) := by
  cases h : Token.ofString source with
  | ok tokens => exact .inl ⟨tokens, tokens_eq_ok_iff.mpr h, Token.legal_of_ofString h⟩
  | error fault =>
    obtain ⟨before, c, after, hsource, -, hillegal, rfl⟩ := Token.ofString_eq_error_iff.mp h
    exact .inr ⟨c, _, by simp [hsource], hillegal, by rw [Program.tokens, h]; rfl,
      ofStringWithin_of_fault h⟩

/-- An attempt to read a text has the outcome of reading it. -/
theorem attempt_of_ofStringWithin :
    (∀ program, ofStringWithin limit source name = .ok program →
      attempt limit source name = .ok ⟨some program, none⟩) ∧
      ∀ report, ofStringWithin limit source name = .error (.diagnosed report) →
        attempt limit source name = .ok ⟨none, some report⟩ := by
  constructor <;> intro _ h <;> simp only [attempt, h]

/-- A text is a program, or there is a report on it. -/
theorem ofStringWithin_eq_ok_or_error (limit : Nat) (source : String) (name : Option String) :
    (∃ program, ofStringWithin limit source name = .ok program) ∨
      ∃ report, ofStringWithin limit source name = .error (.diagnosed report) ∧
        report.heading ∈ ["LexicalError", "ParseError"] := by
  by_cases hlegal : ∀ c ∈ source.toList, Legal c
  · rcases ofStringWithin_of_legal hlegal with hprogram | ⟨report, hreport, hheading⟩
    · exact .inl hprogram
    · exact .inr ⟨report, hreport, by simp [hheading]⟩
  · obtain ⟨report, hreport, hheading⟩ := ofStringWithin_of_illegal (by simpa using hlegal)
    exact .inr ⟨report, hreport, by simp [hheading]⟩

/-- The report is on a character exactly if an illegal one is in the text, wherever it is. -/
theorem lexicalError_iff (limit : Nat) (source : String) (name : Option String) :
    (∃ report, ofStringWithin limit source name = .error (.diagnosed report) ∧
      report.heading = "LexicalError") ↔ ∃ c ∈ source.toList, ¬Legal c := by
  refine ⟨fun hlexical => ?_, ofStringWithin_of_illegal⟩
  obtain ⟨report, hreport, hheading⟩ := hlexical
  by_contra hnone
  have hlegal : ∀ c ∈ source.toList, Legal c := by simpa using hnone
  have hresult := @ofStringWithin_of_legal source name limit hlegal
  rw [hreport] at hresult
  rcases hresult with ⟨program, hprogram⟩ | ⟨report', hreport', hheading'⟩
  · cases hprogram
  · cases hreport'
    rw [hheading] at hheading'
    exact absurd hheading' (by decide)

/-- An attempt to read a text holds either of a program and a report, and gives what reading the
text gives. -/
theorem exists_attempt (limit : Nat) (source : String) (name : Option String) :
    ∃ result, attempt limit source name = .ok result ∧
      result.program.isSome = result.report.isNone ∧
      result.unwrap ≠ .error none ∧
      (∀ program, result.unwrap = .ok program ↔ ofStringWithin limit source name = .ok program) ∧
      ∀ report, result.unwrap = .error (some report) ↔
        ofStringWithin limit source name = .error (.diagnosed report) := by
  rcases ofStringWithin_eq_ok_or_error limit source name with
    ⟨program, hprogram⟩ | ⟨report, hreport, -⟩
  · refine ⟨_, attempt_of_ofStringWithin.1 program hprogram, rfl, by simp [Attempt.unwrap], ?_, ?_⟩
    · simp [Attempt.unwrap, hprogram]
    · simp [Attempt.unwrap, hprogram]
  · refine ⟨_, attempt_of_ofStringWithin.2 report hreport, rfl, by simp [Attempt.unwrap], ?_, ?_⟩
    · simp [Attempt.unwrap, hreport]
    · simp [Attempt.unwrap, hreport]

/-- A parser of any tokens fails by a report, or by a number among them that cannot be read. -/
theorem failure_of_apply_program {failure : Failure}
    (h : ((Parser.ofTokens tokens name).apply (Rule.program limit)).1 = .error failure) :
    (∃ report, failure = .diagnosed report ∧ report.heading = "ParseError") ∨
      ∃ token ∈ tokens, token.type = .number ∧ Binary64.read? token.lexeme = none ∧
        failure = .malformedNumber token.lexeme := by
  rw [apply_program_eq] at h
  cases hprogram : ofTokens limit tokens with
  | ok program =>
    rw [hprogram] at h
    cases h
  | error fault =>
    rw [hprogram] at h
    obtain rfl : fault.failure name = failure := Except.error.inj h
    rcases fault_of_ofTokens_eq_error hprogram with
      ⟨objection, token, rfl⟩ | ⟨token, hmem, htype, hread, rfl⟩
    · exact .inl (exists_report_of_rejected objection token name)
    · exact .inr ⟨token, hmem, htype, hread, rfl⟩

/-- What can come of a text: a program, a report on an illegal character, which there is exactly if
the text has one, or a report on its grammar. An attempt to read it never fails and holds just that.
Tokens that come from no text may also have a number that cannot be read; the parser stays at one of
its tokens in any case. -/
theorem ofString_outcome (limit : Nat) (source : String) (name : Option String) :
    ((∃ program, ofStringWithin limit source name = .ok program) ∨
      ∃ report, ofStringWithin limit source name = .error (.diagnosed report) ∧
        report.heading ∈ ["LexicalError", "ParseError"]) ∧
    ((∃ report, ofStringWithin limit source name = .error (.diagnosed report) ∧
      report.heading = "LexicalError") ↔ ∃ c ∈ source.toList, ¬Legal c) ∧
    (∃ result, attempt limit source name = .ok result ∧
      result.program.isSome = result.report.isNone ∧
      result.unwrap ≠ .error none ∧
      (∀ program, result.unwrap = .ok program ↔ ofStringWithin limit source name = .ok program) ∧
      ∀ report, result.unwrap = .error (some report) ↔
        ofStringWithin limit source name = .error (.diagnosed report)) ∧
    ∀ tokens result parser,
      (Parser.ofTokens tokens name).apply (Rule.program limit) = (result, parser) →
      parser.tokens[parser.position]? = some parser.current ∧
      ∀ failure, result = .error failure →
        (∃ report, failure = .diagnosed report ∧ report.heading = "ParseError") ∨
          ∃ token ∈ tokens, token.type = .number ∧ Binary64.read? token.lexeme = none ∧
            failure = .malformedNumber token.lexeme := by
  refine ⟨ofStringWithin_eq_ok_or_error limit source name, lexicalError_iff limit source name,
    exists_attempt limit source name, ?_⟩
  intro tokens result parser happly
  have hsight := @getElem?_position_apply_program name limit tokens
  rw [happly] at hsight
  refine ⟨hsight, fun failure hfailure => ?_⟩
  have hresult := @failure_of_apply_program name limit tokens failure
  rw [happly] at hresult
  exact hresult hfailure

end Program

end BoSyntax

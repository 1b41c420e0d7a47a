import BoSyntax.Proofs.Program.Trimming
import BoSyntax.Proofs.Program.Wording

/-!
# Attempts that come to the same

Two texts of the same words are attempted with the same success: either both are programs, equal up
to positions, or both are reported on in the same way. Where the texts differ in the spacing around
them only, the place of one report also tells that of the other.
-/

namespace BoSyntax

/-- Where a report stands in its source. -/
def Diagnostic.place? (report : Diagnostic) : Option Position := do
  return ⟨← report.line, ← report.column⟩

/-- The report is on the end of input, which stands where the text ends. -/
def Diagnostic.IsAtEnd : Diagnostic → Prop
  | .parse _ (some token) _ => token.isEnd = true
  | _ => False

/-- What is objected to in tokens has the same place under every name. -/
theorem ParseFault.place?_of_failure {fault : ParseFault} {name name' : Option String}
    {report report' : Diagnostic} (h : fault.failure name = .diagnosed report)
    (h' : fault.failure name' = .diagnosed report') : report.place? = report'.place? := by
  cases fault with
  | rejected objection token =>
    obtain rfl := Failure.diagnosed.inj h
    obtain rfl := Failure.diagnosed.inj h'
    rfl
  | _ => cases h

namespace Program

/-- Two attempts come to the same up to positions: equal programs, or reports of one class that say
the same. -/
inductive Attempt.Agrees : Attempt → Attempt → Prop
  | programs {program program' : Node} : program.equal program' = true →
    Agrees ⟨some program, none⟩ ⟨some program', none⟩
  | reports {report report' : Diagnostic} : report.heading = report'.heading →
    report.message = report'.message → Agrees ⟨none, some report⟩ ⟨none, some report'⟩

variable {limit : Nat} {source source' : String} {name name' : Option String}
  {tokens tokens' : List Token}

/-- Texts of the same words are attempted with the same success. -/
theorem attempt_of_words (h : Token.ofString source = .ok tokens)
    (h' : Token.ofString source' = .ok tokens')
    (hwords : tokens.map Token.word = tokens'.map Token.word) (limit : Nat)
    (name name' : Option String) :
    ∃ result result', attempt limit source name = .ok result ∧
      attempt limit source' name' = .ok result' ∧ result.Agrees result' := by
  rcases ofStringWithin_of_words h h' hwords limit with
    ⟨program, program', hread, hread', hequal⟩ |
    ⟨report, report', hread, hread', hheading, hmessage⟩
  · exact ⟨_, _, attempt_of_ofStringWithin.1 _ hread, attempt_of_ofStringWithin.1 _ hread',
      .programs hequal⟩
  · exact ⟨_, _, attempt_of_ofStringWithin.2 _ hread, attempt_of_ofStringWithin.2 _ hread',
      .reports hheading hmessage⟩

/-- An attempt on a text that has tokens is one on these. -/
theorem attempt_eq_ok_iff (h : Token.ofString source = .ok tokens) {result : Attempt} :
    attempt limit source name = .ok result ↔
      (∃ program, ofTokens limit tokens = .ok program ∧ result = ⟨some program, none⟩) ∨
      ∃ fault report, ofTokens limit tokens = .error fault ∧
        fault.failure name = .diagnosed report ∧ result = ⟨none, some report⟩ := by
  rw [attempt, ofStringWithin_of_tokens h]
  cases ofTokens limit tokens with
  | ok program => simp [Except.mapError, eq_comm]
  | error fault => cases hfailure : fault.failure name <;> simp [Except.mapError, hfailure, eq_comm]

/-- Texts of the same tokens are attempted with the same success, at the same places. -/
theorem attempt_of_tokens (h : Token.ofString source = .ok tokens)
    (h' : Token.ofString source' = .ok tokens) {result result' : Attempt}
    (hresult : attempt limit source name = .ok result)
    (hresult' : attempt limit source' name' = .ok result') :
    result.program = result'.program ∧
      result.report.bind Diagnostic.place? = result'.report.bind Diagnostic.place? := by
  rcases (attempt_eq_ok_iff h).mp hresult with ⟨program, hread, rfl⟩ |
      ⟨fault, report, hread, hfailure, rfl⟩ <;>
    rcases (attempt_eq_ok_iff h').mp hresult' with ⟨program', hread', rfl⟩ |
      ⟨fault', report', hread', hfailure', rfl⟩ <;>
    rw [hread] at hread'
  · exact ⟨congrArg some (Except.ok.inj hread'), rfl⟩
  · cases hread'
  · cases hread'
  · obtain rfl := Except.error.inj hread'
    exact ⟨rfl, ParseFault.place?_of_failure hfailure hfailure'⟩

/-- A text with an illegal character is reported on where that stands. -/
theorem attempt_of_illegal {c : Char} {place : Position}
    (h : Token.ofString source = .error (.illegal c place)) :
    attempt limit source name =
      .ok ⟨none, some (.lexical c (some place.line) (some place.column) name)⟩ :=
  attempt_of_ofStringWithin.2 _ (ofStringWithin_of_fault h)

/-! ## Spacing around a text -/

section Between

variable {text : String} {before after : List Char}

/-- A report on a token stands where the token does. -/
theorem report_of_rejected {objection : Objection} {token : Token} {report : Diagnostic}
    (h : (ParseFault.rejected objection token).failure name = .diagnosed report) :
    (report.IsAtEnd ↔ token.isEnd = true) ∧ report.place? = some token.start := by
  obtain rfl := Failure.diagnosed.inj h
  exact ⟨Iff.rfl, rfl⟩

/-- The tokens of one number in two lists that are alike up to places. -/
theorem getElem?_of_moved {ts : List Token} {f : Position → Position} {place place' : Position}
    (hends : ∀ token ∈ ts, token.type ≠ .endOfInput) {number : Nat} {token token' : Token}
    (h : (ts ++ [.ending place])[number]? = some token)
    (h' : (ts.map (Token.relocate f) ++ [.ending place'])[number]? = some token') :
    (token.isEnd = true ∧ token'.start = place') ∨
      (token.isEnd ≠ true ∧ token'.start = f token.start) := by
  rcases Nat.lt_or_ge number ts.length with hlt | hge
  · rw [List.getElem?_append_left hlt] at h
    rw [List.getElem?_append_left (by simpa using hlt), List.getElem?_map, h] at h'
    obtain rfl := Option.some.inj h'
    exact .inr ⟨fun hend => hends token (List.mem_of_getElem? h) ((Token.isEnd_iff _).mp hend), rfl⟩
  · rw [List.getElem?_append_right hge, List.getElem?_singleton] at h
    rw [List.getElem?_append_right (by simpa using hge), List.length_map,
      List.getElem?_singleton] at h'
    split at h
    · rename_i hlast
      rw [if_pos hlast] at h'
      obtain rfl := Option.some.inj h
      obtain rfl := Option.some.inj h'
      exact .inl ⟨rfl, rfl⟩
    · cases h

/-- Tokens that are moved by the spacing before them are objected to at the places that this gives,
except for the end of input. -/
theorem place?_of_moved {ts : List Token} {f : Position → Position} {place place' : Position}
    (hends : ∀ token ∈ ts, token.type ≠ .endOfInput) {fault fault' : ParseFault}
    (hread : ofTokens limit (ts ++ [.ending place]) = .error fault)
    (hread' : ofTokens limit (ts.map (Token.relocate f) ++ [.ending place']) = .error fault')
    {report report' : Diagnostic} (hfailure : fault.failure name = .diagnosed report)
    (hfailure' : fault'.failure name' = .diagnosed report') :
    (report.IsAtEnd → report'.place? = some place') ∧
      (¬report.IsAtEnd → report'.place? = report.place?.map f) := by
  obtain ⟨verdict, hverdict⟩ :=
    exists_verdict limit ((ts ++ [Token.ending place]).map Token.word)
  have hfirst := hverdict _ rfl
  have hsecond := hverdict (ts.map (Token.relocate f) ++ [.ending place'])
    (by simp [Token.word, Token.relocate, Token.ending, Function.comp_def])
  cases verdict with
  | read program =>
    obtain ⟨g, hok⟩ := hfirst
    cases hread.symm.trans hok
  | rejected objection message number =>
    obtain ⟨token, hnumber, herror, -⟩ := hfirst
    obtain ⟨token', hnumber', herror', -⟩ := hsecond
    obtain rfl := Except.error.inj (hread.symm.trans herror)
    obtain rfl := Except.error.inj (hread'.symm.trans herror')
    have hcomplete : ∀ ts place,
        Token.complete (ts ++ [.ending place]) = ts ++ [.ending place] := by
      intro ts place
      simp [Token.complete, Token.isEnd, Token.ending]
    rw [hcomplete] at hnumber hnumber'
    obtain ⟨hend, hplace⟩ := report_of_rejected hfailure
    obtain ⟨-, hplace'⟩ := report_of_rejected hfailure'
    rw [hend, hplace, hplace', Option.map_some]
    rcases getElem?_of_moved hends hnumber hnumber' with ⟨htoken, hstart⟩ | ⟨htoken, hstart⟩
    · exact ⟨fun _ => congrArg some hstart, fun h => absurd htoken h⟩
    · exact ⟨fun h => absurd h htoken, fun _ => congrArg some hstart⟩
  | malformedNumber lexeme =>
    obtain rfl := Except.error.inj (hread.symm.trans hfirst)
    cases hfailure

/-- Spacing around a text makes no difference to its program, or to what is reported on it but for
the place. -/
theorem attempt_between_spaces (hsource : source.toList = before ++ text.toList ++ after)
    (hbefore : Spaces before) (hafter : Spaces after) (limit : Nat) (name : Option String) :
    ∃ result result', attempt limit text name = .ok result ∧
      attempt limit source name = .ok result' ∧ result.Agrees result' ∧
      ∀ report report', result.report = some report → result'.report = some report' →
        (report.IsAtEnd → report'.place? = some (placeAfter source.toList)) ∧
          (¬report.IsAtEnd → report'.place? = report.place?.map (placeAfter before).from) := by
  cases h : Token.ofString text with
  | ok tokens =>
    obtain ⟨_, _, ts, -, hseg, -, rfl⟩ := Token.ofString_eq_ok_iff.mp h
    have h' := Token.ofString_between_spaces hsource hbefore hafter h
    obtain ⟨result, result', hresult, hresult', hagrees⟩ :=
      attempt_of_words h h'
        (by simp [Token.word, Token.relocate, Token.ending, Function.comp_def]) limit name name
    refine ⟨result, result', hresult, hresult', hagrees, fun report report' hreport hreport' => ?_⟩
    rcases (attempt_eq_ok_iff h).mp hresult with ⟨_, -, rfl⟩ | ⟨fault, _, hread, hfailure, rfl⟩
    · cases hreport
    rcases (attempt_eq_ok_iff h').mp hresult' with ⟨_, -, rfl⟩ | ⟨fault', _, hread', hfailure', rfl⟩
    · cases hreport'
    obtain rfl := Option.some.inj hreport
    obtain rfl := Option.some.inj hreport'
    exact place?_of_moved hseg.type_ne_endOfInput hread hread' hfailure hfailure'
  | error fault =>
    obtain ⟨first, c, rest, -, -, -, rfl⟩ := Token.ofString_eq_error_iff.mp h
    refine ⟨_, _, attempt_of_illegal h,
      attempt_of_illegal (Token.ofString_between_spaces_of_error hsource hbefore h),
      .reports rfl rfl, fun report report' hreport hreport' => ?_⟩
    obtain rfl := Option.some.inj hreport
    obtain rfl := Option.some.inj hreport'
    exact ⟨False.elim, fun _ => rfl⟩

end Between

end Program

end BoSyntax

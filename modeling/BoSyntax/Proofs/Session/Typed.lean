import BoSyntax.Proofs.Emission
import BoSyntax.Proofs.Program.Attempt
import BoSyntax.Proofs.Session.Entry

/-!
# Entries as they were typed

The blanks at the ends of an entry are taken off before it is read, so what is shown of it is what
comes of the trimmed text. Where these blanks are spacing that is also what comes of the text as it
was typed, but for the place of a report, which is moved by the blanks in front. Any other blank is
an illegal character of the typed text, which the session does not object to. All this is about
entries whose program, if they are one, the stack has room to show.
-/

namespace BoSyntax

open Text Emission

namespace Session

/-- Words that tell what came of an attempt: they show an equal program, or report the same at the
same location. -/
inductive Tells (json : Bool) : Program.Attempt → String → Prop
  | program {program program' : Node} : program.equal program' = true →
    Tells json ⟨some program', none⟩ (Program.text program json ++ "\n")
  | report {report report' : Diagnostic} : report.heading = report'.heading →
    report.message = report'.message → report.location = report'.location →
    Tells json ⟨none, some report'⟩ ("[error] >>> " ++ report.format ++ "\n")

/-- Only the words of a report tell of it. -/
theorem Tells.eq_format {json : Bool} {report : Diagnostic} {words : String}
    (h : Tells json ⟨none, some report⟩ words) :
    words = "[error] >>> " ++ report.format ++ "\n" := by
  cases h with
  | report hheading hmessage hlocation =>
    rw [Diagnostic.format, Diagnostic.format, hheading, hmessage, hlocation]

/-- If the attempt leaves a program, the stack has room to show it. -/
def HasRoom (limits : Limits) (json : Bool) (result : Program.Attempt) : Prop :=
  ∀ program ∈ result.program, program.height ≤ limits.levels json

variable {limits : Limits}

/-- What is shown of a text tells what comes of attempting it. -/
theorem tells_showProgram (limits : Limits) (json : Bool) (text : String) :
    ∃ result, Program.attempt limits.nesting text (some sourceName) = .ok result ∧
      (HasRoom limits json result →
        Tells json result (standardOutput (showProgram limits json text))) := by
  rcases Program.ofStringWithin_eq_ok_or_error limits.nesting text (some sourceName) with
    ⟨program, hprogram⟩ | ⟨report, hreport, -⟩
  · refine ⟨_, Program.attempt_of_ofStringWithin.1 _ hprogram, fun hroom => ?_⟩
    have htext : Program.text? limits program json = some (Program.text program json) :=
      if_pos (hroom program rfl)
    have houtput : standardOutput (showProgram limits json text) =
        Program.text program json ++ "\n" := by
      simp [showProgram, hprogram, htext]
    rw [houtput]
    exact .program (Program.wellFormed_of_ofStringWithin hprogram).equal_self
  · refine ⟨_, Program.attempt_of_ofStringWithin.2 _ hreport, fun _ => ?_⟩
    have houtput : standardOutput (showProgram limits json text) =
        "[error] >>> " ++ report.format ++ "\n" := by
      simp [showProgram, hreport, Session.report, Failure.format]
    rw [houtput]
    exact .report rfl rfl rfl

/-- Without the tokens, an entry that is no command shows what its trimmed text stands for. -/
theorem evaluate_of_text (json : Bool) {lines : List String}
    (hne : trim ("\n".intercalate lines) ≠ "")
    (hcommand : command? (trim ("\n".intercalate lines)) = none) :
    evaluate limits ⟨false, json⟩ lines =
      (⟨false, json⟩, showProgram limits json (trim ("\n".intercalate lines))) := by
  simp [evaluate, hne, hcommand, showEntry]

/-- A blank that is no spacing is an illegal character. -/
theorem attempt_of_blank {limit : Nat} {text : String} {c : Char} (hmem : c ∈ text.toList)
    (hblank : isBlank c = true) (hspacing : c ∉ spacing) (name : Option String) :
    ∃ report, Program.attempt limit text name = .ok ⟨none, some report⟩ ∧
      report.heading = "LexicalError" := by
  obtain ⟨report, hreport, hheading⟩ := Program.ofStringWithin_of_illegal
    ⟨c, hmem, fun hlegal => hspacing (hlegal.mem_spacing hblank)⟩
  exact ⟨report, Program.attempt_of_ofStringWithin.2 report hreport, hheading⟩

/-- An entry that is neither blank nor a command shows, if the tokens are not shown, what comes of
attempting it without the blanks at its ends; if that is a program, the stack must have room to show
it. If these blanks are spacing, the same comes of the
text as it was typed, where a report on the end of input stands at the end of that text and any
other one is moved by the blanks in front; otherwise the typed text has an illegal character. -/
theorem shown_of_typed {opening : List String} {last typed : String} (hopen : Open opening)
    (hstays : opening = [] → isFarewell last = false)
    (hclosed : isComplete (opening ++ [last]) = true)
    (htyped : typed = "\n".intercalate (opening ++ [last])) (hne : trim typed ≠ "")
    (hcommand : command? (trim typed) = none) (limits : Limits) (json : Bool) :
    ∃ shown result result' before after,
      (∀ replies,
        converse limits (start ⟨false, json⟩) (opening.map .line ++ .line last :: replies) =
          asked (opening ++ [last]) ++ shown ++ converse limits (start ⟨false, json⟩) replies) ∧
      Program.attempt limits.nesting (trim typed) (some sourceName) = .ok result ∧
      (HasRoom limits json result → Tells json result (standardOutput shown)) ∧
      Program.attempt limits.nesting typed (some sourceName) = .ok result' ∧
      typed.toList = before ++ (trim typed).toList ++ after ∧
      (∀ c ∈ before ++ after, isBlank c = true) ∧
      (Spaces (before ++ after) → result.Agrees result' ∧
        ∀ report report', result.report = some report → result'.report = some report' →
          (report.IsAtEnd → report'.place? = some (placeAfter typed.toList)) ∧
          (¬report.IsAtEnd → report'.place? = report.place?.map (placeAfter before).from)) ∧
      (¬Spaces (before ++ after) → ∃ report', result'.report = some report' ∧
        report'.heading = "LexicalError") := by
  obtain ⟨before, after, hsource, hbefore, hafter⟩ := exists_trim_eq typed
  have hblank : ∀ c ∈ before ++ after, isBlank c = true :=
    List.forall_mem_append.mpr ⟨hbefore, hafter⟩
  obtain ⟨result, hresult, htells⟩ := tells_showProgram limits json (trim typed)
  have hconverse : ∀ replies,
      converse limits (start ⟨false, json⟩) (opening.map .line ++ .line last :: replies) =
        asked (opening ++ [last]) ++ showProgram limits json (trim typed) ++
          converse limits (start ⟨false, json⟩) replies := by
    intro replies
    subst htyped
    rw [converse_of_open hopen, converse_of_isComplete hstays hclosed,
      evaluate_of_text json hne hcommand]
  by_cases hspaces : Spaces (before ++ after)
  · obtain ⟨hspaces', hspaces''⟩ := List.forall_mem_append.mp hspaces
    obtain ⟨_, result', htrim, hresult', hagrees, hplaces⟩ :=
      Program.attempt_between_spaces hsource hspaces' hspaces'' limits.nesting (some sourceName)
    obtain rfl := Except.ok.inj (hresult.symm.trans htrim)
    exact ⟨_, result, result', before, after, hconverse, hresult, htells, hresult', hsource, hblank,
      fun _ => ⟨hagrees, hplaces⟩, fun hnot => absurd hspaces hnot⟩
  · obtain ⟨c, hmem, hspacing⟩ : ∃ c ∈ before ++ after, c ∉ spacing := by
      by_contra hnone
      exact hspaces fun c hmem => by_contra fun hspacing => hnone ⟨c, hmem, hspacing⟩
    have hchar : c ∈ typed.toList := by
      rw [hsource]
      rcases List.mem_append.mp hmem with hmem | hmem <;> simp [hmem]
    obtain ⟨report, hreport, hheading⟩ :=
      attempt_of_blank hchar (hblank c hmem) hspacing (some sourceName)
    exact ⟨_, result, _, before, after, hconverse, hresult, htells, hreport, hsource, hblank,
      fun hall => absurd hall hspaces, fun _ => ⟨report, rfl, hheading⟩⟩

/-- A program between spaces is shown, and the same program comes of the text as it was typed. -/
theorem shown_of_spaced_name :
    trim "  x " ≠ "" ∧ command? (trim "  x ") = none ∧ ∃ shown result result',
      (∀ replies, converse ⟨100, 100, 100⟩ (start ⟨false, true⟩) (.line "  x " :: replies) =
        asked ["  x "] ++ shown ++ converse ⟨100, 100, 100⟩ (start ⟨false, true⟩) replies) ∧
      Tells true result (standardOutput shown) ∧
      Program.attempt 100 "  x " (some sourceName) = .ok result' ∧ result.Agrees result' := by
  have hne : trim "  x " ≠ "" := by decide +kernel
  have hcommand : command? (trim "  x ") = none := by decide +kernel
  obtain ⟨shown, result, result', before, after, hconverse, hresult, htells, hresult', hsource,
      hblank, hagrees, -⟩ :=
    @shown_of_typed [] "  x " "  x " .nil (fun _ => by decide +kernel) (by decide +kernel) rfl hne
      hcommand ⟨100, 100, 100⟩ true
  have hheight : ((Program.attempt 100 (trim "  x ") (some sourceName)).map fun result =>
      result.program.map Node.height).toOption = some (some 2) := by decide +kernel
  have hroom : HasRoom ⟨100, 100, 100⟩ true result := by
    rw [hresult] at hheight
    obtain ⟨program, hprogram, htwo⟩ := Option.map_eq_some_iff.mp (Option.some.inj hheight)
    rw [HasRoom, hprogram]
    rintro _ ⟨⟩
    exact htwo.trans_le (by decide)
  have hspaces : Spaces (before ++ after) := by
    intro c hmem
    have hchar : c ∈ "  x ".toList := by
      rw [hsource]
      rcases List.mem_append.mp hmem with hmem | hmem <;> simp [hmem]
    have hx : c ≠ 'x' := by
      rintro rfl
      exact absurd (hblank _ hmem) (by decide)
    obtain rfl : c = ' ' := by simpa [hx] using hchar
    decide
  exact ⟨hne, hcommand, shown, result, result', hconverse, htells hroom, hresult',
    (hagrees hspaces).1⟩

/-- The report on a character behind spaces does not tell where it stands in the typed text. -/
theorem not_tells_of_spaced_sign :
    trim "  #" ≠ "" ∧ command? (trim "  #") = none ∧ ∃ shown result,
      (∀ replies, converse ⟨100, 100, 100⟩ (start ⟨false, false⟩) (.line "  #" :: replies) =
        asked ["  #"] ++ shown ++ converse ⟨100, 100, 100⟩ (start ⟨false, false⟩) replies) ∧
      Program.attempt 100 "  #" (some sourceName) = .ok result ∧
      ¬Tells false result (standardOutput shown) := by
  have hconverse (replies : List Reply) :
      converse ⟨100, 100, 100⟩ (start ⟨false, false⟩) (.line "  #" :: replies) =
        asked ["  #"] ++ (evaluate ⟨100, 100, 100⟩ ⟨false, false⟩ ["  #"]).2 ++
          converse ⟨100, 100, 100⟩ (start ⟨false, false⟩) replies :=
    converse_of_line (by decide +kernel) (by decide +kernel) replies
  have hsign : ¬Legal '#' := by
    unfold Legal
    decide +kernel
  have hillegal : Token.ofString "  #" = .error (.illegal '#' ⟨1, 3⟩) :=
    Token.ofString_eq_error_iff.mpr
      ⟨[' ', ' '], '#', [], by simp, fun c hmem => .inl (by simp_all [spacing]), hsign, rfl⟩
  refine ⟨by decide +kernel, by decide +kernel, _, _, hconverse,
    Program.attempt_of_illegal hillegal, fun htells => ?_⟩
  have hwords := htells.eq_format
  revert hwords
  decide +kernel

end Session

end BoSyntax

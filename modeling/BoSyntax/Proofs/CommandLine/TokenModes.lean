import BoSyntax.Proofs.CommandLine.Inputs
import BoSyntax.Proofs.Session.Entry

/-!
# Tokens shown besides programs and in place of them

A session that shows tokens cuts the text of an entry twice, and a run that shows tokens never looks
at the grammar. Both times the tokens decide as they do for the program: an illegal character is
what is wrong with a text before anything else is. So in a session the tokens only add a line, and a
run that shows tokens fails only where the plain run of the source does, with the same report.
-/

namespace BoSyntax

open Text Emission

/-! ## Sessions -/

namespace Session

/-- The text of an entry: its lines without the blanks at its ends. -/
def entryText (lines : List String) : String :=
  trim ("\n".intercalate lines)

/-- Lines that are asked for as one entry, which does not end the session. -/
def IsEntry (lines : List String) : Prop :=
  ∃ opening last, lines = opening ++ [last] ∧ Open opening ∧
    (opening = [] → isFarewell last = false) ∧ isComplete lines = true

/-- A session answers lines: something is shown of them once they are asked for, and the session
goes on in some modes. -/
def Answers (limits : Limits) (modes : Modes) (lines : List String) (modes' : Modes)
    (shown : List Emission) : Prop :=
  ∀ replies, converse limits (start modes) (lines.map .line ++ replies) =
    asked lines ++ shown ++ converse limits (start modes') replies

variable {limits : Limits} {lines : List String}

/-- A session answers an entry by what carrying it out shows. -/
theorem IsEntry.answers {modes modes' : Modes} {shown : List Emission} (h : IsEntry lines)
    (hevaluate : evaluate limits modes lines = (modes', shown)) :
    Answers limits modes lines modes' shown := by
  obtain ⟨opening, last, rfl, hopen, hstays, hclosed⟩ := h
  intro replies
  have hconverse := @converse_of_isComplete limits modes opening last replies hstays hclosed
  rw [hevaluate] at hconverse
  rw [List.map_append, List.append_assoc, converse_of_open hopen]
  exact hconverse

/-- An entry that is neither blank nor a command stands for its text. -/
theorem evaluate_of_entryText (modes : Modes) (hne : entryText lines ≠ "")
    (hcommand : command? (entryText lines) = none) :
    evaluate limits modes lines = (modes, showEntry limits modes (entryText lines)) := by
  rw [entryText] at hne hcommand
  simp [evaluate, entryText, hne, hcommand]

/-- Nothing is shown of a blank entry. -/
theorem evaluate_of_blank (modes : Modes) (h : entryText lines = "") :
    evaluate limits modes lines = (modes, []) := by
  rw [entryText] at h
  simp only [evaluate, if_pos h]

/-- A command is no blank entry. -/
theorem entryText_ne_of_command {command : Command}
    (h : command? (entryText lines) = some command) : entryText lines ≠ "" := by
  have hblank : command? "" = none := by decide
  intro hempty
  rw [hempty, hblank] at h
  cases h

/-- The command for the tokens tells whether they are shown from then on. -/
theorem evaluate_of_toggleTokens (modes : Modes)
    (h : command? (entryText lines) = some .toggleTokens) :
    evaluate limits modes lines =
      ({ modes with tokens := !modes.tokens }, [modeLine "Token echo" !modes.tokens]) := by
  have hne := entryText_ne_of_command h
  rw [entryText] at h hne
  simp only [evaluate, if_neg hne, h]

/-- The command for the other mode tells of that mode. -/
theorem evaluate_of_toggleJson (modes : Modes)
    (h : command? (entryText lines) = some .toggleJson) :
    evaluate limits modes lines =
      ({ modes with json := !modes.json }, [modeLine "JSON output" !modes.json]) := by
  have hne := entryText_ne_of_command h
  rw [entryText] at h hne
  simp only [evaluate, if_neg hne, h]

/-- A farewell ends the session in any modes, and shows the same in all of them. -/
theorem converse_of_farewell {line : String} (h : isFarewell line = true) (modes : Modes)
    (replies : List Reply) :
    converse limits (start modes) (.line line :: replies) =
      asked [line] ++ [.line "Exiting BoLang REPL."] := by
  simp [converse, step, start, echo, asked, prompt, h]

/-- Tokens that are shown come before what is shown without them. -/
theorem standardOutput_showEntry_of_ok {text : String} {tokens : List Token} (json : Bool)
    (h : Program.tokens text (some sourceName) = .ok tokens) :
    standardOutput (showEntry limits ⟨true, json⟩ text) =
      "[tokens] >>> " ++ Token.listing tokens ++ "\n" ++
        standardOutput (showEntry limits ⟨false, json⟩ text) := by
  have hshown : showEntry limits ⟨true, json⟩ text =
      [Program.tokensRecord text tokens] ++ [.line ("[tokens] >>> " ++ Token.listing tokens)] ++
        showEntry limits ⟨false, json⟩ text := by
    simp [showEntry, h]
  rw [hshown, standardOutput_append, standardOutput_append, Program.tokensRecord,
    standardOutput_record, standardOutput_line, String.empty_append]

/-- A text without tokens is reported on once, whether tokens are shown or not. -/
theorem standardOutput_showEntry_of_error {text : String} {failure : Failure} (json : Bool)
    (h : Program.tokens text (some sourceName) = .error failure) :
    standardOutput (showEntry limits ⟨true, json⟩ text) =
      standardOutput (showEntry limits ⟨false, json⟩ text) := by
  have hprogram := @Program.ofStringWithin_of_tokens_eq_error _ _ limits.nesting _ h
  simp [showEntry, showProgram, h, hprogram]

end Session

/-! ## Runs -/

namespace CommandLine

variable {limits : Limits} {store : Store} {source : Source}

/-- A source has no tokens: its text cannot be had, or it has an illegal character. -/
inductive Unlexed (limits : Limits) (store : Store) (source : Source) : Prop
  | unread {fault : FileFault} : source.read store = .error fault → Unlexed limits store source
  | illegal {text : String} {report : Diagnostic} : source.read store = .ok text →
    Program.ofStringWithin limits.nesting text (some source.name) = .error (.diagnosed report) →
    report.heading = "LexicalError" → Unlexed limits store source

/-- How a run that shows tokens stands to the plain run of the same source. -/
structure Outcome.Agrees (limits : Limits) (store : Store) (source : Source)
    (shown plain : Outcome) : Prop where
  /-- It goes well or fails, but is never ended. -/
  goes : ∃ succeeded, shown.succeeded = .ok succeeded
  /-- It fails exactly where the plain run fails for want of tokens. -/
  fails_iff : shown.succeeded = .ok false ↔
    plain.succeeded = .ok false ∧ Unlexed limits store source
  /-- Where it fails, both say the same, and they say it on standard error only. -/
  report : shown.succeeded = .ok false → ∃ words,
    standardOutput shown.emissions = "" ∧ standardOutput plain.emissions = "" ∧
    standardError false shown.emissions = "[error] >>> " ++ words ++ "\n" ∧
    standardError false plain.emissions = "[error] >>> " ++ words ++ "\n"
  /-- It goes well wherever the plain run does. -/
  succeeds : plain.succeeded = .ok true → shown.succeeded = .ok true

/-- Runs that fail for want of tokens agree if they report the same. -/
theorem Outcome.agrees_of_unlexed {records records' : List Emission} (words : String)
    (hrecords : ∀ emission ∈ records, emission.isRecord = true)
    (hrecords' : ∀ emission ∈ records', emission.isRecord = true)
    (h : Unlexed limits store source) :
    Outcome.Agrees limits store source ⟨.ok false, records ++ [CommandLine.report words]⟩
      ⟨.ok false, records' ++ [CommandLine.report words]⟩ := by
  obtain ⟨-, houtput, herror⟩ := @Outcome.is_of_report (.ok false) _ hrecords words
  obtain ⟨-, houtput', herror'⟩ := @Outcome.is_of_report (.ok false) _ hrecords' words
  exact ⟨⟨false, rfl⟩, iff_of_true rfl ⟨rfl, h⟩,
    fun _ => ⟨words, houtput, houtput', herror, herror'⟩, nofun⟩

/-- A run that goes well agrees with any plain run of a source that has tokens. -/
theorem Outcome.agrees_of_succeeded {emissions : List Emission} {plain : Outcome}
    (h : ¬Unlexed limits store source) :
    Outcome.Agrees limits store source ⟨.ok true, emissions⟩ plain :=
  ⟨⟨true, rfl⟩, iff_of_false nofun fun hfails => h hfails.2, nofun, fun _ => rfl⟩

/-- A run that shows tokens agrees with the plain run of the source, or the same fault ends both. -/
theorem runSource_agrees (limits : Limits) (store : Store) (source : Source) (json : Bool) :
    (∃ fault, source.read store = .error fault ∧ fault.endsRun = true ∧
      ∀ tokens, runSource limits store ⟨tokens, json⟩ source =
        ⟨.error (.badPath fault), source.records⟩) ∨
    Outcome.Agrees limits store source (runSource limits store ⟨true, json⟩ source)
      (runSource limits store ⟨false, json⟩ source) := by
  cases hread : source.read store with
  | error fault =>
    cases hends : fault.endsRun with
    | true =>
      refine .inl ⟨fault, rfl, hends, fun tokens => ?_⟩
      rw [runSource_of_error hread, if_pos hends]
    | false =>
      have hrun (tokens : Bool) : runSource limits store ⟨tokens, json⟩ source =
          ⟨.ok false, source.records ++ [report (source.name ++ ": " ++ fault.message)]⟩ := by
        rw [runSource_of_error hread, hends, if_neg Bool.false_ne_true]
      rw [hrun true, hrun false]
      exact .inr (Outcome.agrees_of_unlexed _ isRecord_of_mem_sourceRecords
        isRecord_of_mem_sourceRecords (.unread hread))
  | ok text =>
    refine .inr ?_
    rw [runSource_of_ok hread, runSource_of_ok hread]
    rcases Program.tokens_eq_ok_or_error limits.nesting text (some source.name) with
      ⟨tokens, htokens, hlegal⟩ | ⟨c, diagnostic, hmem, hillegal, htokens, hprogram⟩
    · have hlexed : ¬Unlexed limits store source := by
        rintro (herror | ⟨hread', hreport, hheading⟩)
        · cases hread.symm.trans herror
        · obtain rfl := Except.ok.inj (hread.symm.trans hread')
          obtain ⟨c, hmem, hillegal⟩ :=
            (Program.lexicalError_iff limits.nesting _ _).mp ⟨_, hreport, hheading⟩
          exact hillegal (hlegal c hmem)
      simp only [showTokens, htokens, if_true]
      exact Outcome.agrees_of_succeeded hlexed
    · obtain ⟨report', hreport, hheading⟩ :=
        (Program.lexicalError_iff limits.nesting text (some source.name)).mpr ⟨c, hmem, hillegal⟩
      simp only [showTokens, htokens, showProgram, hprogram, if_true, Bool.false_eq_true, if_false,
        ← List.append_assoc]
      exact Outcome.agrees_of_unlexed _ isRecord_of_mem_sourceRecords
        (List.forall_mem_append.mpr
          ⟨isRecord_of_mem_sourceRecords, fun _ => Program.isRecord_of_mem_records⟩)
        (.illegal hread hreport hheading)

end CommandLine

open Session CommandLine

/-- To show tokens adds to what is shown or takes the place of it, and changes nothing about which
texts have tokens. A session that shows tokens answers an entry that is neither blank nor a command
as it does otherwise, with a line of its tokens in front if it has tokens. It answers a blank entry
and the command for the other mode alike in any case, the command for the tokens only by the mode
after it, and a farewell ends it. A run that shows tokens agrees with the plain run of the source,
or the same fault ends both. -/
theorem token_modes_keep_verdicts :
    (∀ limits lines json, IsEntry lines →
      (entryText lines ≠ "" → command? (entryText lines) = none → ∃ shown plain,
        Answers limits ⟨true, json⟩ lines ⟨true, json⟩ shown ∧
        Answers limits ⟨false, json⟩ lines ⟨false, json⟩ plain ∧
        (∀ tokens, Program.tokens (entryText lines) (some sourceName) = .ok tokens →
          standardOutput shown =
            "[tokens] >>> " ++ Token.listing tokens ++ "\n" ++ standardOutput plain) ∧
        ∀ failure, Program.tokens (entryText lines) (some sourceName) = .error failure →
          standardOutput shown = standardOutput plain) ∧
      (entryText lines = "" → ∀ tokens,
        Answers limits ⟨tokens, json⟩ lines ⟨tokens, json⟩ []) ∧
      (command? (entryText lines) = some .toggleJson → ∀ tokens,
        Answers limits ⟨tokens, json⟩ lines ⟨tokens, !json⟩ [modeLine "JSON output" !json]) ∧
      (command? (entryText lines) = some .toggleTokens → ∀ tokens,
        Answers limits ⟨tokens, json⟩ lines ⟨!tokens, json⟩ [modeLine "Token echo" !tokens])) ∧
    (∀ limits line, isFarewell line = true → ∀ modes replies,
      converse limits (start modes) (.line line :: replies) =
        asked [line] ++ [.line "Exiting BoLang REPL."]) ∧
    ∀ limits store source json,
      (∃ fault, source.read store = .error fault ∧ fault.endsRun = true ∧
        ∀ tokens, runSource limits store ⟨tokens, json⟩ source =
          ⟨.error (.badPath fault), source.records⟩) ∨
      Outcome.Agrees limits store source (runSource limits store ⟨true, json⟩ source)
        (runSource limits store ⟨false, json⟩ source) := by
  refine ⟨fun limits lines json hentry => ⟨fun hne hcommand => ?_, fun hblank tokens => ?_,
    fun hcommand tokens => ?_, fun hcommand tokens => ?_⟩,
    fun limits line hfarewell modes => converse_of_farewell hfarewell modes, runSource_agrees⟩
  · have hanswers (tokens : Bool) := hentry.answers
      (@evaluate_of_entryText limits lines ⟨tokens, json⟩ hne hcommand)
    exact ⟨_, _, hanswers true, hanswers false, fun _ => standardOutput_showEntry_of_ok json,
      fun _ => standardOutput_showEntry_of_error json⟩
  · exact hentry.answers (evaluate_of_blank _ hblank)
  · exact hentry.answers (evaluate_of_toggleJson _ hcommand)
  · exact hentry.answers (evaluate_of_toggleTokens _ hcommand)

/-- There are tokens that are not shown although tokens are to be: those of a blank entry, those of
a command, which is answered by another line in either mode, and those of a farewell. -/
theorem not_standardOutput_of_blank :
    (∃ tokens shown plain, Program.tokens (entryText [""]) (some sourceName) = .ok tokens ∧
      Answers ⟨100, 100, 100⟩ ⟨true, false⟩ [""] ⟨true, false⟩ shown ∧
      Answers ⟨100, 100, 100⟩ ⟨false, false⟩ [""] ⟨false, false⟩ plain ∧
      standardOutput shown ≠
        "[tokens] >>> " ++ Token.listing tokens ++ "\n" ++ standardOutput plain) ∧
    (∃ tokens shown plain,
      Program.tokens (entryText ["tokens-mode"]) (some sourceName) = .ok tokens ∧
      Answers ⟨100, 100, 100⟩ ⟨true, false⟩ ["tokens-mode"] ⟨false, false⟩ shown ∧
      Answers ⟨100, 100, 100⟩ ⟨false, false⟩ ["tokens-mode"] ⟨true, false⟩ plain ∧
      standardOutput shown ≠
        "[tokens] >>> " ++ Token.listing tokens ++ "\n" ++ standardOutput plain) ∧
    ∃ tokens, Program.tokens (entryText ["exit"]) (some sourceName) = .ok tokens ∧
      converse ⟨100, 100, 100⟩ (start ⟨true, false⟩) [.line "exit"] =
        converse ⟨100, 100, 100⟩ (start ⟨false, false⟩) [.line "exit"] := by
  have hempty : IsEntry [""] :=
    ⟨[], "", rfl, .nil, fun _ => by decide +kernel, by decide +kernel⟩
  have hblank (modes : Modes) : Answers ⟨100, 100, 100⟩ modes [""] modes [] :=
    hempty.answers (evaluate_of_blank _ (by decide +kernel))
  have hentry : IsEntry ["tokens-mode"] :=
    ⟨[], "tokens-mode", rfl, .nil, fun _ => by decide +kernel, by decide +kernel⟩
  have hcommand (tokens : Bool) : Answers ⟨100, 100, 100⟩ ⟨tokens, false⟩ ["tokens-mode"]
      ⟨!tokens, false⟩ [modeLine "Token echo" !tokens] :=
    hentry.answers (evaluate_of_toggleTokens _ (by decide +kernel))
  refine ⟨⟨[.ending ⟨1, 1⟩], _, _, by decide +kernel, hblank _, hblank _, by decide +kernel⟩,
    ⟨[⟨.identifier, "tokens", ⟨1, 1⟩⟩, ⟨.binaryOperator, "-", ⟨1, 7⟩⟩,
      ⟨.identifier, "mode", ⟨1, 8⟩⟩, .ending ⟨1, 12⟩], _, _, by decide +kernel, hcommand true,
      hcommand false, by decide +kernel⟩,
    [⟨.identifier, "exit", ⟨1, 1⟩⟩, .ending ⟨1, 5⟩], by decide +kernel, by decide +kernel⟩

end BoSyntax

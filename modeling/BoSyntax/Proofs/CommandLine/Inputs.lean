import BoSyntax.CommandLine.Run
import BoSyntax.Proofs.CommandLine.Options
import BoSyntax.Proofs.Emission
import BoSyntax.Proofs.Program.Failure
import BoSyntax.Proofs.Program.Height

/-!
# Inputs of a run

A run of several inputs gives off, on each of its two outputs, what the runs of the single inputs
give off, one after the other. An input that goes well shows on standard output only, and one that
fails is reported on standard error only, which does not keep the run from the others. Only a
program with more levels than the stack has room for does: the run ends at it without a word, and
the inputs behind it are not processed.
-/

namespace BoSyntax.CommandLine

open Emission

/-! ## One input -/

section One

variable {limits : Limits} {store : Store} {display : Display} {source : Source} {words : String}

/-- What is shown of a source that goes well: its tokens, or its program. -/
inductive Shows (limits : Limits) (store : Store) (display : Display) (source : Source) :
    String → Prop
  | tokens {text : String} {tokens : List Token} : source.isSupported = true →
    source.read store = .ok text → display.tokens = true →
    Program.tokens text (some source.name) = .ok tokens →
    Shows limits store display source (Token.listing tokens)
  | program {text : String} {program : Node} : source.isSupported = true →
    source.read store = .ok text → display.tokens = false →
    Program.ofStringWithin limits.nesting text (some source.name) = .ok program →
    program.height ≤ limits.levels display.json →
    Shows limits store display source (Program.text program display.json)

/-- What is reported of a source that fails: it is of no kind that holds programs, it cannot be
read, it has an illegal character, or it is no program although one is to be shown. -/
inductive Reports (limits : Limits) (store : Store) (display : Display) (source : Source) :
    String → Prop
  | unsupported : source.isSupported = false →
    Reports limits store display source
      (source.name ++ ": only " ++ Source.suffix ++ " files are supported")
  | unreadable {fault : FileFault} : source.isSupported = true → source.read store = .error fault →
    fault.endsRun = false →
    Reports limits store display source (source.name ++ ": " ++ fault.message)
  | illegal {text : String} {c : Char} {report : Diagnostic} : source.isSupported = true →
    source.read store = .ok text → c ∈ text.toList → ¬Legal c →
    Program.tokens text (some source.name) = .error (.diagnosed report) →
    Reports limits store display source report.format
  | rejected {text : String} {report : Diagnostic} : source.isSupported = true →
    source.read store = .ok text → display.tokens = false → (∀ c ∈ text.toList, Legal c) →
    Program.ofStringWithin limits.nesting text (some source.name) = .error (.diagnosed report) →
    Reports limits store display source report.format

/-- A source holds a program that is to be shown, but that has more levels than the stack has room
for. -/
inductive Overflows (limits : Limits) (store : Store) (display : Display) (source : Source) : Prop
  | program {text : String} {program : Node} : source.isSupported = true →
    source.read store = .ok text → display.tokens = false →
    Program.ofStringWithin limits.nesting text (some source.name) = .ok program →
    limits.levels display.json < program.height → Overflows limits store display source

/-- What shows of an outcome: whether all went well, and the two outputs. -/
structure Outcome.Is (outcome : Outcome) (succeeded : Except Abort Bool) (output error : String) :
    Prop where
  succeeded : outcome.succeeded = succeeded
  output : standardOutput outcome.emissions = output
  error : standardError false outcome.emissions = error

variable {succeeded : Except Abort Bool} {output error : String} {records : List Emission}

/-- Records before an outcome do not show. -/
theorem Outcome.Is.after_records {outcome : Outcome} (h : outcome.Is succeeded output error)
    (hrecords : ∀ emission ∈ records, emission.isRecord = true) :
    Outcome.Is { outcome with emissions := records ++ outcome.emissions } succeeded output
      error := by
  obtain ⟨houtput, herror⟩ := outputs_of_records hrecords
  exact ⟨h.succeeded, by simp [houtput, h.output], by simp [herror, h.error]⟩

/-- Behind records, a line is all that shows, and it shows on standard output only. -/
theorem Outcome.is_of_line (hrecords : ∀ emission ∈ records, emission.isRecord = true)
    (words : String) :
    Outcome.Is ⟨succeeded, records ++ [.line words]⟩ succeeded (words ++ "\n") "" := by
  obtain ⟨houtput, herror⟩ := outputs_of_records hrecords
  exact ⟨rfl, by simp [houtput], by simp [herror]⟩

/-- Behind records, a report is all that shows, and it shows on standard error only. -/
theorem Outcome.is_of_report (hrecords : ∀ emission ∈ records, emission.isRecord = true)
    (words : String) :
    Outcome.Is ⟨succeeded, records ++ [report words]⟩ succeeded ""
      ("[error] >>> " ++ words ++ "\n") := by
  obtain ⟨houtput, herror⟩ := outputs_of_records hrecords
  exact ⟨rfl, by simp [houtput, report], by simp [herror, report]⟩

/-- Records alone do not show. -/
theorem Outcome.is_of_records (hrecords : ∀ emission ∈ records, emission.isRecord = true) :
    Outcome.Is ⟨succeeded, records⟩ succeeded "" "" := by
  obtain ⟨houtput, herror⟩ := outputs_of_records hrecords
  exact ⟨rfl, houtput, herror⟩

/-- Reading a source leaves records only. -/
theorem isRecord_of_mem_sourceRecords :
    ∀ emission ∈ source.records, emission.isRecord = true := by
  cases source <;> simp [Source.records, isRecord]

/-- A source that can be read shows its tokens or its program, behind the records of reading it. -/
theorem runSource_of_ok {text : String} (h : source.read store = .ok text) (display : Display) :
    runSource limits store display source =
      let outcome := if display.tokens then showTokens source.name text
        else showProgram limits display.json source.name text
      { outcome with emissions := source.records ++ outcome.emissions } := by
  simp only [runSource, h]

/-- A source that cannot be read is reported, unless the fault ends the run. -/
theorem runSource_of_error {fault : FileFault} (h : source.read store = .error fault)
    (display : Display) :
    runSource limits store display source =
      if fault.endsRun then ⟨.error (.badPath fault), source.records⟩
      else ⟨.ok false, source.records ++ [report (source.name ++ ": " ++ fault.message)]⟩ := by
  simp only [runSource, h]
  split <;> simp

/-- Only records come before the run of a source that may hold a program. -/
theorem process_is (launch : Launch) (hsupported : source.isSupported = true)
    (h : (runSource limits store display source).Is succeeded output error) :
    (process limits launch store display source).Is succeeded output error := by
  rw [process, if_pos hsupported]
  exact h.after_records (List.forall_mem_singleton.mpr rfl)

/-- A source that goes well shows on standard output only. -/
theorem Shows.process (h : Shows limits store display source words) (launch : Launch) :
    (process limits launch store display source).Is (.ok true) (words ++ "\n") "" := by
  cases h with
  | tokens hsupported hread hdisplay htokens =>
    refine process_is launch hsupported ?_
    rw [runSource_of_ok hread, if_pos hdisplay, showTokens, htokens]
    exact (Outcome.is_of_line (List.forall_mem_singleton.mpr rfl) _).after_records
      isRecord_of_mem_sourceRecords
  | program hsupported hread hdisplay hprogram hroom =>
    refine process_is launch hsupported ?_
    rw [runSource_of_ok hread, hdisplay, if_neg Bool.false_ne_true]
    simp only [showProgram, hprogram, Program.text?, if_pos hroom]
    exact (Outcome.is_of_line (fun _ => Program.isRecord_of_mem_records) _).after_records
      isRecord_of_mem_sourceRecords

/-- A source that fails is reported on standard error only. -/
theorem Reports.process (h : Reports limits store display source words) (launch : Launch) :
    (process limits launch store display source).Is (.ok false) ""
      ("[error] >>> " ++ words ++ "\n") := by
  cases h with
  | unsupported hsupported =>
    rw [CommandLine.process, hsupported, if_neg Bool.false_ne_true]
    exact Outcome.is_of_report (List.forall_mem_nil _) _
  | unreadable hsupported hread hgoes =>
    refine process_is launch hsupported ?_
    rw [runSource_of_error hread, hgoes, if_neg Bool.false_ne_true]
    exact Outcome.is_of_report isRecord_of_mem_sourceRecords _
  | illegal hsupported hread hmem hillegal htokens =>
    refine process_is launch hsupported ?_
    rw [runSource_of_ok hread]
    cases hdisplay : display.tokens with
    | true =>
      rw [if_pos rfl, showTokens, htokens]
      exact (Outcome.is_of_report (List.forall_mem_nil _) _).after_records
        isRecord_of_mem_sourceRecords
    | false =>
      simp only [Bool.false_eq_true, if_false, showProgram,
        Program.ofStringWithin_of_tokens_eq_error htokens]
      exact (Outcome.is_of_report (fun _ => Program.isRecord_of_mem_records) _).after_records
        isRecord_of_mem_sourceRecords
  | rejected hsupported hread hdisplay hlegal herror =>
    refine process_is launch hsupported ?_
    rw [runSource_of_ok hread, hdisplay, if_neg Bool.false_ne_true]
    simp only [showProgram, herror]
    exact (Outcome.is_of_report (fun _ => Program.isRecord_of_mem_records) _).after_records
      isRecord_of_mem_sourceRecords

/-- A source that overflows the stack shows nowhere, and ends the run. -/
theorem Overflows.process (h : Overflows limits store display source) (launch : Launch) :
    (process limits launch store display source).Is (.error .exhausted) "" "" := by
  obtain ⟨hsupported, hread, hdisplay, hprogram, hhigh⟩ := h
  refine process_is launch hsupported ?_
  rw [runSource_of_ok hread, hdisplay, if_neg Bool.false_ne_true]
  simp only [showProgram, hprogram, Program.text?, if_neg (Nat.not_le.mpr hhigh)]
  exact (Outcome.is_of_records fun _ => Program.isRecord_of_mem_records).after_records
    isRecord_of_mem_sourceRecords

/-- Whatever room the stack has, there is a text that overflows it when its program is shown. -/
theorem exists_overflows (hnesting : 0 < limits.nesting) (hdisplay : display.tokens = false) :
    ∃ text, ∀ store name, Overflows limits store display (.text text name) := by
  obtain ⟨text, program, -, -, hhigh, hread⟩ := Program.exists_higher (limits.levels display.json)
  exact ⟨text, fun _ name => .program rfl rfl hdisplay (hread _ hnesting _) hhigh⟩

end One

/-! ## All inputs -/

section All

variable {limits : Limits} {launch : Launch} {store : Store} {display : Display}

end All

/-! ## Runs -/

/-- The options for one of the sources alone. -/
def Options.only (asked : Options) : Source → Options
  | .text content _ => { asked with text := some content, paths := [] }
  | .file path => { asked with text := none, paths := [path] }

/-- The standard output of a run. -/
def Result.output (result : Result) : String :=
  standardOutput result.emissions

/-- The standard error of a run. -/
def Result.error (result : Result) : String :=
  standardError result.verbose result.emissions

section Runs

variable {limits : Limits} {launch : Launch} {store : Store} {arguments : List String}
  {asked : Options}

end Runs

end BoSyntax.CommandLine

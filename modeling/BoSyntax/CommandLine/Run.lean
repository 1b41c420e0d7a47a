import BoSyntax.CommandLine.Options
import BoSyntax.Session
import BoSyntax.Source.Basic

/-!
# Runs of the command line

A run takes the sources that the arguments name, one after the other, and shows the program or the
tokens of each. Each source stands for itself: one that is faulty is reported, and the run goes on.
Only a path that names no file and a program that the stack has no room to show end a run early.
Without any source the run is an interactive session.
-/

namespace BoSyntax.CommandLine

/-- How the program was started, which decides under what name it keeps its records. -/
inductive Launch where
  | library
  | program
  deriving DecidableEq, Repr

/-- The name that a run keeps its records under. -/
def Launch.logger : Launch → String
  | .library => "bolang.bolang_cli"
  | .program => "__main__"

/-- What ends a run before all of its sources are processed. -/
inductive Abort where
  /-- A path that can be the name of no file. -/
  | badPath (fault : FileFault)
  /-- A program with more levels than the stack has room for when it is to be shown. -/
  | exhausted
  deriving DecidableEq, Repr

/-- What is said of the end of a run. -/
def Abort.message : Abort → String
  | .badPath fault => fault.message
  | .exhausted => exhaustedMessage

/-- What came of a source: whether all went well, unless the run ended there, and what was given
off. -/
structure Outcome where
  succeeded : Except Abort Bool
  emissions : List Emission

/-- What is shown of a source. -/
structure Display where
  /-- Whether the tokens are shown in place of the program. -/
  tokens : Bool
  /-- Whether the program is shown as JSON. -/
  json : Bool
  deriving DecidableEq, Repr

/-- A report on standard error. -/
def report (words : String) : Emission :=
  .errorLine ("[error] >>> " ++ words)

/-- Shows the tokens of a text. -/
def showTokens (name text : String) : Outcome :=
  match Program.tokens text (some name) with
  | .ok tokens => ⟨.ok true, [Program.tokensRecord text tokens, .line (Token.listing tokens)]⟩
  | .error failure => ⟨.ok false, [report failure.format]⟩

/-- Shows the program of a text. Nothing stands in for a program that the stack has no room to show,
and the run ends there. -/
def showProgram (limits : Limits) (json : Bool) (name text : String) : Outcome :=
  let records := Program.records limits.nesting text name
  match Program.ofStringWithin limits.nesting text (some name) with
  | .ok program =>
    match Program.text? limits program json with
    | some text => ⟨.ok true, records ++ [.line text]⟩
    | none => ⟨.error .exhausted, records⟩
  | .error failure => ⟨.ok false, records ++ [report failure.format]⟩

/-- Reads a source and shows what it holds. A source that cannot be read is reported, unless the
fault ends the run. -/
def runSource (limits : Limits) (store : Store) (display : Display) (source : Source) : Outcome :=
  let outcome : Outcome := match source.read store with
    | .ok text =>
      if display.tokens then showTokens source.name text
      else showProgram limits display.json source.name text
    | .error fault =>
      if fault.endsRun then ⟨.error (.badPath fault), []⟩
      else ⟨.ok false, [report (source.name ++ ": " ++ fault.message)]⟩
  { outcome with emissions := source.records ++ outcome.emissions }

/-- Runs a source if it is of the kind that holds programs. -/
def process (limits : Limits) (launch : Launch) (store : Store) (display : Display)
    (source : Source) : Outcome :=
  if source.isSupported then
    let outcome := runSource limits store display source
    { outcome with
      emissions := .record launch.logger ("processing " ++ source.name) :: outcome.emissions }
  else
    ⟨.ok false, [report (source.name ++ ": only " ++ Source.suffix ++ " files are supported")]⟩

/-- The sources that options name: a text given directly, and then the files. -/
def sources (options : Options) : List Source :=
  (options.text.map fun text => Source.text text Source.textName).toList ++
    options.paths.map .file

/-- Processes sources one after the other: how many of them failed, unless the run ended at one of
them, and what was given off. -/
def processAll (limits : Limits) (launch : Launch) (store : Store) (display : Display) :
    List Source → Except Abort Nat × List Emission
  | [] => (.ok 0, [])
  | source :: sources =>
    let outcome := process limits launch store display source
    match outcome.succeeded with
    | .error abort => (.error abort, outcome.emissions)
    | .ok succeeded =>
      let (failed, emissions) := processAll limits launch store display sources
      (failed.map fun count => if succeeded then count else count + 1,
        outcome.emissions ++ emissions)

/-- Whether options ask for an interactive session. -/
def isInteractive (options : Options) : Bool :=
  options.repl || (options.paths.isEmpty && options.text.isNone)

/-- The end of a run: its exit status, unless it was ended before, what it gave off, and whether
records are shown. -/
structure Result where
  status : Except Abort Nat
  emissions : List Emission
  verbose : Bool

/-- The run that is refused. -/
def refuse : Refusal → Result
  | .help => ⟨.ok 0, [.output help], false⟩
  | refusal => ⟨.ok 2, [.error usage, .errorLine ("bolang: error: " ++ refusal.message)], false⟩

/-- A run that processes sources. -/
def runSources (limits : Limits) (launch : Launch) (store : Store) (options : Options)
    (sources : List Source) : Result :=
  match processAll limits launch store ⟨options.tokens, options.json⟩ sources with
  | (.error abort, emissions) => ⟨.error abort, emissions, options.verbose⟩
  | (.ok failed, emissions) =>
    ⟨.ok (if failed = 0 then 0 else 1),
      emissions ++
        [.record launch.logger
          (toString failed ++ " of " ++ toString sources.length ++ " inputs failed")],
      options.verbose⟩

/-- A run with arguments, in which prompts get some replies. -/
def run (limits : Limits) (launch : Launch) (store : Store) (replies : List Reply)
    (arguments : List String) : Result :=
  match options arguments with
  | .error refusal => refuse refusal
  | .ok options =>
    if isInteractive options then
      ⟨.ok 0, Session.transcript limits ⟨options.tokens, options.json⟩ replies, options.verbose⟩
    else
      runSources limits launch store options (sources options)

end BoSyntax.CommandLine

import BoSyntax.Program
import BoSyntax.Text.Blank

/-!
# Interactive sessions

A session reads entries, each of one or more lines: as long as more braces are open than closed, a
further line is asked for. An entry is a command or a program, and stands for itself: nothing but
the two modes is carried from one entry to the next. The session ends at `exit` or `quit`, at an
interrupt and at the end of the input. Any other failure is met by a trace of it, and the session
goes on with the next entry: a failure of the input, or a stack without room for the tree of a
program that is to be shown.
-/

namespace BoSyntax

/-- What is shown of an entry besides its outline, and in place of it. -/
structure Modes where
  /-- Whether the tokens are shown first. -/
  tokens : Bool
  /-- Whether the program is shown as JSON. -/
  json : Bool
  deriving DecidableEq, Repr

/-- A detail of a failure: a text, or a value of another sort as it is shown. -/
inductive FailureDetail where
  | text (words : String)
  | value (shown : String)
  deriving DecidableEq, Repr

/-- The words of a detail that stands alone. -/
def FailureDetail.words : FailureDetail → String
  | .text words => words
  | .value shown => shown

/-- A detail among others, where texts are quoted. -/
def FailureDetail.quoted : FailureDetail → String
  | .text words => Text.quoted words
  | .value shown => shown

/-- A failure that a session does not expect: what kind of failure, and its details. -/
structure UnexpectedFailure where
  kind : String
  details : List FailureDetail
  deriving DecidableEq, Repr

/-- The last line of the trace of a failure: its kind, and after a colon what it says if that is
anything. The lines before it, which tell the calls that led there, are left out. -/
def UnexpectedFailure.shown (failure : UnexpectedFailure) : String :=
  let words := match failure.details with
    | [] => ""
    | [detail] => detail.words
    | several => "(" ++ ", ".intercalate (several.map FailureDetail.quoted) ++ ")"
  if words = "" then failure.kind else failure.kind ++ ": " ++ words

/-- The failure of a stack that has no room left. -/
def UnexpectedFailure.exhausted : UnexpectedFailure :=
  ⟨"RecursionError", [.text exhaustedMessage]⟩

/-- What a prompt is answered with. -/
inductive Reply where
  /-- A line of text. -/
  | line (text : String)
  /-- The user interrupts. -/
  | interrupt
  /-- There is no further input. -/
  | endOfInput
  /-- The input fails. -/
  | failure (failure : UnexpectedFailure)
  deriving DecidableEq, Repr

/-- A session between two prompts. -/
structure Session where
  modes : Modes
  /-- The lines of the entry so far. -/
  lines : List String
  deriving DecidableEq, Repr

namespace Session

/-- The version of the language's tools. -/
def version : String :=
  "0.1.0"

/-- The line that opens a session. -/
def banner : Emission :=
  .line ("BoLang REPL v" ++ version ++ ". Type 'exit' or 'quit' to leave.")

/-- The source name of entries in reports. -/
def sourceName : String :=
  "<repl>"

/-- A session at the start. -/
def start (modes : Modes) : Session :=
  ⟨modes, []⟩

/-- What the user is asked with. -/
def prompt (session : Session) : String :=
  if session.lines.isEmpty then ">>> " else "... "

/-- How many more braces a line opens than it closes. -/
def braceBalance (line : String) : Int :=
  line.toList.count '{' - line.toList.count '}'

/-- Whether lines make a complete entry: no more braces are opened than closed. -/
def isComplete (lines : List String) : Bool :=
  decide (lines.foldl (fun balance line => balance + braceBalance line) 0 ≤ 0)

/-- A character in lower case as far as commands are concerned. Besides the capitals of ASCII only
the Kelvin sign has an ASCII letter as its lower case. -/
def lowered (c : Char) : Char :=
  if c = '\u212a' then 'k' else c.toLower

/-- The commands that turn a mode on or off. -/
inductive Command where
  | toggleTokens
  | toggleJson
  deriving DecidableEq, Repr

/-- The command that an entry is, if it is one. -/
def command? (entry : String) : Option Command :=
  let word := String.ofList (entry.toList.map lowered)
  if word = "tokens-mode" then some .toggleTokens
  else if word = "json-mode" then some .toggleJson
  else none

/-- A report on an entry. -/
def report (failure : Failure) : Emission :=
  .line ("[error] >>> " ++ failure.format)

/-- A mode after it was turned on or off. -/
def modeLine (mode : String) (on : Bool) : Emission :=
  .line ("[mode] >>> " ++ mode ++ " " ++ (if on then "ON" else "OFF"))

/-- What is given off for a failure that is not expected: the last line of its trace. -/
def trace (failure : UnexpectedFailure) : List Emission :=
  [.record "bolang.bolang_repl" ("unexpected REPL failure\n" ++ failure.shown),
    .line ("[error] >>>\n" ++ failure.shown ++ "\n")]

/-- Shows the program of an entry, or the report on it. If the stack has no room for the levels of
the program, there is a trace of that. -/
def showProgram (limits : Limits) (json : Bool) (entry : String) : List Emission :=
  Program.records limits.nesting entry sourceName ++
    match Program.ofStringWithin limits.nesting entry (some sourceName) with
    | .ok program =>
      match Program.text? limits program json with
      | some text => [.line text]
      | none => trace .exhausted
    | .error failure => [report failure]

/-- Shows what an entry that is no command stands for. If tokens are shown and there are none, the
report on that is all. -/
def showEntry (limits : Limits) (modes : Modes) (entry : String) : List Emission :=
  if modes.tokens then
    match Program.tokens entry (some sourceName) with
    | .ok tokens =>
      Program.tokensRecord entry tokens :: .line ("[tokens] >>> " ++ Token.listing tokens) ::
        showProgram limits modes.json entry
    | .error failure => [report failure]
  else
    showProgram limits modes.json entry

/-- Carries out an entry, whose ends are trimmed first: the modes after it and what it shows. -/
def evaluate (limits : Limits) (modes : Modes) (lines : List String) : Modes × List Emission :=
  let entry := Text.trim ("\n".intercalate lines)
  if entry = "" then (modes, [])
  else match command? entry with
    | some .toggleTokens =>
      ({ modes with tokens := !modes.tokens }, [modeLine "Token echo" !modes.tokens])
    | some .toggleJson => ({ modes with json := !modes.json }, [modeLine "JSON output" !modes.json])
    | none => (modes, showEntry limits modes entry)

/-- Whether a line, as the first of an entry, ends the session. -/
def isFarewell (line : String) : Bool :=
  Text.trim line == "exit" || Text.trim line == "quit"

/-- The session after a reply, unless that ends it, and what is given off. A failure of the input
drops the lines of the entry so far and is answered by the last line of its trace. -/
def step (limits : Limits) (session : Session) : Reply → Option Session × List Emission
  | .line text =>
    if session.lines.isEmpty && isFarewell text then (none, [.line "Exiting BoLang REPL."])
    else
      let lines := session.lines ++ [text]
      if isComplete lines then
        let (modes, shown) := evaluate limits session.modes lines
        (some ⟨modes, []⟩, shown)
      else
        (some { session with lines }, [])
  | .interrupt | .endOfInput => (none, [.line "\nExiting BoLang REPL."])
  | .failure failure => (some { session with lines := [] }, trace failure)

/-- What a terminal shows of a reply. -/
def echo : Reply → List Emission
  | .line text => [.line text]
  | _ => []

/-- What a terminal shows of a session that gets some replies, and then the end of the input. -/
def converse (limits : Limits) (session : Session) : List Reply → List Emission
  | [] => .output session.prompt :: (session.step limits .endOfInput).2
  | reply :: replies =>
    let (next, shown) := session.step limits reply
    .output session.prompt :: echo reply ++ shown ++
      match next with
      | none => []
      | some next => converse limits next replies

/-- What a terminal shows of a whole session. -/
def transcript (limits : Limits) (modes : Modes) (replies : List Reply) : List Emission :=
  banner :: converse limits (start modes) replies

end Session

end BoSyntax

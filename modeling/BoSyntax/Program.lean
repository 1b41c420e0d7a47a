import BoSyntax.Emission
import BoSyntax.Grammar.Parser
import BoSyntax.Node.Json
import BoSyntax.Node.Outline
import BoSyntax.Node.Walk
import BoSyntax.Token.Scan

/-!
# Programs

From a source text to a program: the text is cut into tokens, all of them, before any of them is
looked at by the grammar. So an illegal character anywhere is reported before a fault of grammar.

How deep a text may nest to be read, and how many levels a tree may have to be shown, is not for the
language to say but for the stack that the program runs on. So these numbers are parameters here.
-/

namespace BoSyntax

/-- What there is room for on the stack. -/
structure Limits where
  /-- How many levels a text may nest when it is read. -/
  nesting : Nat
  /-- How many levels a tree may have when it is written as an outline. -/
  outline : Nat
  /-- How many levels a tree may have when it is written as JSON. -/
  json : Nat
  deriving DecidableEq, Repr

/-- How many levels a tree may have when it is shown as JSON, or else as an outline. -/
def Limits.levels (limits : Limits) (json : Bool) : Nat :=
  if json then limits.json else limits.outline

namespace Program

/-- The program that tokens form, if its nesting is within a limit. -/
def ofTokens (limit : Nat) (tokens : List Token) : Except ParseFault Node :=
  match Rule.program limit (.ofTokens tokens) with
  | .ok program _ => .ok program
  | .error fault _ => .error fault

/-- The tokens of a source text, or a report on it. -/
def tokens (source : String) (name : Option String) : Except Failure (List Token) :=
  match Token.ofString source with
  | .ok tokens => .ok tokens
  | .error fault => .error (fault.failure name)

/-- The program of a source text, if its nesting is within a limit, or a report on it. -/
def ofStringWithin (limit : Nat) (source : String) (name : Option String) :
    Except Failure Node := do
  let tokens ← tokens source name
  match ofTokens limit tokens with
  | .ok program => .ok program
  | .error fault => .error (fault.failure name)

/-- What an attempt to read a program leaves: the program, or else a report on the text. -/
structure Attempt where
  program : Option Node
  report : Option Diagnostic
  deriving Repr

/-- Attempts to read the program of a source text. A report becomes part of the outcome; any other
failure is passed on. -/
def attempt (limit : Nat) (source : String) (name : Option String) : Except Failure Attempt :=
  match ofStringWithin limit source name with
  | .ok program => .ok ⟨some program, none⟩
  | .error (.diagnosed report) => .ok ⟨none, some report⟩
  | .error failure => .error failure

/-- Whether an attempt was successful. -/
def Attempt.ok (attempt : Attempt) : Bool :=
  attempt.report.isNone

/-- The program of an attempt, or the report on the text; there is nothing to give when both are
missing. -/
def Attempt.unwrap (attempt : Attempt) : Except (Option Diagnostic) Node :=
  match attempt.report, attempt.program with
  | some report, _ => .error (some report)
  | none, some program => .ok program
  | none, none => .error none

/-- The record of a text that was cut into tokens. -/
def tokensRecord (source : String) (tokens : List Token) : Emission :=
  .record "bolang.bolang_lexer"
    ("tokenized " ++ toString source.length ++ " characters into " ++ toString tokens.length ++
      " tokens")

/-- The record of a program that was read. -/
def programRecord (program : Node) : Emission :=
  .record "bolang.bolang_parser"
    ("parsed " ++ toString program.children.length ++ " top-level statements")

/-- The record of a source that is not a program. -/
def failureRecord (name : String) (failure : Failure) : Emission :=
  .record "bolang.bolang_parser" ("parse of " ++ name ++ " failed: " ++ failure.message)

/-- The records that reading a program leaves. -/
def records (limit : Nat) (source name : String) : List Emission :=
  let cut := match tokens source (some name) with
    | .ok tokens => [tokensRecord source tokens]
    | .error _ => []
  match ofStringWithin limit source (some name) with
  | .ok program => cut ++ [programRecord program]
  | .error failure => cut ++ [failureRecord name failure]

/-- A program as it is shown: as JSON or as an outline. -/
def text (program : Node) (json : Bool) : String :=
  if json then program.toJson.render else program.outline

/-- A program as it is shown, if the stack has room for its levels. -/
def text? (limits : Limits) (program : Node) (json : Bool) : Option String :=
  if program.height ≤ limits.levels json then some (text program json) else none

end Program

end BoSyntax

import BoSyntax.Text.Digit
import BoSyntax.Text.Quoted

/-!
# Options of the command line

Arguments are options, values of options, or operands. An option goes by a long name, which may be
cut short as long as it stays unambiguous and may carry a value after an equals sign, or by a short
name of one letter; short names may be run together, the last one followed by its value. Two dashes
alone end the options. Only one row of neighbouring operands is taken.
-/

namespace BoSyntax.CommandLine

/-- The options. -/
inductive Flag where
  | help
  | string
  | tokens
  | json
  | repl
  | verbose
  deriving DecidableEq, Repr

/-- The names of an option, a short one first. -/
def Flag.names : Flag → List String
  | .help => ["-h", "--help"]
  | .string => ["-s", "--string"]
  | .tokens => ["--tokens"]
  | .json => ["--json"]
  | .repl => ["--repl"]
  | .verbose => ["-v", "--verbose"]

/-- Whether an option needs a value. -/
def Flag.needsValue : Flag → Bool
  | .string => true
  | _ => false

/-- All options by their names. -/
def flagNames : List (String × Flag) :=
  [Flag.help, .string, .tokens, .json, .repl, .verbose].flatMap fun flag =>
    flag.names.map fun name => (name, flag)

/-- What the arguments ask for. -/
structure Options where
  /-- The paths of source files. -/
  paths : List String
  /-- A source text given directly. -/
  text : Option String
  tokens : Bool
  json : Bool
  repl : Bool
  verbose : Bool
  deriving DecidableEq, Repr

/-- Why arguments ask for no run. -/
inductive Refusal where
  /-- Help is asked for. -/
  | help
  /-- A name that several options could have. -/
  | ambiguous (argument : String) (names : List String)
  /-- An option without the value it needs. -/
  | missingValue (flag : Flag)
  /-- An option with a value it has no use for. -/
  | needlessValue (flag : Flag) (value : String)
  /-- Arguments that there is no use for. -/
  | unrecognized (arguments : List String)
  deriving DecidableEq, Repr

/-- An option in messages. -/
def Flag.shown (flag : Flag) : String :=
  "argument " ++ "/".intercalate flag.names

/-- What is said of a refusal. -/
def Refusal.message : Refusal → String
  | .help => ""
  | .ambiguous argument names =>
    "ambiguous option: " ++ argument ++ " could match " ++ ", ".intercalate names
  | .missingValue flag => flag.shown ++ ": expected one argument"
  | .needlessValue flag value =>
    flag.shown ++ ": ignored explicit argument " ++ Text.quoted value
  | .unrecognized arguments => "unrecognized arguments: " ++ " ".intercalate arguments

/-- What an argument is. -/
inductive Argument where
  /-- An operand, or the value of an option before it. -/
  | operand (text : String)
  /-- Two dashes, which end the options. -/
  | separator
  /-- An option by a short or long name, with what is attached to it. -/
  | flag (flag : Flag) (long : Bool) (attached : Option (List Char))
  /-- The like of an option. -/
  | unknown (text : String)
  deriving DecidableEq, Repr

/-- A text up to its first equals sign, and after it if there is one. -/
def splitAtSign (text : List Char) : List Char × Option (List Char) :=
  match text.dropWhile (· ≠ '=') with
  | [] => (text, none)
  | _ :: value => (text.takeWhile (· ≠ '='), some value)

/-- Whether what follows a dash is a number: digits, with a point between or before them if there
is one. A line feed may end it. -/
def isNumber (text : List Char) : Bool :=
  let text := if text.getLast? = some '\n' then text.dropLast else text
  match text.dropWhile Text.isDigit with
  | [] => !text.isEmpty
  | '.' :: fraction => !fraction.isEmpty && fraction.all Text.isDigit
  | _ => false

/-- The options that a dashed argument could mean, by their names: each long name that it is the
start of, or the short name that it starts with. -/
def candidates (text : List Char) : List (String × Argument) :=
  match text with
  | '-' :: '-' :: _ =>
    let (start, value) := splitAtSign text
    (flagNames.filter fun (name, _) => start.isPrefixOf name.toList).map fun (name, flag) =>
      (name, .flag flag true value)
  | mark :: letter :: value =>
    (flagNames.filter fun (name, _) => name.toList = [mark, letter]).map fun (name, flag) =>
      (name, .flag flag false (some value))
  | _ => []

/-- An option by its exact name, which is long if it has two dashes. -/
def named? (name : List Char) (attached : Option (List Char)) : Option Argument :=
  (flagNames.lookup (String.ofList name)).map fun flag =>
    .flag flag (name.take 2 == ['-', '-']) attached

/-- An option by its exact name with a value after an equals sign. -/
def namedWithValue? (text : List Char) : Option Argument :=
  match splitAtSign text with
  | (name, some value) => named? name (some value)
  | (_, none) => none

/-- What an argument is by itself. What looks like a negative number, or holds a space, is an
operand unless it has the name of an option. -/
def classify (argument : String) : Except Refusal Argument :=
  match argument.toList with
  | '-' :: rest =>
    let text := '-' :: rest
    match named? text none with
    | some found => .ok found
    | none =>
      if rest.isEmpty then .ok (.operand argument)
      else match namedWithValue? text with
        | some found => .ok found
        | none =>
          match candidates text with
          | [(_, found)] => .ok found
          | [] =>
            if isNumber rest || text.contains ' ' then .ok (.operand argument)
            else .ok (.unknown argument)
          | several => .error (.ambiguous argument (several.map Prod.fst))
  | _ => .ok (.operand argument)

/-- What the arguments are, up to two dashes; all after these are operands. -/
def classifyAll : List String → Except Refusal (List Argument)
  | [] => .ok []
  | argument :: rest =>
    if argument = "--" then .ok (.separator :: rest.map .operand)
    else do
      let first ← classify argument
      return first :: (← classifyAll rest)

/-- How an argument that names options ends. -/
inductive Ending where
  /-- With nothing further. -/
  | none
  /-- With an option whose value is to follow. -/
  | awaiting (flag : Flag)
  /-- With an option and its value. -/
  | value (flag : Flag) (value : String)
  deriving DecidableEq, Repr

/-- The value that is attached to an option. Two dashes there count as an empty value. -/
def attachedValue (attached : List Char) : String :=
  if attached = ['-', '-'] then "" else String.ofList attached

/-- An option with what is attached to it. That is its value if it needs one, and after a short name
that needs none, further short names run together with it. -/
def shortRun (flag : Flag) (long : Bool) : List Char → Except Refusal (List Flag × Ending)
  | [] =>
    if flag.needsValue then .ok ([], .value flag "") else .error (.needlessValue flag "")
  | letter :: rest =>
    if flag.needsValue then .ok ([], .value flag (attachedValue (letter :: rest)))
    else if long then .error (.needlessValue flag (String.ofList (letter :: rest)))
    else match flagNames.lookup (String.ofList ['-', letter]), rest with
      | none, _ => .error (.needlessValue flag (String.ofList (letter :: rest)))
      | some next, [] =>
        if next.needsValue then .ok ([flag], .awaiting next) else .ok ([flag, next], .none)
      | some next, letter :: rest => do
        let (flags, ending) ← shortRun next false (letter :: rest)
        return (flag :: flags, ending)

/-- The options that an argument names. -/
def expand (flag : Flag) (long : Bool) :
    Option (List Char) → Except Refusal (List Flag × Ending)
  | some attached => shortRun flag long attached
  | none => if flag.needsValue then .ok ([], .awaiting flag) else .ok ([flag], .none)

/-- Which operands have been met. -/
inductive Row where
  /-- None yet. -/
  | ahead
  /-- The row that is taken goes on. -/
  | within
  /-- The row that is taken is complete. -/
  | behind
  deriving DecidableEq, Repr

/-- The arguments read so far. -/
structure Reading where
  options : Options
  row : Row
  /-- The arguments that there is no use for. -/
  extras : List String
  deriving DecidableEq, Repr

namespace Reading

/-- Nothing read. -/
def start : Reading :=
  ⟨⟨[], none, false, false, false, false⟩, .ahead, []⟩

/-- Takes an operand, if it belongs to the first row of them. -/
def operand (reading : Reading) (text : String) : Reading :=
  match reading.row with
  | .behind => { reading with extras := reading.extras ++ [text] }
  | _ =>
    { reading with
      row := .within
      options := { reading.options with paths := reading.options.paths ++ [text] } }

/-- Takes two dashes. They belong to the row of operands around them. -/
def separator (reading : Reading) : Reading :=
  match reading.row with
  | .behind => { reading with extras := reading.extras ++ ["--"] }
  | _ => { reading with row := .within }

/-- Ends the row of operands at an option, if it has begun. -/
def endRow (reading : Reading) : Reading :=
  match reading.row with
  | .ahead => reading
  | _ => { reading with row := .behind }

/-- Takes an argument that there is no use for. -/
def extra (reading : Reading) (text : String) : Reading :=
  { reading with extras := reading.extras ++ [text] }

/-- Takes an option with its value. -/
def value (reading : Reading) (flag : Flag) (value : String) : Reading :=
  match flag with
  | .string => { reading with options := { reading.options with text := some value } }
  | _ => reading

/-- Takes an option without a value. Help is given at once. -/
def switch (reading : Reading) (flag : Flag) : Except Refusal Reading :=
  let options := reading.options
  match flag with
  | .help => .error .help
  | .string => .error (.missingValue .string)
  | .tokens => .ok { reading with options := { options with tokens := true } }
  | .json => .ok { reading with options := { options with json := true } }
  | .repl => .ok { reading with options := { options with repl := true } }
  | .verbose => .ok { reading with options := { options with verbose := true } }

end Reading

/-- Reads arguments one after the other. -/
def interpret (reading : Reading) : List Argument → Except Refusal Reading
  | [] => .ok reading
  | .operand text :: rest => interpret (reading.operand text) rest
  | .separator :: rest => interpret reading.separator rest
  | .unknown text :: rest => interpret (reading.endRow.extra text) rest
  | .flag flag long attached :: rest =>
    match expand flag long attached, rest with
    | .error refusal, _ => .error refusal
    | .ok (flags, .none), rest => do interpret (← flags.foldlM Reading.switch reading.endRow) rest
    | .ok (flags, .value flag value), rest => do
      interpret ((← flags.foldlM Reading.switch reading.endRow).value flag value) rest
    | .ok (flags, .awaiting flag), .operand value :: rest => do
      interpret ((← flags.foldlM Reading.switch reading.endRow).value flag value) rest
    | .ok (_, .awaiting flag), _ => .error (.missingValue flag)

/-- What the arguments ask for. -/
def options (arguments : List String) : Except Refusal Options := do
  let reading ← interpret .start (← classifyAll arguments)
  if reading.extras.isEmpty then .ok reading.options else .error (.unrecognized reading.extras)

/-- The line that tells how to call the program. -/
def usage : String :=
  "usage: bolang [-h] [-s SOURCE] [--tokens] [--json] [--repl] [-v] [sources ...]\n"

/-- The text that help is given with. -/
def help : String :=
  usage ++
    "\nTokenize and parse BoLang source.\n" ++
    "\npositional arguments:\n" ++
    "  sources               Source files (.bo)\n" ++
    "\noptions:\n" ++
    "  -h, --help            show this help message and exit\n" ++
    "  -s SOURCE, --string SOURCE\n" ++
    "                        Parse SOURCE as a literal string\n" ++
    "  --tokens              Print tokens instead of the AST\n" ++
    "  --json                Print the AST as JSON\n" ++
    "  --repl                Launch the interactive REPL\n" ++
    "  -v, --verbose         Enable debug logging\n"

end BoSyntax.CommandLine

import BoSyntax.CommandLine.Run

/-!
# The program

Connects the runs of the command line to the arguments, files and terminal of a process.
-/

namespace BoSyntax.Main

/-- A fault of the file system by its number, which may have come negated. -/
def faultOfCode? (path : Path) (code : UInt32) : Option FileFault :=
  let number := min code (0 - code)
  if number = 20 then some (.notFolder path)
  else if number = 21 then some (.isFolder path)
  else if number = 36 then some (.nameTooLong path)
  else none

/-- A fault of the file system. -/
def fileFault (path : Path) (fault : IO.Error) : FileFault :=
  match fault with
  | .noFileOrDirectory .. => .missing path
  | .inappropriateType _ code _ | .invalidArgument _ code _ =>
    (faultOfCode? path code).getD (.other (toString fault))
  | _ => .other (toString fault)

/-- The bytes of a file, or why they cannot be had. -/
def readFile (path : Path) : IO (Except FileFault (List UInt8)) := do
  try
    return .ok (← IO.FS.readBinFile path.text).toList
  catch fault =>
    return .error (fileFault path fault)

/-- A store of the files at some paths, which are read beforehand. -/
def readStore (paths : List String) : IO Store := do
  let contents ← paths.mapM fun path => do
    let path := Path.ofString path
    return (path, ← readFile path)
  return fun path => (contents.lookup path).getD (.error (.missing path))

/-- Writes what was given off. -/
def write (verbose : Bool) (emissions : List Emission) : IO Unit := do
  for emission in emissions do
    IO.print emission.toOutput
    IO.eprint (emission.toError verbose)
  (← IO.getStdout).flush

/-- The room on the stack that a process counts on. What is proved of runs holds for any numbers. -/
def limits : Limits :=
  ⟨200, 330, 490⟩

/-- Asks for replies until the session ends. -/
partial def converse (verbose : Bool) (session : Session) : IO Unit := do
  write verbose [.output session.prompt]
  let line ← (← IO.getStdin).getLine
  let reply : Reply :=
    if line.isEmpty then .endOfInput
    else if line.endsWith "\n" then .line (String.ofList line.toList.dropLast)
    else .line line
  let (next, shown) := session.step limits reply
  write verbose shown
  match next with
  | none => return
  | some next => converse verbose next

/-- Writes what a run gave off and gives its exit status, which for a run that was ended is that of
a failure. -/
def finish (result : CommandLine.Result) : IO UInt32 := do
  write result.verbose result.emissions
  match result.status with
  | .ok status => return status.toUInt32
  | .error abort =>
    write result.verbose [.errorLine abort.message]
    return 1

end BoSyntax.Main

open BoSyntax BoSyntax.CommandLine in
/-- Runs the program with the arguments of the process. -/
def main (arguments : List String) : IO UInt32 := do
  match options arguments with
  | .ok options =>
    if isInteractive options then
      Main.write options.verbose [Session.banner]
      Main.converse options.verbose (.start ⟨options.tokens, options.json⟩)
      return 0
    Main.finish (run Main.limits .program (← Main.readStore options.paths) [] arguments)
  | .error refusal => Main.finish (refuse refusal)

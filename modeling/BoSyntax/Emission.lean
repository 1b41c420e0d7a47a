/-!
# Emissions

What a run of the program gives off, in order: text for standard output, text for standard error,
and records of its progress, which reach standard error only when they are asked for.
-/

namespace BoSyntax

/-- Something that a run gives off. -/
inductive Emission where
  | output (text : String)
  | error (text : String)
  | record (logger message : String)
  deriving DecidableEq, Repr

namespace Emission

/-- A line for standard output. -/
def line (text : String) : Emission :=
  .output (text ++ "\n")

/-- A line for standard error. -/
def errorLine (text : String) : Emission :=
  .error (text ++ "\n")

/-- What an emission adds to standard output. -/
def toOutput : Emission → String
  | .output text => text
  | _ => ""

/-- What an emission adds to standard error. -/
def toError (verbose : Bool) : Emission → String
  | .output _ => ""
  | .error text => text
  | .record logger message =>
    if verbose then "DEBUG " ++ logger ++ ": " ++ message ++ "\n" else ""

/-- The standard output of a run. -/
def standardOutput (emissions : List Emission) : String :=
  String.join (emissions.map toOutput)

/-- The standard error of a run, with or without the records. -/
def standardError (verbose : Bool) (emissions : List Emission) : String :=
  String.join (emissions.map (toError verbose))

end Emission

end BoSyntax

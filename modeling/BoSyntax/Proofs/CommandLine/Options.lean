import BoSyntax.CommandLine.Options
import BoSyntax.Proofs.Step

/-!
# Arguments for options

Any paths, any switches and any text but two dashes can be asked for: the switches by their long
names, the text behind an equals sign, and the paths behind two dashes, where nothing is an option.
Two dashes are never the text, as they are not taken for a value.
-/

namespace BoSyntax.CommandLine

/-! ## Spelling options -/

/-- The arguments that ask for options. -/
def Options.arguments (asked : Options) : List String :=
  (if asked.tokens then ["--tokens"] else []) ++ (if asked.json then ["--json"] else []) ++
    (if asked.repl then ["--repl"] else []) ++ (if asked.verbose then ["--verbose"] else []) ++
    (asked.text.map fun text => "--string=" ++ text).toList ++ "--" :: asked.paths

/-- What the arguments that ask for options are. -/
def Options.spelled (asked : Options) : List Argument :=
  (if asked.tokens then [.flag .tokens true none] else []) ++
    (if asked.json then [.flag .json true none] else []) ++
    (if asked.repl then [.flag .repl true none] else []) ++
    (if asked.verbose then [.flag .verbose true none] else []) ++
    (asked.text.map fun text => .flag .string true (some text.toList)).toList ++
    .separator :: asked.paths.map .operand

end BoSyntax.CommandLine

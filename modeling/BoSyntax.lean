import BoSyntax.Main
import BoSyntax.Node.Walk
import BoSyntax.Proofs.Grammar.Nesting
import BoSyntax.Proofs.Program.Concatenation
import BoSyntax.Proofs.Program.Inventory
import BoSyntax.Proofs.Program.Outline
import BoSyntax.Proofs.Program.Spelling
import BoSyntax.Proofs.Grammar.Block
import BoSyntax.Proofs.Program.Wording
import BoSyntax.Proofs.Program.Block
import BoSyntax.Proofs.Program.Trimming
import BoSyntax.Proofs.Session.Entry
import BoSyntax.Proofs.Binary64.Rounding
import BoSyntax.Proofs.Binary64.Shortest
import BoSyntax.Proofs.Json.Numeral
import BoSyntax.Proofs.Json.Quoted
import BoSyntax.Proofs.Json.Document
import BoSyntax.Proofs.Json.Rendering
import BoSyntax.Proofs.Node.Json
import BoSyntax.Proofs.Program.Json
import BoSyntax.Proofs.Source.Reading
import BoSyntax.Proofs.Session.Transcript
import BoSyntax.Proofs.Session.Typed
import BoSyntax.Proofs.Program.FunctionBody
import BoSyntax.Proofs.Grammar.Precedence
import BoSyntax.Proofs.Grammar.Place
import BoSyntax.Proofs.Program.Place
import BoSyntax.Proofs.Program.Detection
import BoSyntax.Proofs.Token.Consumption
import BoSyntax.Proofs.Grammar.Calls
import BoSyntax.Proofs.Program.Ending
import BoSyntax.Proofs.CommandLine.TokenModes
import BoSyntax.Proofs.Node.Traversal
import BoSyntax.Proofs.Node.Shift
import BoSyntax.Proofs.Binary64.Nearest
import BoSyntax.Proofs.Program.Numeral

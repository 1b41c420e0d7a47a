/-!
# Positions

Where something stands in a text. Positions are carried along for messages; they never influence
what a text means.
-/

namespace BoSyntax

/-- A place in a source text: line and column, both counted from 1. -/
structure Position where
  line : Int
  column : Int
  deriving DecidableEq, Repr

end BoSyntax

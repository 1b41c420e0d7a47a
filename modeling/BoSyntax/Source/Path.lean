/-!
# Paths

A path names a file by the segments to follow, separated by slashes. Empty segments and segments
that stay in place do not count; steps to the parent are kept, as they cannot be dropped without
looking at the files.
-/

namespace BoSyntax

/-- A path: where it starts, and the segments to follow. -/
structure Path where
  /-- Empty for the current folder, otherwise the slashes of the root. -/
  root : String
  segments : List String
  deriving DecidableEq, Repr

namespace Path

/-- The segments of a text that count. -/
def split (text : String) : List String :=
  (text.splitOn "/").filter fun segment => segment ≠ "" ∧ segment ≠ "."

/-- The path that a text names. Exactly two leading slashes are a root of their own. -/
def ofString (text : String) : Path :=
  let segments := split text
  match text.toList with
  | '/' :: '/' :: '/' :: _ => ⟨"/", segments⟩
  | '/' :: '/' :: _ => ⟨"//", segments⟩
  | '/' :: _ => ⟨"/", segments⟩
  | _ => ⟨"", segments⟩

/-- A path in its normal form; the current folder is a single dot. -/
def text (path : Path) : String :=
  if path.root = "" ∧ path.segments = [] then "."
  else path.root ++ "/".intercalate path.segments

end Path

end BoSyntax

import BoSyntax.Binary64.Shortest
import BoSyntax.Text.Hexadecimal

/-!
# JSON documents

Values in the JSON data model, with the fields of an object in order, and their text: one item a
line, indented by two spaces a level, in ASCII. Numbers are written with the fewest digits that
read back; infinities and nans are written as words.
-/

namespace BoSyntax

/-- A JSON value. -/
inductive Json where
  | null
  | bool (value : Bool)
  | number (value : Binary64)
  | string (text : String)
  | array (items : List Json)
  | object (fields : List (String × Json))

namespace Json

/-- A code unit as an escape sequence. -/
def unitEscape (codeUnit : Nat) : String :=
  "\\u" ++ Text.hexadecimal 4 codeUnit

/-- One character of a string. Characters beyond ASCII are written as their UTF-16 code units. -/
def escaped (c : Char) : String :=
  if c = '"' then "\\\""
  else if c = '\\' then "\\\\"
  else if c = '\n' then "\\n"
  else if c = '\r' then "\\r"
  else if c = '\t' then "\\t"
  else if c = '\x0c' then "\\f"
  else if c = '\x08' then "\\b"
  else if 0x20 ≤ c.toNat ∧ c.toNat < 0x7f then String.singleton c
  else if c.toNat < 0x10000 then unitEscape c.toNat
  else
    let rest := c.toNat - 0x10000
    unitEscape (0xD800 + rest / 0x400) ++ unitEscape (0xDC00 + rest % 0x400)

/-- A string between double quotes. -/
def stringText (text : String) : String :=
  "\"" ++ String.join (text.toList.map escaped) ++ "\""

/-- The text of a number. -/
def numberText : Binary64 → String
  | .nan => "NaN"
  | .infinite negative => if negative then "-Infinity" else "Infinity"
  | value => value.text

/-- A new line at a level of nesting. -/
def lineBreak (level : Nat) : String :=
  String.ofList ('\n' :: List.replicate (2 * level) ' ')

mutual

/-- The text of a value at a level of nesting, in pieces. -/
def pieces (level : Nat) : Json → List String
  | .null => ["null"]
  | .bool value => [if value then "true" else "false"]
  | .number value => [numberText value]
  | .string text => [stringText text]
  | .array [] => ["[]"]
  | .array (item :: items) =>
    "[" :: lineBreak (level + 1) :: (pieces (level + 1) item ++ itemPieces (level + 1) items ++
      [lineBreak level, "]"])
  | .object [] => ["\x7b\x7d"]
  | .object ((name, value) :: fields) =>
    "\x7b" :: lineBreak (level + 1) :: stringText name :: ": " ::
      (pieces (level + 1) value ++ fieldPieces (level + 1) fields ++ [lineBreak level, "\x7d"])

/-- The items of an array after its first, in pieces. -/
def itemPieces (level : Nat) : List Json → List String
  | [] => []
  | item :: items => "," :: lineBreak level :: (pieces level item ++ itemPieces level items)

/-- The fields of an object after its first, in pieces. -/
def fieldPieces (level : Nat) : List (String × Json) → List String
  | [] => []
  | (name, value) :: fields =>
    "," :: lineBreak level :: stringText name :: ": " ::
      (pieces level value ++ fieldPieces level fields)

end

/-- The text of a document. -/
def render (value : Json) : String :=
  String.join (pieces 0 value)

end Json

end BoSyntax

import BoSyntax.Text.Index
import BoSyntax.Text.Position
import BoSyntax.Text.Quoted

/-!
# A cursor on a source text

The cursor reads a text character by character and keeps count of lines and columns. Its offset
may be any integer: at an offset before the text nothing is in sight, but reading counts from the
end of the text, so that reading from -1 gives the last character.
-/

namespace BoSyntax

/-- A place in a text that is being read. -/
structure TextCursor where
  source : Array Char
  offset : Int
  line : Int
  column : Int
  deriving DecidableEq, Repr

/-- Why a text cannot be read on. -/
inductive ReadFault where
  /-- The offset is at the end of the text or past it. -/
  | pastEnd (offset line : Int)
  /-- The offset is negative and stands for no place in the text. -/
  | badOffset (fault : IndexFault)
  /-- One character was needed where so many are in sight. -/
  | notOneCharacter (length : Nat)
  /-- A character that starts no token. -/
  | illegal (char : Char) (place : Position)
  deriving DecidableEq, Repr

/-- What is said of a character that starts no token. -/
def illegalCharacterMessage (char : Char) : String :=
  "Unrecognized character in source: " ++ toString char.toNat ++ " " ++
    Text.quoted (String.singleton char)

/-- What is said of a fault. -/
def ReadFault.message : ReadFault → String
  | .pastEnd offset line =>
    "CharacterStreamError: Attempted to read past end of source at position=<" ++
      toString offset ++ ">, line=<" ++ toString line ++ ">"
  | .badOffset fault => fault.message "string"
  | .notOneCharacter length =>
    "ord() expected a character, but string of length " ++ toString length ++ " found"
  | .illegal char _ => illegalCharacterMessage char

namespace TextCursor

/-- A cursor at the start of a text. -/
def ofString (source : String) : TextCursor :=
  ⟨source.toList.toArray, 0, 1, 1⟩

/-- Where the next character stands. -/
def position (cursor : TextCursor) : Position :=
  ⟨cursor.line, cursor.column⟩

/-- Whether the text is at its end. -/
def atEnd (cursor : TextCursor) : Bool :=
  decide ((cursor.source.size : Int) ≤ cursor.offset)

/-- The character at some distance from the offset, if one is in sight there. -/
def peek (cursor : TextCursor) (distance : Int) : Option Char :=
  let index := cursor.offset + distance
  if index < 0 then none else cursor.source[index.toNat]?

/-- How many characters are left before the end of the text. -/
def remaining (cursor : TextCursor) : Nat :=
  (cursor.source.size - cursor.offset).toNat

/-- The cursor after a character: a line feed starts the next line at column 1. -/
def after (cursor : TextCursor) (c : Char) : TextCursor :=
  if c = '\n' then
    { cursor with offset := cursor.offset + 1, line := cursor.line + 1, column := 1 }
  else
    { cursor with offset := cursor.offset + 1, column := cursor.column + 1 }

end TextCursor

/-- A step of reading. A step that fails leaves the cursor where the failure was met. -/
abbrev Scan := EStateM ReadFault TextCursor

namespace Scan

/-- Reads one character. -/
def next : Scan Char := do
  let cursor ← get
  if cursor.atEnd then throw (.pastEnd cursor.offset cursor.line)
  match placeOfIndex cursor.source.size cursor.offset with
  | .error fault => throw (.badOffset fault)
  | .ok place =>
    let c := cursor.source[place]
    set (cursor.after c)
    return c

/-- Reads on while the character in sight is as wanted, for at most so many characters. -/
def takeUpTo (wanted : Option Char → Bool) : Nat → Scan (List Char)
  | 0 => return []
  | count + 1 => do
    let cursor ← get
    if cursor.atEnd || !wanted (cursor.peek 0) then return []
    let c ← next
    return c :: (← takeUpTo wanted count)

/-- Reads on while the character in sight is as wanted, to the end of the text at most. -/
def takeWhile (wanted : Option Char → Bool) : Scan (List Char) := do
  takeUpTo wanted (← get).remaining

end Scan

end BoSyntax

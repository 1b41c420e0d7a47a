import BoSyntax.Emission
import BoSyntax.Source.Path
import BoSyntax.Source.Utf8
import BoSyntax.Text.Quoted

/-!
# Sources

Where a program's text comes from: a text given directly, or a file. A file holds UTF-8, and each
of the three usual line ends in it is read as a line feed.
-/

namespace BoSyntax

/-- Why the text of a source cannot be had. -/
inductive FileFault where
  /-- Nothing has this name. -/
  | missing (path : Path)
  /-- What has this name is a folder. -/
  | isFolder (path : Path)
  /-- What should be a folder on the way is a file. -/
  | notFolder (path : Path)
  /-- The path, or a segment of it, is longer than names of files can be. -/
  | nameTooLong (path : Path)
  /-- The path holds a null character, which ends names of files. -/
  | nullInPath
  /-- Any other fault of the file system, in its own words. -/
  | other (words : String)
  /-- The file does not hold UTF-8. -/
  | undecodable (fault : Utf8.DecodeFault)
  deriving DecidableEq, Repr

/-- What is said of a fault. -/
def FileFault.message : FileFault → String
  | .missing path => "[Errno 2] No such file or directory: " ++ Text.quoted path.text
  | .isFolder path => "[Errno 21] Is a directory: " ++ Text.quoted path.text
  | .notFolder path => "[Errno 20] Not a directory: " ++ Text.quoted path.text
  | .nameTooLong path => "[Errno 36] File name too long: " ++ Text.quoted path.text
  | .nullInPath => "embedded null byte"
  | .other words => words
  | .undecodable fault => fault.message

/-- Whether a fault ends a run, as it lies in the arguments and not in the files. -/
def FileFault.endsRun : FileFault → Bool
  | .nullInPath => true
  | _ => false

/-- A way to have the bytes of files. -/
abbrev Store := Path → Except FileFault (List UInt8)

/-- A source of program text. -/
inductive Source where
  /-- A text with a name for it. -/
  | text (content name : String)
  /-- A file, by the path given for it. -/
  | file (path : String)
  deriving DecidableEq, Repr

namespace Source

/-- The name of a text that is given none. -/
def textName : String :=
  "<string>"

/-- The end of the names of program files. -/
def suffix : String :=
  ".bo"

/-- The name of a source in reports. -/
def name : Source → String
  | .text _ name => name
  | .file path => path

/-- Whether a source may hold a program: a file must have the right end to its name. -/
def isSupported : Source → Bool
  | .text .. => true
  | .file path => suffix.toList.isSuffixOf path.toList

/-- A text with each line end as a line feed. -/
def unifyLineEnds : List Char → List Char
  | [] => []
  | '\r' :: '\n' :: rest => '\n' :: unifyLineEnds rest
  | '\r' :: rest => '\n' :: unifyLineEnds rest
  | c :: rest => c :: unifyLineEnds rest

/-- The text that the bytes of a file stand for. -/
def textOfBytes (bytes : List UInt8) : Except FileFault String :=
  match Utf8.decode bytes with
  | .ok characters => .ok (String.ofList (unifyLineEnds characters))
  | .error fault => .error (.undecodable fault)

/-- The text of a source. -/
def read (store : Store) : Source → Except FileFault String
  | .text content _ => .ok content
  | .file path => do
    if path.toList.contains '\x00' then throw .nullInPath
    textOfBytes (← store (.ofString path))

/-- The records that reading a source leaves. -/
def records : Source → List Emission
  | .text .. => []
  | .file path =>
    [.record "bolang.bolang_source" ("reading source from " ++ (Path.ofString path).text)]

end Source

end BoSyntax

import TinyScript.Text.Plain
import TinyScript.Text.Quoted
import TinyScript.Text.Utf8

/-!
# Source files

A `Directory` holds the files that a path can lead to, and `Directory.lookup` follows a path in it. A source file is UTF-8
text in which every way to end a line is read as a line feed (`readSource`).
-/

namespace TinyScript

/-- What a path leads to. -/
inductive Entry where
  /-- A file and its bytes. -/
  | file (bytes : List UInt8)
  /-- A directory. -/
  | directory
  /-- Nothing. -/
  | missing
  /-- Nothing, for the path goes on behind a file. -/
  | throughFile
  /-- Nothing, for a name or the whole path is longer than any can be. -/
  | tooLong
  /-- Nothing, for no path holds a null character. -/
  | invalid
deriving DecidableEq

/-- Why the text of a source file cannot be had. -/
inductive FileFault where
  | missing (path : String)
  | directory (path : String)
  | throughFile (path : String)
  | tooLong (path : String)
  | invalidPath
  | undecodable (fault : Utf8.Fault)
deriving DecidableEq

/-- The files of a directory by their names; a name with slashes lies in directories below. -/
structure Directory where
  files : List (String × List UInt8)

/-- The place that a path has come to. -/
inductive Place where
  /-- In the directory or below it, at the names that lead there. -/
  | inside (names : List (List Char))
  /-- Above the directory. Of what is there nothing is known but the directories on the way up. -/
  | above
deriving DecidableEq

namespace Place

/-- The directory that a place lies in. The root lies in itself. -/
def parent : Place → Place
  | inside [] => above
  | inside names => inside names.dropLast
  | above => above

end Place

namespace Directory

/-- The names that a path goes through. -/
def components (path : List Char) : List (List Char) := path.splitOn '/'

/-- The longest name that a file can have, in bytes of UTF-8. -/
def maxName : Nat := 255

/-- The longest path that can be followed, in bytes of UTF-8. -/
def maxPath : Nat := 4095

/-- The entry at the names, one or more, that lead to it from the directory. -/
def entryAt (d : Directory) (names : List (List Char)) : Entry :=
  match d.files.find? fun file => components file.1.toList == names with
  | some file => .file file.2
  | none => if d.files.any fun file => names.isPrefixOf (components file.1.toList) then .directory else .missing

/-- Follows a path from a place that is a directory. An empty name and a single point stay there, and two points go to the
parent. -/
def follow (d : Directory) : Place → List (List Char) → Entry
  | _, [] => .directory
  | place, name :: rest =>
    if name = [] ∨ name = ['.'] then d.follow place rest
    else if name = ['.', '.'] then d.follow place.parent rest
    else if maxName < (String.ofList name).utf8ByteSize then .tooLong
    else
      match place with
      | .above => .missing
      | .inside names =>
        match d.entryAt (names ++ [name]) with
        | .directory => d.follow (.inside (names ++ [name])) rest
        | .file bytes => if rest.isEmpty then .file bytes else .throughFile
        | other => other

/-- Follows a path. The empty path leads nowhere, and an absolute one starts at the root. -/
def lookup (d : Directory) (path : String) : Entry :=
  if path.toList.contains '\x00' then .invalid
  else if path.isEmpty then .missing
  else if maxPath < path.utf8ByteSize then .tooLong
  else d.follow (if path.startsWith "/" then .above else .inside []) (components path.toList)

end Directory

/-- The text of a source file. -/
def sourceText (bytes : List UInt8) : Except FileFault String :=
  match Utf8.decode bytes with
  | .ok chars => .ok (String.ofList (Text.unifyNewlines chars))
  | .error fault => .error (.undecodable fault)

/-- The text that a path leads to. -/
def readSource (look : String → Entry) (path : String) : Except FileFault String :=
  match look path with
  | .file bytes => sourceText bytes
  | .directory => .error (.directory path)
  | .missing => .error (.missing path)
  | .throughFile => .error (.throughFile path)
  | .tooLong => .error (.tooLong path)
  | .invalid => .error .invalidPath

/-- The bytes of a fault in words: one by its value, several by their places. -/
def Utf8.Fault.place (fault : Utf8.Fault) : String :=
  if fault.more = 0 then
    "byte 0x" ++ String.ofList (Text.hex 2 fault.byte.toNat) ++ " in position " ++ toString fault.offset
  else "bytes in position " ++ toString fault.offset ++ "-" ++ toString (fault.offset + fault.more)

/-- The reason of a fault in words. -/
def Utf8.Reason.text : Utf8.Reason → String
  | invalidStart => "invalid start byte"
  | invalidContinuation => "invalid continuation byte"
  | unexpectedEnd => "unexpected end of data"

/-- Why a source file cannot be read, in words. -/
def FileFault.message : FileFault → String
  | missing path => "[Errno 2] No such file or directory: " ++ Text.quoted path
  | directory path => "[Errno 21] Is a directory: " ++ Text.quoted path
  | throughFile path => "[Errno 20] Not a directory: " ++ Text.quoted path
  | tooLong path => "[Errno 36] File name too long: " ++ Text.quoted path
  | invalidPath => "embedded null byte"
  | undecodable fault => "'utf-8' codec can't decode " ++ fault.place ++ ": " ++ fault.reason.text

end TinyScript

import TinyScript.Command.Run

/-!
# The program

The command on the files of the machine: the one path that the arguments may name is looked up, and everything else is
`Command.run`.
-/

namespace TinyScript.Command

/-- The error code of reading a directory as a file. -/
def isDirectoryCode : UInt32 := 21

/-- What a path leads to on this machine. -/
def entryOf (path : String) : IO Entry := do
  try
    return .file (← IO.FS.readBinFile path).toList
  catch
    | .inappropriateType _ code _ => return if code = isDirectoryCode then .directory else .throughFile
    | _ => return .missing

/-- The path that the arguments name. -/
def namedPath? (arguments : List String) : Option String :=
  match Console.piped.options arguments with
  | .ok o => o.positional.head?
  | .error _ => none

end TinyScript.Command

open TinyScript TinyScript.Command in
/-- Runs the command. A failure that it does not report itself is named on the error output. -/
def main (arguments : List String) : IO UInt32 := do
  let entry ← match namedPath? arguments with
    | some path => entryOf path
    | none => pure .missing
  let ending := run (fun _ => entry) arguments
  IO.print ending.stdout
  IO.eprint ending.stderr
  if let some failure := ending.unreported then IO.eprintln failure.message
  return ending.exitCode.toUInt32

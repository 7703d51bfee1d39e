import SclNarrator.Command.Run

/-!
The command line itself: it reads what a command needs, prints how the command ended, and exits.
-/

namespace SclNarrator.Main

/-- The bytes of a file, or why it cannot be read. -/
def readBytes (path : Text) : IO (Except ReadFault (List UInt8)) := do
  let shown := Path.normalize path
  if let some fault := Path.fault? path then return .error fault
  try
    return .ok (← IO.FS.readBinFile path.string).toList
  catch
    | .noFileOrDirectory .. => return .error (.notFound shown)
    | _ => return .error (.isDirectory shown)

partial def readStream (stream : IO.FS.Stream) (read : ByteArray) : IO ByteArray := do
  let chunk ← stream.read 65536
  if chunk.isEmpty then return read else readStream stream (read ++ chunk)

def codeOf : Command → Text
  | .analyze code .. => code
  | .classify code => code

/-- The files that a command reads; code may come from the standard input, and tags may not. -/
def filesOf (command : Command) : List Text :=
  let code := [codeOf command].filter (· != "-".toText)
  match command with
  | .analyze _ tags .. => code ++ tags.toList
  | .classify _ => code

/-- The paths that a command line makes it read, with what was read. -/
def readAll (paths : List Text) : IO (List (Text × Except ReadFault (List UInt8))) :=
  paths.mapM fun path => do return (path, ← readBytes path)

end SclNarrator.Main

open SclNarrator SclNarrator.Main

/-- Runs the command that the arguments ask for. -/
def main (arguments : List String) : IO UInt32 := do
  let arguments := arguments.map String.toText
  let command? := Command.parse? arguments
  let files ← readAll ((command?.map filesOf).getD [])
  let standard ←
    if command?.map codeOf = some "-".toText then readStream (← IO.getStdin) .empty
    else pure .empty
  let input : Command.Input :=
    { file := fun path => (files.lookup path).getD (.error (.notFound (Path.normalize path)))
      standard := standard.toList }
  let ending := Command.runArguments input arguments
  (← IO.getStdout).putStr ending.output.string
  (← IO.getStderr).putStr ending.errorOutput.string
  return ending.exitCode.toUInt32

import Colloquy.CommandLine

/-!
# The program

Reads what is under the paths of the command line, carries the command out, and prints.  The program
ends with 0 if all went well, with 1 if the command failed, and with 2 if the command line was not
understood.
-/

namespace Colloquy

/-- The reason that the system gives for not reading. -/
def ReadError.ofSystem : IO.Error → ReadError
  | .noFileOrDirectory .. => .notFound
  | .permissionDenied .. => .denied
  | .inappropriateType _ 21 _ => .isDirectory
  | .inappropriateType .. => .notDirectory
  | e => .failed e.toString

/-- Reads a file, or a directory with all that is in it.  What cannot be read inside of a directory
is left out. -/
partial def FileTree.fromDisk (path : String) : IO FileTree := do
  match ← (IO.FS.readBinFile path).toBaseIO with
  | .ok content => return .file content
  | .error e =>
    match ReadError.ofSystem e with
    | .isDirectory =>
      let mut entries : List (String × FileTree) := []
      for entry in ← (← IO.FS.realPath path).readDir do
        match ← (fromDisk (Path.join path entry.fileName)).toBaseIO with
        | .ok tree => entries := (entry.fileName, tree) :: entries
        | .error _ => pure ()
      return .directory entries
    | _ => throw e

/-- What is on the disk under some paths. -/
def Files.fromDisk (paths : List String) : IO Files := do
  let found ← paths.mapM fun path => return (path, ← (FileTree.fromDisk path).toBaseIO)
  return fun path =>
    match found.lookup path with
    | some (.ok tree) => .ok tree
    | some (.error e) => .error (.ofSystem e)
    | none => .error .notFound

end Colloquy

open Colloquy in
/-- Carries out a command line. -/
def main (arguments : List String) : IO UInt32 := do
  match Invocation.parse arguments with
  | none =>
    IO.eprintln "error: usage: colloquy [--prompts DIR] render FILE [--input JSON] [--history FILE]"
    IO.eprintln "              colloquy [--prompts DIR] schema FILE"
    return 2
  | some invocation =>
    match invocation.run (← Files.fromDisk invocation.paths) with
    | .ok output =>
      IO.print output
      return 0
    | .error e =>
      IO.eprintln ("Error: " ++ e.message)
      return 1

import Demux.CommandLine.Run

/-!
The program: its commands over the files of the machine.
-/

namespace Demux

def FileError.ofError : IO.Error → FileError
  | .noFileOrDirectory .. => .notFound
  | .alreadyExists .. => .exists
  | .inappropriateType _ 20 _ => .notDirectory
  | .inappropriateType _ 21 _ => .isDirectory
  | .invalidArgument _ 36 _ => .nameTooLong
  | e => .other (toString e)

def tryFile {α : Type} (action : IO α) : IO (Except FileError α) := do
  try return .ok (← action)
  catch e => return .error (.ofError e)

/-- A file can be opened and read; a directory can only be opened. -/
def kindOnDisk (path : String) : IO (Option FileKind) := do
  match ← tryFile (IO.FS.Handle.mk path .read) with
  | .error _ => return none
  | .ok handle =>
    match ← tryFile (handle.read 1) with
    | .ok _ => return some .file
    | .error _ => return some .directory

instance : MonadFiles IO where
  kind? := kindOnDisk
  read path := do
    if (← kindOnDisk path) = some .directory then return .error .isDirectory
    tryFile (IO.FS.readBinFile path)
  makeDirectory path := do
    if (← kindOnDisk path) = some .file then return .error .exists
    tryFile (IO.FS.createDirAll path)
  write path content := tryFile (IO.FS.writeBinFile path content)
  home? := IO.getEnv "HOME"
  print := IO.print
  randomSeed := return (← IO.getRandomBytes 8).toUInt64LE!

end Demux

def main (arguments : List String) : IO UInt32 := do
  let result ← (Demux.CommandLine.run arguments : IO _)
  IO.eprint result.errors
  return .ofNat result.exitCode

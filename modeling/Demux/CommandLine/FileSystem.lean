/-!
What the commands ask of the world around them: files, text output and a random seed.
-/

namespace Demux

inductive FileError where
  | notFound
  | exists
  | notDirectory
  | isDirectory
  | nameTooLong
  | notText
  | other (text : String)
  deriving Repr, DecidableEq

def FileError.message : FileError → String
  | .notFound => "No such file or directory (os error 2)"
  | .exists => "File exists (os error 17)"
  | .notDirectory => "Not a directory (os error 20)"
  | .isDirectory => "Is a directory (os error 21)"
  | .nameTooLong => "File name too long (os error 36)"
  | .notText => "stream did not contain valid UTF-8"
  | .other text => text

inductive FileKind where
  | file
  | directory
  deriving Repr, DecidableEq

class MonadFiles (m : Type → Type) where
  /-- What stands at a path, if anything does. -/
  kind? : String → m (Option FileKind)
  read : String → m (Except FileError ByteArray)
  /-- Makes a directory and those that it is in, as far as they are missing. -/
  makeDirectory : String → m (Except FileError Unit)
  /-- Makes a file, or replaces what is in it. -/
  write : String → ByteArray → m (Except FileError Unit)
  /-- Directory with the user's own settings. -/
  home? : m (Option String)
  print : String → m Unit
  randomSeed : m UInt64

namespace MonadFiles

def readText {m : Type → Type} [Monad m] [MonadFiles m] (path : String) :
    m (Except FileError String) := do
  let bytes ← read path
  return bytes.bind fun bytes => (String.fromUTF8? bytes).elim (.error .notText) .ok

end MonadFiles

end Demux

import Demux.CommandLine.FileSystem

/-!
A disk in memory, as it is seen from a working directory. Its names and paths are no longer than
those of a usual disk.
-/

namespace Demux

structure Disk where
  /-- The files by their places; the null device is an empty one. -/
  files : List (List String × ByteArray) := [(["/", "dev", "null"], .empty)]
  directories : List (List String) := []
  /-- What was printed. -/
  output : String := ""

namespace Disk

/-- The place of the topmost directory. Other places are given by the steps from the working
directory. -/
def root : List String := ["/"]

def isAbove (place : List String) : Bool := place.all (· = "..")

def parent (place : List String) : List String :=
  if place = root then root
  else if isAbove place then place ++ [".."]
  else place.dropLast

/-- What stands at a place. Nothing is known of the directories above the working directory, except
that they exist. -/
def kindAt? (disk : Disk) (place : List String) : Option FileKind :=
  if disk.files.any (·.1 = place) then some .file
  else if place = root ∨ isAbove place ∨ disk.directories.contains place then some .directory
  else if disk.files.any fun (file, _) => place.isPrefixOf file then some .directory
  else if disk.directories.any place.isPrefixOf then some .directory
  else none

def maxName : Nat := 255

def maxPath : Nat := 4095

def route (path : String) : Except FileError (List String × List String) :=
  if maxPath < path.utf8ByteSize then .error .nameTooLong
  else .ok (if path.startsWith "/" then root else [], path.splitOn "/")

def stays (step : String) : Bool := step = "" || step = "."

def next (place : List String) (step : String) : Except FileError (List String) :=
  if stays step then .ok place
  else if step = ".." then .ok (parent place)
  else if maxName < step.utf8ByteSize then .error .nameTooLong
  else .ok (place ++ [step])

def walk (disk : Disk) (place : List String) : List String → Except FileError (List String)
  | [] => .ok place
  | step :: rest =>
    match disk.kindAt? place with
    | none => .error .notFound
    | some .file => .error .notDirectory
    | some .directory => do disk.walk (← next place step) rest

def place (disk : Disk) (path : String) : Except FileError (List String) := do
  let (start, steps) ← route path
  disk.walk start steps

def kind? (disk : Disk) (path : String) : Option FileKind :=
  (disk.place path).toOption.bind disk.kindAt?

def read (disk : Disk) (path : String) : Except FileError ByteArray := do
  let place ← disk.place path
  match disk.files.lookup place, disk.kindAt? place with
  | some content, _ => .ok content
  | none, some _ => .error .isDirectory
  | none, none => .error .notFound

def makeAlong (place : List String) : List String → Disk → Except FileError Disk
  | [], disk =>
    match disk.kindAt? place with
    | some .file => .error .exists
    | some .directory => .ok disk
    | none => .ok { disk with directories := place :: disk.directories }
  | step :: rest, disk =>
    match disk.kindAt? place with
    | some .file => .error .notDirectory
    | found =>
      let disk :=
        if found.isNone then { disk with directories := place :: disk.directories } else disk
      do makeAlong (← next place step) rest disk

/-- Makes a directory and those that it is in. A dot can only be the last step of a path whose
directory is already there. -/
def makeDirectory (disk : Disk) (path : String) : Except FileError Disk := do
  let (start, steps) ← route path
  if (steps.filter (· ≠ "")).getLast? = some "." then
    let _ ← disk.walk start steps
    return disk
  else makeAlong start (steps.filter (!stays ·)) disk

def write (disk : Disk) (path : String) (content : ByteArray) : Except FileError Disk := do
  let place ← disk.place path
  match disk.kindAt? place, disk.kindAt? (parent place) with
  | some .directory, _ => .error .isDirectory
  | _, some .directory =>
    .ok { disk with files := (place, content) :: disk.files.filter (·.1 ≠ place) }
  | _, some .file => .error .notDirectory
  | _, none => .error .notFound

def entries (disk : Disk) (path : String) : List (String × ByteArray) :=
  match disk.place path with
  | .ok place =>
    disk.files.filterMap fun (file, content) =>
      match file.getLast? with
      | some name => if file.dropLast = place then some (name, content) else none
      | none => none
  | .error _ => []

/-- The disk behind a change, or as it was if the change fails. -/
def change (f : Disk → Except FileError Disk) : StateM Disk (Except FileError Unit) := fun disk =>
  match f disk with
  | .ok disk => (.ok (), disk)
  | .error e => (.error e, disk)

instance : MonadFiles (StateM Disk) where
  kind? path := return (← get).kind? path
  read path := return (← get).read path
  makeDirectory path := change (·.makeDirectory path)
  write path content := change (·.write path content)
  home? := return some "home"
  print text := modify fun disk => { disk with output := disk.output ++ text }
  randomSeed := return 0

end Disk

end Demux

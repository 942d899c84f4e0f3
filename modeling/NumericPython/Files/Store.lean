import NumericPython.Files.Fault
import NumericPython.Files.Path

set_option autoImplicit false

/-!
A store of files below one working directory. A place is the list of names that lead to it; every
place on the way to a file is a directory. What lies outside the working directory is not in the
store: of what happens to files there, in an absolute output directory for example, nothing is said.
-/

namespace NumericPython

inductive Entry where
  | directory
  | file (text : Option String)
deriving DecidableEq

structure Files where
  entries : List (List String × Entry)

namespace Files

def empty : Files := ⟨[]⟩

def lookup? (files : Files) (place : List String) : Option Entry :=
  if place.isEmpty then some .directory
  else
    match files.entries.lookup place with
    | some entry => some entry
    | none =>
      if files.entries.any fun (other, _) => place.isPrefixOf other then some .directory else none

def put (files : Files) (place : List String) (entry : Entry) : Files :=
  ⟨(place, entry) :: files.entries.filter (·.1 != place)⟩

def maxNameSize : Nat := 255

/-- Follows the pieces of a path from a place, of which `none` is anything outside the working
directory. The place that is reached need not exist, but the way to it must. -/
def follow (files : Files) : Option (List String) → List String → Except FileFault (Option (List String))
  | place, [] => .ok place
  | none, piece :: rest =>
    -- No name is found outside, only the directories that slashes and dots lead to.
    if piece = "" || piece = "." || piece = ".." then follow files none rest else .error .notFound
  | some place, piece :: rest =>
    match files.lookup? place with
    | none => .error .notFound
    | some (.file _) => .error .notDirectory
    | some .directory =>
      if piece = "" || piece = "." then follow files (some place) rest
      else if piece = ".." then
        follow files (if place.isEmpty then none else some place.dropLast) rest
      else if maxNameSize < piece.utf8ByteSize then .error .nameTooLong
      else follow files (some (place ++ [piece])) rest

def maxPathSize : Nat := 4095

/-- The place that a path names. An absolute path, or one that leaves the working directory, names
no file: it is not found, or it names a directory outside. -/
def locate (files : Files) (path : String) : Except FileFault (Option (List String)) :=
  if path.isEmpty then .error .notFound
  else if path.toList.contains '\x00' then .error .nulByte
  else if maxPathSize < path.utf8ByteSize then .error .nameTooLong
  else files.follow (if Path.isAbsolute path then none else some []) (Path.piecesOf path)

def read (files : Files) (path : String) : Except FileFault String :=
  match files.locate path with
  | .error fault => .error fault
  | .ok none => .error .isDirectory
  | .ok (some place) =>
    match files.lookup? place with
    | none => .error .notFound
    | some .directory => .error .isDirectory
    | some (.file none) => .error .notText
    | some (.file (some text)) => .ok text

def isFile (files : Files) (path : String) : Bool :=
  match files.locate path with
  | .ok (some place) => (files.lookup? place).any (· != .directory)
  | _ => false

def write (files : Files) (path text : String) : Except FileFault Files :=
  match files.locate path with
  | .error fault => .error fault
  | .ok none => .error .isDirectory
  | .ok (some place) =>
    if files.lookup? place = some .directory then .error .isDirectory
    else .ok (files.put place (.file (some text)))

def isDirectory (files : Files) (path : String) : Bool :=
  match files.locate path with
  | .ok none => true
  | .ok (some place) => files.lookup? place = some .directory
  | .error _ => false

def makeDirectory (files : Files) (path : String) : Except FileFault Files :=
  let pieces := ((Path.piecesOf path).reverse.dropWhile (· = "")).reverse
  match pieces.getLast? with
  -- The path consists of slashes only.
  | none => .error .alreadyExists
  | some name =>
    match files.locate (Path.ofPieces (pieces.dropLast ++ ["."])) with
    | .error fault => .error fault
    | .ok around =>
      if name = "." || name = ".." then .error .alreadyExists
      else
        match around with
        | none => .error .notFound
        | some place =>
          if (files.lookup? (place ++ [name])).isSome then .error .alreadyExists
          else if maxNameSize < name.utf8ByteSize then .error .nameTooLong
          else .ok (files.put (place ++ [name]) .directory)

/-- Makes the first of some paths a directory. The paths after it lead to it, and are made first if
they are missing. -/
def makeDirectories (files : Files) : List String → Except FileFault Files
  | [] => .ok files
  | path :: above =>
    match files.makeDirectory path with
    | .ok extended => .ok extended
    | .error .notFound =>
      match files.makeDirectories above with
      | .error fault => .error fault
      | .ok extended =>
        match extended.makeDirectory path with
        | .ok complete => .ok complete
        | .error fault => if extended.isDirectory path then .ok extended else .error fault
    | .error fault => if files.isDirectory path then .ok files else .error fault

def createDirectories (files : Files) (path : String) : Except FileFault Files :=
  files.makeDirectories (Path.ancestors path)

end Files

end NumericPython

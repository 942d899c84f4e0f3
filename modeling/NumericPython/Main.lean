import NumericPython.Command.Run
import NumericPython.Tree.Listing

set_option autoImplicit false

namespace NumericPython

def FileFault.ofError : IO.Error → FileFault
  | .noFileOrDirectory _ _ _ => .notFound
  | .alreadyExists _ _ _ => .alreadyExists
  | .inappropriateType _ 20 _ => .notDirectory
  | .inappropriateType _ _ _ => .isDirectory
  | .invalidArgument _ 36 _ => .nameTooLong
  | error => .other error.toString

def attempt {α : Type} (action : IO α) : IO (Except FileFault α) := do
  match ← action.toBaseIO with
  | .ok value => pure (.ok value)
  | .error error => pure (.error (.ofError error))

def readTextFile (path : String) : IO (Except FileFault String) := do
  match ← attempt (IO.FS.readBinFile path) with
  | .error fault => pure (.error fault)
  | .ok bytes =>
    match String.fromUTF8? bytes with
    | some text => pure (.ok text)
    | none => pure (.error .notText)

def listingPath (path : String) : String :=
  path ++ ".tree"

def readListing (path : String) : IO (Except String RawTree) := do
  match ← readTextFile (listingPath path) with
  | .error fault => pure (.error fault.message)
  | .ok text =>
    match RawTree.ofListing? text with
    | some tree => pure (.ok tree)
    | none => pure (.error "the listing of the tree is wrong")

def isRegularFile (path : String) : IO Bool := do
  match ← attempt (IO.FS.readBinFile path) with
  | .ok _ => pure true
  | .error _ => pure false

def machineHost : Host IO where
  readText := readTextFile
  isFile := isRegularFile
  createDirectories path := attempt (IO.FS.createDirAll path)
  writeText path text := attempt (IO.FS.writeFile path text)
  parse path _ := readListing path
  draw := UnitError.short
  writeOut text := do (← IO.getStdout).putStr text
  writeErr text := do (← IO.getStderr).putStr text

end NumericPython

def main (arguments : List String) : IO UInt32 :=
  NumericPython.Command.runLine NumericPython.machineHost arguments

import NumericPython.Text.Blank

set_option autoImplicit false

namespace NumericPython.Path

def pieces : List Char → List (List Char)
  | [] => [[]]
  | c :: cs =>
    if c = '/' then [] :: pieces cs
    else
      match pieces cs with
      | [] => [[c]]
      | piece :: rest => (c :: piece) :: rest

def piecesOf (path : String) : List String :=
  (pieces path.toList).map String.ofList

def isAbsolute (path : String) : Bool :=
  path.toList.head? == some '/'

def components (path : String) : List String :=
  let named (piece : String) : Bool := piece != "" && piece != "."
  match piecesOf path with
  | [] => []
  | first :: rest =>
    if first = "." then "." :: rest.filter named else (first :: rest).filter named

def isIdle (piece : String) : Bool :=
  piece = "" || piece = "."

def trimPieces : List String → List String
  | [] => []
  | first :: rest => first :: (rest.reverse.dropWhile isIdle).reverse

def ofPieces (pieces : List String) : String :=
  if pieces = [""] then "/" else Text.joinWith "/" pieces

def parent? (path : String) : Option String :=
  if (components path).isEmpty then none
  else some (ofPieces (trimPieces (trimPieces (piecesOf path)).dropLast))

def ancestors (path : String) : List String :=
  go (components path).length path
where
  go : Nat → String → List String
    | 0, _ => []
    | count + 1, path => path :: ((parent? path).map (go count)).getD []

def fileName? (path : String) : Option String :=
  match (components path).getLast? with
  | some name => if name = ".." || name = "." then none else some name
  | none => none

def stem (name : String) : String :=
  -- A dot at the very front does not count.
  let cs := name.toList
  let beforeDot := (cs.reverse.dropWhile (· != '.')).drop 1
  if beforeDot.isEmpty then name else String.ofList beforeDot.reverse

def fileStem? (path : String) : Option String :=
  (fileName? path).map stem

def join (directory name : String) : String :=
  -- `name` is never absolute: it is a file name without slashes.
  match directory.toList.getLast? with
  | none => name
  | some '/' => directory ++ name
  | some _ => directory ++ "/" ++ name

end NumericPython.Path

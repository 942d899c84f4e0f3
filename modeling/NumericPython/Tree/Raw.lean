set_option autoImplicit false

namespace NumericPython

structure RawTree where
  kind : String
  field : Option String
  start : Nat
  stop : Nat
  isNamed : Bool
  isError : Bool
  isMissing : Bool
  children : List RawTree

namespace RawTree

def isFlagged (tree : RawTree) : Bool :=
  tree.isError || tree.isMissing

def isComment (tree : RawTree) : Bool :=
  tree.kind == "comment"

end RawTree

end NumericPython

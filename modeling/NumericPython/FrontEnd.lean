import NumericPython.Tree.Basic

set_option autoImplicit false

namespace NumericPython

inductive FrontEndError where
  | problems (first : String) (count : Nat)
  | directive (text reason : String)
  | failed (reason : String)
deriving DecidableEq

namespace FrontEndError

def message : FrontEndError → String
  | problems first count => toString count ++ " syntax error(s), first: " ++ first
  | directive text reason => "malformed directive `" ++ text ++ "`: " ++ reason
  | failed reason => "front end failed: " ++ reason

end FrontEndError

structure Language where
  name : String
  extensions : List String

def Language.python : Language := ⟨"python", ["py", "pyh"]⟩

structure FrontEnd where
  directive : String → Except FrontEndError Tree

end NumericPython

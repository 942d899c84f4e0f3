import NumericPython.Ast.Intrinsic
import NumericPython.Ast.Kind

set_option autoImplicit false

namespace NumericPython

inductive Malformed where
  | wrongChildKind (node expected found : NodeKind)
  | arity (function : IntrinsicFunction) (found : Nat)
  | shortDottedName (found : Nat)
  | emptyName
  | invalidNamePart (part : String)
  | emptyConditional
  | misplacedElse (position branches : Nat)
  | emptyImport
  | emptyIndices
  | invalidLoopTarget (found : NodeKind)
  | dedicatedNode (function : IntrinsicFunction)
deriving DecidableEq

def Malformed.message : Malformed → String
  | wrongChildKind node expected found =>
    node.name ++ " expects a " ++ expected.name ++ " child, found " ++ found.name
  | arity function found =>
    "`" ++ function.name ++ "` takes " ++ toString function.arity.1 ++ "..=" ++
      toString function.arity.2 ++ " argument(s), found " ++ toString found
  | shortDottedName found => "a dotted name needs at least two parts, found " ++ toString found
  | emptyName => "a name needs at least one part"
  | invalidNamePart part => "invalid name part `" ++ part ++ "`"
  | emptyConditional => "a conditional needs at least one branch"
  | misplacedElse position branches =>
    "the always-true branch must be last, found it at " ++ toString position ++ " of " ++
      toString branches
  | emptyImport => "an import needs at least one target"
  | emptyIndices => "an indexed access needs at least one index"
  | invalidLoopTarget found =>
    "a loop target must be a symbol or a tuple of symbols, found " ++ found.name
  | dedicatedNode function =>
    "`" ++ function.name ++ "` has a dedicated node and cannot be used as an intrinsic call"

end NumericPython

import NumericPython.Ast.Kind
import NumericPython.Binary64.Text

set_option autoImplicit false

namespace NumericPython

inductive PrintError where
  | unprintable (kind : NodeKind)
  | nonFinite (value : Binary64)
  | missingTypeInfo (argument : String)
deriving DecidableEq

namespace PrintError

def message : PrintError → String
  | unprintable kind => "cannot print a " ++ kind.name ++ " node"
  | nonFinite value => "float literal `" ++ value.text .source ++ "` has no source form"
  | missingTypeInfo argument => "argument `" ++ argument ++ "` has no type information"

def code : PrintError → String
  | unprintable _ => "print::unprintable_node"
  | nonFinite _ => "print::non_finite_float"
  | missingTypeInfo _ => "print::missing_type_info"

def help? : PrintError → Option String
  | missingTypeInfo _ => some "foreign wrappers can only be generated after type analysis"
  | _ => none

end PrintError

end NumericPython

import NumericPython.Ast.Expr

set_option autoImplicit false

namespace NumericPython.Resolve

def calls : List IntrinsicFunction :=
  [.range, .array, .shape, .int, .len, .sum]

def mathBinding? (name : String) : Option (String × IntrinsicFunction) :=
  (MathFunction.ofName? name).map fun function => (function.name, .math function)

def numpyEntries : List (String × IntrinsicFunction) :=
  [("zeros", .zeros), ("ones", .ones), ("array", .array), ("shape", .shape), ("int", .int),
   ("sum", .sum), ("rand", .rand), ("random", .rand)]

def ofCallName? (name : String) : Option IntrinsicFunction :=
  (calls.find? (·.name == name)).orElse fun _ => (mathBinding? name).map Prod.snd

def call? (name : String) (args : List Expr) : Option Expr :=
  (ofCallName? name).bind fun function => (Expr.ofIntrinsic function args).toOption

/-- The intrinsic that an import of `target` from `source` binds, and its name. Only the first part
of the source counts, and the last one of the target. -/
def import? (source : Option Name) (target : Name) : Option (String × IntrinsicFunction) :=
  source.bind fun path =>
    if path.head = "numpy" then
      (numpyEntries.find? (·.1 == target.last)).orElse fun _ => mathBinding? target.last
    else if path.head = "math" then mathBinding? target.last
    else none

end NumericPython.Resolve

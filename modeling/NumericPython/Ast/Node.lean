import NumericPython.Ast.Stmt

set_option autoImplicit false

namespace NumericPython

structure ForeignFunction where
  inner : FunctionDef
  moduleName : String

namespace ForeignFunction

def name (function : ForeignFunction) : String :=
  function.inner.name

def wrapperName (function : ForeignFunction) (marker : String) : String :=
  marker ++ function.name

end ForeignFunction

structure ForeignModule where
  name : String
  functions : List ForeignFunction

inductive Node where
  | expr (e : Expr)
  | stmt (s : Stmt)
  | argument (argument : Argument)
  | valuedArgument (argument : Argument) (value : Expr)
  | block (body : List Stmt)
  | foreignFunction (function : ForeignFunction)
  | foreignModule (exported : ForeignModule)
  | foreignFunctionInterface (wrapperModule : String) (function : ForeignFunction)
  | foreignModuleInterface (exported : ForeignModule)

namespace Node

def kind : Node → NodeKind
  | expr e => e.kind
  | stmt s => s.kind
  | argument _ => .argument
  | valuedArgument _ _ => .valuedArgument
  | block _ => .block
  | foreignFunction _ => .foreignFunction
  | foreignModule _ => .foreignModule
  | foreignFunctionInterface _ _ => .foreignFunctionInterface
  | foreignModuleInterface _ => .foreignModuleInterface

def withDefault (parameter : Node) (value : Expr) : Except Malformed Node :=
  match parameter with
  | argument a => .ok (valuedArgument a value)
  | other => .error (.wrongChildKind .valuedArgument .argument other.kind)

end Node

end NumericPython

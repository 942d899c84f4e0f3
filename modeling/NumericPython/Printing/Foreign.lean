import NumericPython.Ast.Node
import NumericPython.Printing.Stmt
import NumericPython.Settings.Basic

set_option autoImplicit false

namespace NumericPython

namespace ForeignFunction

def innerCall (function : ForeignFunction) : Expr :=
  .call (.symbol (.plain function.inner.name))
    (function.inner.arguments.map fun parameter => .symbol (.plain parameter.name))

def wrapperParameters (function : ForeignFunction) : List Parameter :=
  match function.inner.results with
  | [result] =>
    if result.isArray then function.inner.arguments ++ [.plain ⟨result.name, result.info⟩]
    else function.inner.arguments
  | _ => function.inner.arguments

def wrapperBody (function : ForeignFunction) : List Stmt :=
  let call := function.innerCall
  match function.inner.results with
  | [] => [.expression call]
  | [result] =>
    if result.isArray then [.assign (.symbol result) call]
    else [.assign (.symbol result) call, .returnValue (.symbol result)]
  | results =>
    let targets := .tuple (results.map Expr.symbol)
    [.assign targets call, .returnValue targets]

def wrapper (settings : Settings) (function : ForeignFunction) : FunctionDef :=
  { FunctionDef.plain (function.wrapperName settings.wrapperPrefix) function.wrapperParameters
      function.wrapperBody with
    results := function.inner.results }

end ForeignFunction

namespace Printing

/-- The type of a parameter: its element type, a colon for each dimension, and the memory order if
there are several dimensions. -/
def argumentType (settings : Settings) (argument : Argument) : Printed String :=
  match argument.info with
  | none => .error (.missingTypeInfo argument.name)
  | some info =>
    let rank := info.rank.toNat
    let dimensions :=
      if 0 < rank then "[" ++ Text.joinWith "," (List.replicate rank ":") ++ "]" else ""
    let order := if 1 < rank then "(order=" ++ settings.arrayOrder ++ ")" else ""
    .ok (info.dtype.name ++ dimensions ++ order)

def headerText (settings : Settings) (function : ForeignFunction) : Printed String := do
  let types ← function.wrapperParameters.mapM fun parameter =>
    argumentType settings parameter.argument
  .ok ("#$ header procedure static " ++ function.wrapperName settings.wrapperPrefix ++ "(" ++
    Text.joinWith "," types ++ ")")

def foreignFunctionLines (settings : Settings) (function : ForeignFunction) :
    Printed (List Line) := do
  let header ← headerText settings function
  let lines ← functionLines 0 (function.wrapper settings)
  .ok (.text 0 ("from " ++ function.moduleName ++ " import " ++ function.name) ::
    .text 0 header :: lines)

def rebinding (settings : Settings) (moduleName : String) (function : ForeignFunction) : Line :=
  .text 0 (function.name ++ " = " ++ moduleName ++ "." ++
    function.wrapperName settings.wrapperPrefix)

def interfaceLines (settings : Settings) (moduleName : String)
    (functions : List ForeignFunction) : List Line :=
  .text 0 ("from " ++ moduleName ++ " import " ++ moduleName) ::
    functions.map (rebinding settings moduleName)

end Printing

end NumericPython

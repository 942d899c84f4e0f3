import NumericPython.Printing.Foreign

set_option autoImplicit false

namespace NumericPython

def Node.print (settings : Settings) (node : Node) : Except PrintError String :=
  let rendered (lines : Printing.Printed (List Line)) : Except PrintError String :=
    lines.map (Line.renderAll settings.indentWidth)
  match node with
  | .expr e => Printing.exprText e
  | .stmt s => rendered (Printing.stmtLines 0 s)
  | .argument a => .ok a.name
  | .valuedArgument a value => Printing.parameterText (.valued a value)
  | .block body => (rendered (Printing.stmtsLines 0 body)).map (· ++ "\n")
  | .foreignFunction function => rendered (Printing.foreignFunctionLines settings function)
  | .foreignModule exported =>
    rendered ((exported.functions.mapM (Printing.foreignFunctionLines settings)).map
      Line.separated)
  | .foreignFunctionInterface wrapperModule function =>
    rendered (.ok (Printing.interfaceLines settings wrapperModule [function]))
  | .foreignModuleInterface exported =>
    rendered (.ok (Printing.interfaceLines settings exported.name exported.functions))

end NumericPython

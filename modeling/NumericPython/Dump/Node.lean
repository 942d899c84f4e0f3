import NumericPython.Ast.Node
import NumericPython.Dump.Json

set_option autoImplicit false

namespace NumericPython.Dump

open Json

def optional {α : Type} (dump : α → Json) : Option α → Json
  | none => null
  | some x => dump x

def list {α : Type} (dump : α → Json) (xs : List α) : Json :=
  array (xs.map dump)

def strings (xs : List String) : Json :=
  list string xs

def tagged (kind : String) (value : Json) : Json :=
  object [("kind", string kind), ("value", value)]

def info (i : VariableInfo) : Json :=
  object [("dtype", string i.dtype.name), ("rank", integer i.rank.toNat)]

def named (name : String) (i : Option VariableInfo) : Json :=
  object (("name", string name) :: (i.map fun known => ("meta", info known)).toList)

def symbol (s : Symbol) : Json :=
  named s.name s.info

def argument (a : Argument) : Json :=
  named a.name a.info

def name : Name → Json
  | .symbol s => symbol s
  | .dotted d => strings d.parts

def intrinsic : IntrinsicFunction → Json
  | .math function => object [("math", string function.name)]
  | function => string function.name

mutual

def expr : Expr → Json
  | .integer value => tagged "integer" (integer value.toInt)
  | .float value => tagged "float" (float value)
  | .complex imaginary => tagged "complex" (float imaginary)
  | .boolean value => tagged "boolean" (boolean value)
  | .string text => tagged "string" (string text)
  | .nil => object [("kind", string "nil")]
  | .symbol s => tagged "symbol" (symbol s)
  | .dotted d => tagged "dotted_name" (strings d.parts)
  | .tuple items => tagged "tuple" (array (exprs items))
  | .binary op left right =>
    tagged "binary_op"
      (object [("op", string op.name), ("left", expr left), ("right", expr right)])
  | .unary op operand =>
    tagged "unary_op" (object [("op", string op.name), ("operand", expr operand)])
  | .call callee args =>
    tagged "function_call" (object [("callee", name callee), ("args", array (exprs args))])
  | .range start stop step =>
    tagged "range" (object [("start", expr start), ("stop", expr stop), ("step", expr step)])
  | .indexed base index more =>
    tagged "indexed"
      (object [("base", expr base), ("indices", array (expr index :: exprs more))])
  | .slice start stop step =>
    tagged "slice"
      (object [("start", optionalExpr start), ("stop", optionalExpr stop),
        ("step", optionalExpr step)])
  | .intrinsic function args =>
    tagged "intrinsic"
      (object [("function", intrinsic function), ("args", array (exprs args))])

def exprs : List Expr → List Json
  | [] => []
  | e :: rest => expr e :: exprs rest

def optionalExpr : Option Expr → Json
  | none => null
  | some e => expr e

end

def valuedArgument (a : Argument) (value : Expr) : Json :=
  object [("argument", argument a), ("value", expr value)]

def parameter : Parameter → Json
  | .plain a => argument a
  | .valued a value => valuedArgument a value

def target (t : ImportTarget) : Json :=
  object (("name", name t.name) :: (t.asName.map fun other => ("alias", string other)).toList)

def importMembers (i : Import) : List (String × Json) :=
  [("source", optional name i.source), ("targets", list target i.targets)]

def decorators (table : Table (List Expr)) : Json :=
  object (table.entries.map fun (decorator, args) => (decorator, array (exprs args)))

def branchValue (condition : Json) (body : List Json) : Json :=
  object [("condition", condition), ("body", array body)]

def statement (kind : String) (members : List (String × Json)) : Json :=
  object (("kind", string kind) :: members)

mutual

def stmt : Stmt → Json
  | .assign left right => statement "assign" [("lhs", expr left), ("rhs", expr right)]
  | .augAssign left op right =>
    statement "aug_assign" [("lhs", expr left), ("op", string op.name), ("rhs", expr right)]
  | .returnValue value => statement "return" [("value", expr value)]
  | .print items => statement "print" [("items", array (exprs items))]
  | .comment text => statement "comment" [("text", string text)]
  | .pragma family clauses =>
    statement "pragma" [("family", string family.name), ("clauses", strings clauses)]
  | .emptyLine => statement "empty_line" []
  | .pass => statement "pass" []
  | .importNames i => statement "import" (importMembers i)
  | .conditional first rest otherwise =>
    statement "if"
      [("branches", array (branch first :: branches rest ++ elseBranch otherwise))]
  | .always body =>
    statement "if" [("branches", array [branchValue (string "always") (stmts body)])]
  | .forLoop loopTarget iterable body =>
    statement "for"
      [("target", expr loopTarget.toExpr), ("iterable", expr iterable),
       ("body", array (stmts body))]
  | .whileLoop condition body =>
    statement "while" [("condition", expr condition), ("body", array (stmts body))]
  | .functionDef definition => statement "function_def" (functionMembers definition)
  | .classDef className attributes methods =>
    statement "class_def"
      [("name", string className), ("attributes", list argument attributes),
       ("methods", array (functions methods))]
  | .expression value => statement "expr" [("value", expr value)]

def stmts : List Stmt → List Json
  | [] => []
  | s :: rest => stmt s :: stmts rest

def branch : Branch → Json
  | ⟨condition, body⟩ => branchValue (object [("expr", expr condition)]) (stmts body)

def branches : List Branch → List Json
  | [] => []
  | b :: rest => branch b :: branches rest

def elseBranch : Option (List Stmt) → List Json
  | none => []
  | some body => [branchValue (string "always") (stmts body)]

def functionMembers : FunctionDef → List (String × Json)
  | ⟨functionName, arguments, results, body, localVars, globalVars, owner, isHidden, kind, imports,
      table⟩ =>
    [("name", string functionName), ("arguments", list parameter arguments),
     ("results", list symbol results), ("body", array (stmts body)),
     ("local_vars", list symbol localVars), ("global_vars", list symbol globalVars),
     ("class_owner", optional string owner), ("is_hidden", boolean isHidden),
     ("kind", string kind.name), ("imports", list (fun i => object (importMembers i)) imports),
     ("decorators", decorators table)]

def functions : List FunctionDef → List Json
  | [] => []
  | f :: rest => object (functionMembers f) :: functions rest

end

def foreignFunction (f : ForeignFunction) : Json :=
  object [("inner", object (functionMembers f.inner)), ("module_name", string f.moduleName)]

def foreignModule (m : ForeignModule) : Json :=
  object [("name", string m.name), ("functions", list foreignFunction m.functions)]

def importTable (table : Table IntrinsicFunction) : Json :=
  object (table.entries.map fun (binding, function) => (binding, intrinsic function))

end NumericPython.Dump

namespace NumericPython

def Node.dump : Node → Json
  | .expr e => Dump.expr e
  | .stmt s => Dump.stmt s
  | .argument a => Dump.argument a
  | .valuedArgument a value => Dump.valuedArgument a value
  | .block body => .array (Dump.stmts body)
  | .foreignFunction f => Dump.foreignFunction f
  | .foreignModule m => Dump.foreignModule m
  | .foreignFunctionInterface wrapperModule f =>
    .object [("wrapper_module", .string wrapperModule), ("function", Dump.foreignFunction f)]
  | .foreignModuleInterface m => .object [("module", Dump.foreignModule m)]

end NumericPython

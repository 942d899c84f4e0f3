import NumericPython.Ast.Expr
import NumericPython.Ast.Table

set_option autoImplicit false

namespace NumericPython

inductive PragmaFamily where
  | omp
  | acc
  | header
deriving DecidableEq

namespace PragmaFamily

def name : PragmaFamily → String
  | omp => "omp"
  | acc => "acc"
  | header => "header"

def ofName? (name : String) : Option PragmaFamily :=
  [omp, acc, header].find? (·.name == name)

theorem ofName?_name (family : PragmaFamily) : ofName? family.name = some family := by
  cases family <;> decide

end PragmaFamily

structure ImportTarget where
  name : Name
  asName : Option String
deriving DecidableEq

def ImportTarget.binding (target : ImportTarget) : String :=
  target.asName.getD target.name.last

structure Import where
  source : Option Name
  target : ImportTarget
  more : List ImportTarget
deriving DecidableEq

namespace Import

def targets (item : Import) : List ImportTarget :=
  item.target :: item.more

def ofTargets (source : Option Name) : List ImportTarget → Except Malformed Import
  | [] => .error .emptyImport
  | target :: more => .ok ⟨source, target, more⟩

end Import

inductive LoopTarget where
  | symbol (symbol : Symbol)
  | symbols (first : Symbol) (rest : List Symbol)
deriving DecidableEq

namespace LoopTarget

def toExpr : LoopTarget → Expr
  | symbol s => .symbol s
  | symbols first rest => .tuple (.symbol first :: rest.map Expr.symbol)

def symbolOf? : Expr → Option Symbol
  | .symbol s => some s
  | _ => none

def ofExpr (e : Expr) : Except Malformed LoopTarget :=
  match e with
  | .symbol s => .ok (symbol s)
  | .tuple items =>
    match items.mapM symbolOf? with
    | some (first :: rest) => .ok (symbols first rest)
    | _ => .error (.invalidLoopTarget .tuple)
  | e => .error (.invalidLoopTarget e.kind)

end LoopTarget

structure Argument where
  name : String
  info : Option VariableInfo
deriving DecidableEq

inductive Parameter where
  | plain (argument : Argument)
  | valued (argument : Argument) (default : Expr)
deriving DecidableEq

namespace Parameter

def argument : Parameter → Argument
  | plain argument => argument
  | valued argument _ => argument

def name (parameter : Parameter) : String :=
  parameter.argument.name

end Parameter

inductive FunctionKind where
  | function
  | procedure
deriving DecidableEq

def FunctionKind.name : FunctionKind → String
  | function => "function"
  | procedure => "procedure"

mutual

inductive Stmt where
  | assign (target value : Expr)
  | augAssign (target : Expr) (op : BinaryOperator) (value : Expr)
  | returnValue (value : Expr)
  | print (items : List Expr)
  | comment (text : String)
  | pragma (family : PragmaFamily) (clauses : List String)
  | emptyLine
  | pass
  | importNames (item : Import)
  | conditional (first : Branch) (rest : List Branch) (otherwise : Option (List Stmt))
  | always (body : List Stmt)
  | forLoop (target : LoopTarget) (iterable : Expr) (body : List Stmt)
  | whileLoop (condition : Expr) (body : List Stmt)
  | functionDef (definition : FunctionDef)
  | classDef (name : String) (attributes : List Argument) (methods : List FunctionDef)
  | expression (value : Expr)

structure Branch where
  condition : Expr
  body : List Stmt

structure FunctionDef where
  name : String
  arguments : List Parameter
  results : List Symbol
  body : List Stmt
  localVars : List Symbol
  globalVars : List Symbol
  classOwner : Option String
  isHidden : Bool
  kind : FunctionKind
  imports : List Import
  decorators : Table (List Expr)

end

namespace FunctionDef

def plain (name : String) (arguments : List Parameter) (body : List Stmt) : FunctionDef :=
  { name, arguments, results := [], body, localVars := [], globalVars := [], classOwner := none
    isHidden := false, kind := .function, imports := [], decorators := .empty }

end FunctionDef

namespace Stmt

instance : Inhabited Stmt := ⟨pass⟩

def kind : Stmt → NodeKind
  | assign _ _ => .assign
  | augAssign _ _ _ => .augAssign
  | returnValue _ => .returnStmt
  | print _ => .print
  | comment _ => .comment
  | pragma _ _ => .pragma
  | emptyLine => .emptyLine
  | pass => .pass
  | importNames _ => .importStmt
  | conditional _ _ _ | always _ => .ifStmt
  | forLoop _ _ _ => .forLoop
  | whileLoop _ _ => .whileLoop
  | functionDef _ => .functionDef
  | classDef _ _ _ => .classDef
  | expression _ => .exprStmt

def splitBranches : List (Option Expr × List Stmt) → List Branch × Option (List Stmt)
  | [] => ([], none)
  | (none, body) :: _ => ([], some body)
  | (some condition, body) :: rest =>
    let (branches, otherwise) := splitBranches rest
    (⟨condition, body⟩ :: branches, otherwise)

def ofBranches (branches : List (Option Expr × List Stmt)) : Except Malformed Stmt :=
  -- Only the last branch may lack a condition.
  match branches.findIdx? (·.1.isNone) with
  | some position =>
    if position + 1 < branches.length then .error (.misplacedElse position branches.length)
    else build
  | none => build
where
  build : Except Malformed Stmt :=
    match splitBranches branches with
    | ([], none) => .error .emptyConditional
    | ([], some body) => .ok (always body)
    | (first :: rest, otherwise) => .ok (conditional first rest otherwise)

def hasElse : Stmt → Bool
  | conditional _ _ otherwise => otherwise.isSome
  | always _ => true
  | _ => false

def ofMethods (name : String) (methods : List FunctionDef) : Stmt :=
  -- The attributes are the parameters of the first method.
  let attributes :=
    match methods with
    | [] => []
    | first :: _ => first.arguments.map Parameter.argument
  classDef name attributes methods

end Stmt

end NumericPython

import NumericPython.Ast.Node

set_option autoImplicit false

namespace NumericPython

mutual

def Stmt.same : Stmt → Stmt → Bool
  | .assign a b, .assign c d => a == c && b == d
  | .augAssign a p b, .augAssign c q d => a == c && p == q && b == d
  | .returnValue a, .returnValue b => a == b
  | .print a, .print b => a == b
  | .comment a, .comment b => a == b
  | .pragma f a, .pragma g b => f == g && a == b
  | .emptyLine, .emptyLine => true
  | .pass, .pass => true
  | .importNames a, .importNames b => a == b
  | .conditional a as none, .conditional b bs none => a.same b && Branch.sameAll as bs
  | .conditional a as (some x), .conditional b bs (some y) =>
    a.same b && Branch.sameAll as bs && Stmt.sameAll x y
  | .always a, .always b => Stmt.sameAll a b
  | .forLoop t e a, .forLoop u f b => t == u && e == f && Stmt.sameAll a b
  | .whileLoop e a, .whileLoop f b => e == f && Stmt.sameAll a b
  | .functionDef a, .functionDef b => a.same b
  | .classDef m a as, .classDef n b bs => m == n && a == b && FunctionDef.sameAll as bs
  | .expression a, .expression b => a == b
  | _, _ => false

def Stmt.sameAll : List Stmt → List Stmt → Bool
  | [], [] => true
  | a :: as, b :: bs => a.same b && Stmt.sameAll as bs
  | _, _ => false

def Branch.same : Branch → Branch → Bool
  | ⟨a, as⟩, ⟨b, bs⟩ => a == b && Stmt.sameAll as bs

def Branch.sameAll : List Branch → List Branch → Bool
  | [], [] => true
  | a :: as, b :: bs => a.same b && Branch.sameAll as bs
  | _, _ => false

def FunctionDef.same : FunctionDef → FunctionDef → Bool
  | ⟨name, arguments, results, body, localVars, globalVars, owner, hidden, kind, imports, decorators⟩,
    ⟨name', arguments', results', body', localVars', globalVars', owner', hidden', kind', imports',
      decorators'⟩ =>
    name == name' && arguments == arguments' && results == results' && Stmt.sameAll body body' &&
      localVars == localVars' && globalVars == globalVars' && owner == owner' &&
      hidden == hidden' && kind == kind' && imports == imports' &&
      decorators.same (· == ·) decorators'

def FunctionDef.sameAll : List FunctionDef → List FunctionDef → Bool
  | [], [] => true
  | a :: as, b :: bs => a.same b && FunctionDef.sameAll as bs
  | _, _ => false

end

namespace ForeignFunction

def same (a b : ForeignFunction) : Bool :=
  a.inner.same b.inner && a.moduleName == b.moduleName

def sameAll : List ForeignFunction → List ForeignFunction → Bool
  | [], [] => true
  | a :: as, b :: bs => a.same b && sameAll as bs
  | _, _ => false

end ForeignFunction

def ForeignModule.same (a b : ForeignModule) : Bool :=
  a.name == b.name && ForeignFunction.sameAll a.functions b.functions

def Node.same : Node → Node → Bool
  | .expr a, .expr b => a == b
  | .stmt a, .stmt b => a.same b
  | .argument a, .argument b => a == b
  | .valuedArgument a e, .valuedArgument b f => a == b && e == f
  | .block a, .block b => Stmt.sameAll a b
  | .foreignFunction a, .foreignFunction b => a.same b
  | .foreignModule a, .foreignModule b => a.same b
  | .foreignFunctionInterface m a, .foreignFunctionInterface n b => m == n && a.same b
  | .foreignModuleInterface a, .foreignModuleInterface b => a.same b
  | _, _ => false

end NumericPython

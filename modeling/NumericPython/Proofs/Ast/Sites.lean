import NumericPython.Ast.Node

set_option autoImplicit false

namespace NumericPython

structure Site where
  expr : Expr
  isIndex : Bool

/-- A number at the site, if there is one, is finite. -/
def Site.HasFiniteNumber (site : Site) : Prop :=
  ∀ value, site.expr = .float value ∨ site.expr = .complex value → value.isFinite = true

namespace Expr

mutual

def sites (isIndex : Bool) (e : Expr) : List Site :=
  ⟨e, isIndex⟩ ::
    match e with
    | tuple items | call _ items | intrinsic _ items => allSites false items
    | binary _ left right => left.sites false ++ right.sites false
    | unary _ operand => operand.sites false
    | range start stop step => start.sites false ++ stop.sites false ++ step.sites false
    | indexed base index more => base.sites false ++ index.sites true ++ allSites true more
    | slice start stop step => partSites start ++ partSites stop ++ partSites step
    | _ => []

def allSites (isIndex : Bool) : List Expr → List Site
  | [] => []
  | e :: rest => e.sites isIndex ++ allSites isIndex rest

def partSites : Option Expr → List Site
  | none => []
  | some e => e.sites false

end

theorem forall_allSites {holds : Site → Prop} {isIndex : Bool} {items : List Expr} :
    (∀ site ∈ allSites isIndex items, holds site) ↔
      ∀ e ∈ items, ∀ site ∈ e.sites isIndex, holds site := by
  induction items <;> simp_all [allSites, or_imp, forall_and]

theorem forall_partSites {holds : Site → Prop} {part : Option Expr} :
    (∀ site ∈ partSites part, holds site) ↔ ∀ e ∈ part, ∀ site ∈ e.sites false, holds site := by
  cases part <;> simp [partSites]

end Expr

def Parameter.sites : Parameter → List Site
  | plain _ => []
  | valued _ default => default.sites false

namespace Stmt

mutual

def sites : Stmt → List Site
  | assign target value | augAssign target _ value => target.sites false ++ value.sites false
  | returnValue value | expression value => value.sites false
  | print items => Expr.allSites false items
  | conditional first rest otherwise =>
    branchSites first ++ branchesSites rest ++ otherwiseSites otherwise
  | always body => bodySites body
  | forLoop target iterable body =>
    target.toExpr.sites false ++ iterable.sites false ++ bodySites body
  | whileLoop condition body => condition.sites false ++ bodySites body
  | functionDef definition => definitionSites definition
  | classDef _ _ methods => methodsSites methods
  | _ => []

def bodySites : List Stmt → List Site
  | [] => []
  | s :: rest => s.sites ++ bodySites rest

def branchSites : Branch → List Site
  | ⟨condition, body⟩ => condition.sites false ++ bodySites body

def branchesSites : List Branch → List Site
  | [] => []
  | branch :: rest => branchSites branch ++ branchesSites rest

def otherwiseSites : Option (List Stmt) → List Site
  | none => []
  | some body => bodySites body

def definitionSites : FunctionDef → List Site
  | ⟨_, arguments, _, body, _, _, _, _, _, _, decorators⟩ =>
    decorators.entries.flatMap (fun entry => Expr.allSites false entry.2) ++
      arguments.flatMap Parameter.sites ++ bodySites body

def methodsSites : List FunctionDef → List Site
  | [] => []
  | method :: rest => definitionSites method ++ methodsSites rest

end

theorem forall_bodySites {holds : Site → Prop} {body : List Stmt} :
    (∀ site ∈ bodySites body, holds site) ↔ ∀ s ∈ body, ∀ site ∈ s.sites, holds site := by
  induction body <;> simp_all [bodySites, or_imp, forall_and]

theorem forall_branchesSites {holds : Site → Prop} {branches : List Branch} :
    (∀ site ∈ branchesSites branches, holds site) ↔
      ∀ branch ∈ branches, ∀ site ∈ branchSites branch, holds site := by
  induction branches <;> simp_all [branchesSites, or_imp, forall_and]

theorem forall_methodsSites {holds : Site → Prop} {methods : List FunctionDef} :
    (∀ site ∈ methodsSites methods, holds site) ↔
      ∀ method ∈ methods, ∀ site ∈ definitionSites method, holds site := by
  induction methods <;> simp_all [methodsSites, or_imp, forall_and]

end Stmt

/-- All sites in a node, those included that are not written. -/
def Node.sites : Node → List Site
  | expr e => e.sites false
  | stmt s => s.sites
  | argument _ => []
  | valuedArgument _ value => value.sites false
  | block body => Stmt.bodySites body
  | foreignFunction f | foreignFunctionInterface _ f => Stmt.definitionSites f.inner
  | foreignModule m | foreignModuleInterface m =>
    m.functions.flatMap fun f => Stmt.definitionSites f.inner

end NumericPython

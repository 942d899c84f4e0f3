import Mathlib.Logic.Relation
import NumericPython.Directive
import NumericPython.Proofs.Ast.Sites
import NumericPython.Proofs.Lowering.CanonicalStmt

set_option autoImplicit false

namespace NumericPython

/-- An expression without types of its own, which is no intrinsic and no written-out range. -/
def Expr.IsPlain : Expr → Prop
  | intrinsic _ _ => False
  | symbol s => s.info = none
  | call callee args => callee.IsPlain ∧ ¬ callee.MakesRange args
  | _ => True

namespace Expr

theorem Canonical.sites_plain {isIndex : Bool} {e : Expr} (canonical : e.Canonical isIndex) :
    ∀ site ∈ e.sites isIndex, site.expr.IsPlain := by
  induction canonical with
  | symbol name => exact List.forall_mem_singleton.2 rfl
  | tuple each ih => exact List.forall_mem_cons.2 ⟨trivial, forall_allSites.2 ih⟩
  | call plain general each ih =>
      exact List.forall_mem_cons.2 ⟨⟨plain, general⟩, forall_allSites.2 ih⟩
  | binary first second ihFirst ihSecond =>
      exact List.forall_mem_cons.2 ⟨trivial, List.forall_mem_append.2 ⟨ihFirst, ihSecond⟩⟩
  | unary inner ih => exact List.forall_mem_cons.2 ⟨trivial, ih⟩
  | range first second third ihFirst ihSecond ihThird =>
      exact List.forall_mem_cons.2 ⟨trivial, List.forall_mem_append.2
        ⟨List.forall_mem_append.2 ⟨ihFirst, ihSecond⟩, ihThird⟩⟩
  | indexed value each ihValue ih =>
      obtain ⟨index, more⟩ := List.forall_mem_cons.1 ih
      exact List.forall_mem_cons.2 ⟨trivial, List.forall_mem_append.2
        ⟨List.forall_mem_append.2 ⟨ihValue, index⟩, forall_allSites.2 more⟩⟩
  | slice first second third ihFirst ihSecond ihThird =>
      exact List.forall_mem_cons.2 ⟨trivial, List.forall_mem_append.2
        ⟨List.forall_mem_append.2 ⟨forall_partSites.2 ihFirst, forall_partSites.2 ihSecond⟩,
          forall_partSites.2 ihThird⟩⟩
  | _ => exact List.forall_mem_singleton.2 trivial

end Expr

/-- A statement that is plain by itself, whatever its parts are. -/
def Stmt.IsPlain : Stmt → Prop
  | augAssign _ op _ => op.isArithmetic = true
  | importNames item => item.IsPlain
  | functionDef definition => definition.IsPlain none
  | classDef name attributes methods =>
    attributes = firstParameters methods ∧ (∀ a ∈ attributes, a.info = none) ∧
      ∀ method ∈ methods, method.IsPlain (some name)
  | _ => True

namespace Stmt

def inner : Stmt → List Stmt
  | conditional first rest otherwise => (first :: rest).flatMap Branch.body ++ otherwise.getD []
  | always body | forLoop _ _ body | whileLoop _ body => body
  | functionDef definition => definition.body
  | classDef _ _ methods => methods.flatMap FunctionDef.body
  | _ => []

/-- A statement and what stands inside of it, at any depth. -/
def Holds : Stmt → Stmt → Prop :=
  Relation.ReflTransGen fun outer s => s ∈ outer.inner

theorem firstParameters_untyped {methods : List FunctionDef}
    (untyped : ∀ method ∈ methods, ∀ p ∈ method.arguments, p.argument.info = none) :
    ∀ a ∈ firstParameters methods, a.info = none := by
  cases methods with
  | nil => exact nofun
  | cons first rest => exact List.forall_mem_map.2 (untyped first (List.mem_cons_self ..))

theorem Canonical.isPlain {s : Stmt} (canonical : s.Canonical) : s.IsPlain := by
  cases canonical with
  | augAssign left arithmetic right => exact arithmetic
  | importNames plain => exact plain
  | functionDef plain header each => exact plain
  | classDef declared plain header each =>
      refine ⟨declared, ?_, plain⟩
      subst declared
      exact firstParameters_untyped fun method member => (plain method member).untyped
  | _ => trivial

theorem Canonical.inner {s : Stmt} (canonical : s.Canonical) : ∀ t ∈ s.inner, t.Canonical := by
  cases canonical with
  | conditional conditions bodies last =>
      refine List.forall_mem_append.2 ⟨List.forall_mem_flatMap.2 bodies, ?_⟩
      cases ‹Option (List Stmt)› with
      | none => exact nofun
      | some body => exact last body rfl
  | always each => exact each
  | forLoop left right each => exact each
  | whileLoop holds each => exact each
  | functionDef plain header each => exact each
  | classDef declared plain header each => exact List.forall_mem_flatMap.2 each
  | _ => exact nofun

theorem Canonical.of_holds {s t : Stmt} (canonical : s.Canonical) (holds : s.Holds t) :
    t.Canonical := by
  -- The canonical form goes down with each step into a body.
  induction holds with
  | refl => exact canonical
  | tail _ member ih => exact ih.inner _ member

theorem branchSites_plain {branch : Branch} (condition : branch.condition.Canonical false)
    (body : ∀ s ∈ branch.body, ∀ site ∈ s.sites, site.expr.IsPlain) :
    ∀ site ∈ branchSites branch, site.expr.IsPlain := by
  cases branch
  exact List.forall_mem_append.2 ⟨condition.sites_plain, forall_bodySites.2 body⟩

theorem definitionSites_plain {definition : FunctionDef} (header : definition.CanonicalHeader)
    (body : ∀ s ∈ definition.body, ∀ site ∈ s.sites, site.expr.IsPlain) :
    ∀ site ∈ definitionSites definition, site.expr.IsPlain := by
  cases definition
  refine List.forall_mem_append.2 ⟨List.forall_mem_append.2 ⟨?_, ?_⟩, forall_bodySites.2 body⟩
  · refine List.forall_mem_flatMap.2 fun entry among => Expr.forall_allSites.2 fun e member => ?_
    exact (header.decorators entry among e member).sites_plain
  · refine List.forall_mem_flatMap.2 fun parameter among => ?_
    have canonical := header.parameters parameter among
    cases parameter with
    | plain _ => exact nofun
    | valued _ default => exact canonical.sites_plain

theorem Canonical.sites_plain {s : Stmt} (canonical : s.Canonical) :
    ∀ site ∈ s.sites, site.expr.IsPlain := by
  induction canonical with
  | assign left right | augAssign left _ right =>
      exact List.forall_mem_append.2 ⟨left.sites_plain, right.sites_plain⟩
  | returnValue inner | expression inner => exact inner.sites_plain
  | print each => exact Expr.forall_allSites.2 fun e member => (each e member).sites_plain
  | conditional conditions bodies last ihBodies ihLast =>
      have branches := fun b member => branchSites_plain (conditions b member) (ihBodies b member)
      obtain ⟨first, rest⟩ := List.forall_mem_cons.1 branches
      refine List.forall_mem_append.2
        ⟨List.forall_mem_append.2 ⟨first, forall_branchesSites.2 rest⟩, ?_⟩
      cases ‹Option (List Stmt)› with
      | none => exact nofun
      | some body => exact forall_bodySites.2 (ihLast body rfl)
  | always each ih => exact forall_bodySites.2 ih
  | forLoop left right each ih =>
      exact List.forall_mem_append.2 ⟨List.forall_mem_append.2
        ⟨left.sites_plain, right.sites_plain⟩, forall_bodySites.2 ih⟩
  | whileLoop holds each ih =>
      exact List.forall_mem_append.2 ⟨holds.sites_plain, forall_bodySites.2 ih⟩
  | functionDef plain header each ih => exact definitionSites_plain header ih
  | classDef declared plain header each ih =>
      exact forall_methodsSites.2 fun m member =>
        definitionSites_plain (header m member) (ih m member)
  | _ => exact nofun

end Stmt

/-- At any depth of a lowered source text, expressions and statements are plain. -/
theorem lowered_module_canonical {frontEnd : FrontEnd} {tree : Tree} {lowered : LoweredModule}
    (lowers : LoweredModule.ofTree frontEnd tree = .ok lowered) :
    (∀ site ∈ Stmt.bodySites lowered.body, site.expr.IsPlain) ∧
      ∀ s ∈ lowered.body, ∀ t, s.Holds t → t.IsPlain := by
  have canonical := lowered_body_canonical lowers
  exact ⟨Stmt.forall_bodySites.2 fun s member => (canonical s member).sites_plain,
    fun s member t holds => ((canonical s member).of_holds holds).isPlain⟩

/-- The tree of a class `Grid` with a method `fill(self, rows=range(3))` under a decorator; in its
body stand a definition and an augmented assignment. -/
def gridClassTree : Tree :=
  let node (kind : Kind) (text : String) (field : Option String) (children : List Tree) : Tree :=
    ⟨kind, .ofRange 0 9, text, field, children⟩
  let name (text field : String) : Tree := node .identifier text (some field) []
  let bounds := node .call "range(3)" (some "value")
    [name "range" "function",
     node .argumentList "(3)" (some "arguments") [node .integer "3" none []]]
  let step := node .functionDefinition "def step(): pass" none
    [name "step" "name", node .parameters "()" (some "parameters") [],
     node .block "pass" (some "body") [node .passStatement "pass" none []]]
  let growth := node .expressionStatement "rows += 1" none
    [node .augmentedAssignment "rows += 1" none
      [name "rows" "left", node .token "+=" (some "operator") [],
       node .integer "1" (some "right") []]]
  let fill := node .functionDefinition "def fill" (some "definition")
    [name "fill" "name",
     node .parameters "(self, rows=range(3))" (some "parameters")
      [node .identifier "self" none [],
       node .defaultParameter "rows=range(3)" none [name "rows" "name", bounds]],
     node .block "" (some "body") [step, growth]]
  let method := node .decoratedDefinition "@cached" none
    [node .decorator "@cached" none [node .token "@" none [], node .identifier "cached" none []], fill]
  node .root "" none
    [node .classDefinition "class Grid" none
      [name "Grid" "name", node .block "" (some "body") [method]]]

def gridStep : Stmt :=
  .functionDef (.plain "step" [] [.pass])

def gridGrowth : Stmt :=
  .augAssign (.symbol (.plain "rows")) .add (.integer 1)

def gridFill : FunctionDef :=
  { FunctionDef.plain "fill"
      [.plain ⟨"self", none⟩,
       .valued ⟨"rows", none⟩ (.range (.integer 0) (.integer 3) (.integer 1))]
      [gridStep, gridGrowth] with
    classOwner := some "Grid"
    decorators := Table.empty.insert "cached" [] }

theorem grid_class_canonical :
    ∃ lowered, LoweredModule.ofTree Directive.frontEnd gridClassTree = .ok lowered ∧
      lowered.body =
        [.classDef "Grid" [⟨"self", none⟩, ⟨"rows", none⟩] [gridFill]] ∧
      (∀ site ∈ Stmt.bodySites lowered.body, site.expr.IsPlain) ∧
        (∀ s ∈ lowered.body, ∀ t, s.Holds t → t.IsPlain) ∧
          ∃ s ∈ lowered.body, s.Holds gridStep ∧ s.Holds gridGrowth := by
  have lowers : LoweredModule.ofTree Directive.frontEnd gridClassTree =
      .ok ⟨[.classDef "Grid" [⟨"self", none⟩, ⟨"rows", none⟩] [gridFill]], .empty⟩ := by rfl
  obtain ⟨plainSites, plain⟩ := lowered_module_canonical lowers
  refine ⟨_, lowers, rfl, plainSites, plain, _, List.mem_cons_self, ?_, ?_⟩
  · exact .single List.mem_cons_self
  · exact .single (List.mem_cons_of_mem _ List.mem_cons_self)

end NumericPython

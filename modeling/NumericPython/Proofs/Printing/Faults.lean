import NumericPython.Printing.Node
import NumericPython.Proofs.Ast.Sites

set_option autoImplicit false

namespace NumericPython

namespace Site

def KeepsSlice (site : Site) : Prop :=
  site.expr.kind = .slice → site.isIndex = true

def fault? (site : Site) : Option PrintError :=
  match site.expr with
  | .float value | .complex value => if value.isFinite then none else some (.nonFinite value)
  | .slice _ _ _ => if site.isIndex then none else some (.unprintable .slice)
  | _ => none

theorem fault?_eq_none_iff (site : Site) :
    site.fault? = none ↔ site.HasFiniteNumber ∧ site.KeepsSlice := by
  obtain ⟨e, isIndex⟩ := site
  cases e <;> simp [fault?, HasFiniteNumber, KeepsSlice, Expr.kind]

end Site

inductive Writing where
  | expr (site : Site)
  | type (argument : Argument)

namespace Writing

def fault? : Writing → Option PrintError
  | expr site => site.fault?
  | type argument => if argument.info.isSome then none else some (.missingTypeInfo argument.name)

end Writing

def ForeignFunction.writings (function : ForeignFunction) : List Writing :=
  function.wrapperParameters.map (fun parameter => .type parameter.argument) ++
    (function.inner.arguments.flatMap Parameter.sites).map .expr

namespace Node

/-- The writings of a node in the order of its text. -/
def writings : Node → List Writing
  | expr e => (e.sites false).map .expr
  | stmt s => s.sites.map .expr
  | argument _ => []
  | valuedArgument _ value => (value.sites false).map .expr
  | block body => (Stmt.bodySites body).map .expr
  | foreignFunction function => function.writings
  | foreignModule exported => exported.functions.flatMap ForeignFunction.writings
  | foreignFunctionInterface _ _ | foreignModuleInterface _ => []

def wrapped : Node → List ForeignFunction
  | foreignFunction function => [function]
  | foreignModule exported => exported.functions
  | _ => []

/-- The sites of the expressions that are printed. Of a wrapped function these are the defaults of
its parameters. -/
def printedSites : Node → List Site
  | expr e | valuedArgument _ e => e.sites false
  | stmt s => s.sites
  | block body => Stmt.bodySites body
  | foreignFunction function => function.inner.arguments.flatMap Parameter.sites
  | foreignModule exported =>
    exported.functions.flatMap fun function => function.inner.arguments.flatMap Parameter.sites
  | argument _ | foreignFunctionInterface _ _ | foreignModuleInterface _ => []

theorem expr_mem_writings (node : Node) (site : Site) :
    Writing.expr site ∈ node.writings ↔ site ∈ node.printedSites := by
  cases node <;> simp [writings, printedSites, ForeignFunction.writings]

theorem type_mem_writings (node : Node) (argument : Argument) :
    Writing.type argument ∈ node.writings ↔
      ∃ function ∈ node.wrapped, ∃ parameter ∈ function.wrapperParameters,
        parameter.argument = argument := by
  cases node <;> simp [writings, wrapped, ForeignFunction.writings]

theorem no_fault_iff (node : Node) :
    node.writings.findSome? Writing.fault? = none ↔
      (∀ site ∈ node.printedSites, site.HasFiniteNumber ∧ site.KeepsSlice) ∧
        ∀ function ∈ node.wrapped, ∀ parameter ∈ function.wrapperParameters,
          parameter.argument.info.isSome = true := by
  rw [List.findSome?_eq_none_iff]
  constructor
  · intro faultless
    refine ⟨fun site member => ?_, fun function member parameter among => ?_⟩
    · exact site.fault?_eq_none_iff.1 (faultless _ ((node.expr_mem_writings site).2 member))
    · have known := faultless _ ((node.type_mem_writings _).2 ⟨function, member, parameter, among, rfl⟩)
      simpa [Writing.fault?, Option.isSome_iff_ne_none] using known
  · rintro ⟨sites, types⟩ (site | argument) member
    · exact site.fault?_eq_none_iff.2 (sites site ((node.expr_mem_writings site).1 member))
    · obtain ⟨function, among, parameter, inside, rfl⟩ := (node.type_mem_writings _).1 member
      simp [Writing.fault?, types function among parameter inside]

end Node

namespace Printing

/-- Printing something with the given writings stops exactly with the first fault among them. -/
def Reports {α : Type} (writings : List Writing) (written : Printed α) : Prop :=
  ∀ cause, written = .error cause ↔ writings.findSome? Writing.fault? = some cause

abbrev Shows {α : Type} (sites : List Site) (written : Printed α) : Prop :=
  Reports (sites.map .expr) written

section Laws

variable {α β : Type} {first second : List Writing} {written : Printed α}

theorem reports_ok (result : α) : Reports [] (.ok result : Printed α) := by
  simp [Reports]

theorem Reports.bind {next : α → Printed β} (stops : Reports first written)
    (goes : ∀ part, written = .ok part → Reports second (next part)) :
    Reports (first ++ second) (written >>= next) := by
  intro cause
  rw [List.findSome?_append]
  cases written with
  | error other =>
      -- The first part has stopped, so nothing of the second one is run or looked at.
      have found := (stops other).1 rfl
      rw [found]
      exact ⟨fun same => by cases same; rfl, fun same => by cases same; rfl⟩
  | ok part =>
      have none : first.findSome? Writing.fault? = none := by
        rw [Option.eq_none_iff_forall_ne_some]
        intro other found
        cases (stops other).2 found
      rw [none]
      exact goes part rfl cause

theorem Reports.last {next : α → Printed β} (stops : Reports first written)
    (goes : ∀ part, ∃ result, next part = .ok result) : Reports first (written >>= next) := by
  -- What is done in the end with the parts that have been written is never at fault.
  have whole : Reports (first ++ []) (written >>= next) := stops.bind fun part _ => by
    obtain ⟨result, same⟩ := goes part
    rw [same]
    exact reports_ok result
  rwa [List.append_nil] at whole

theorem Reports.map {f : α → β} (stops : Reports first written) : Reports first (written.map f) := by
  cases written with
  | error cause =>
      refine fun other => Iff.trans ?_ (stops other)
      exact ⟨fun same => by cases same; rfl, fun same => by cases same; rfl⟩
  | ok part => exact fun cause => ⟨nofun, fun found => nomatch (stops cause).2 found⟩

theorem reports_mapM {f : α → Printed β} {writings : α → List Writing} {xs : List α}
    (each : ∀ x ∈ xs, Reports (writings x) (f x)) : Reports (xs.flatMap writings) (xs.mapM f) := by
  induction xs with
  | nil => exact reports_ok []
  | cons x rest ih =>
      rw [List.mapM_cons, List.flatMap_cons]
      refine (each x (List.mem_cons_self ..)).bind fun y _ => ?_
      exact (ih fun z member => each z (List.mem_cons_of_mem _ member)).last fun ys => ⟨_, rfl⟩

theorem Shows.bind {sites more : List Site} {next : α → Printed β} (stops : Shows sites written)
    (goes : ∀ part, written = .ok part → Shows more (next part)) :
    Shows (sites ++ more) (written >>= next) := by
  rw [Shows, List.map_append]
  exact Reports.bind stops goes

theorem Shows.behind {site : Site} {sites : List Site} (faultless : site.fault? = none)
    (shows : Shows sites written) : Shows (site :: sites) written := by
  intro cause
  rw [shows cause, List.map_cons, List.findSome?_cons_of_isNone]
  simp [Writing.fault?, faultless]

end Laws

theorem floatText_shows {e : Expr} {value : Binary64}
    (number : e = .float value ∨ e = .complex value) :
    Shows (e.sites false) (floatText value) := by
  intro cause
  rcases number with rfl | rfl <;>
    by_cases finite : value.isFinite = true <;>
      simp [floatText, finite, Expr.sites, Writing.fault?, Site.fault?]

theorem indexText_shows {index : Expr}
    (slice : ∀ written, sliceText? index = some written → Shows (index.sites true) written)
    (expr : Shows (index.sites false) (exprText index)) :
    Shows (index.sites true) ((sliceText? index).getD (exprText index)) := by
  rcases written : sliceText? index with _ | text
  -- Only a slice is printed differently as an index.
  · cases index <;> first | exact expr | cases written
  · exact slice text written

-- One case for each form of a node: the parts are written in the order in which the node lists their
-- sites, and its own site comes first.
mutual

theorem exprText_shows : ∀ (e : Expr), Shows (e.sites false) (exprText e)
  | .integer _ | .boolean _ | .string _ | .nil | .symbol _ | .dotted _ =>
    Shows.behind rfl (reports_ok _)
  | .float value => floatText_shows (.inl rfl)
  | .complex imaginary => (floatText_shows (.inr rfl)).map
  | .tuple items => ((exprTexts_shows items).behind rfl).map
  | .binary op left right => by
      rw [Expr.sites, exprText]
      refine Shows.behind rfl ?_
      refine (exprText_shows left).bind fun leftText _ => ?_
      exact (exprText_shows right).last fun rightText => ⟨_, rfl⟩
  | .unary op operand => by
      rw [Expr.sites, exprText]
      refine Shows.behind rfl ((exprText_shows operand).last fun text => ?_)
      cases op <;> exact ⟨_, rfl⟩
  | .call callee args => ((exprTexts_shows args).behind rfl).map
  | .range start stop step => by
      rw [Expr.sites, exprText, List.append_assoc]
      refine Shows.behind rfl ?_
      refine (exprText_shows start).bind fun startText _ => ?_
      refine (exprText_shows stop).bind fun stopText _ => ?_
      exact (exprText_shows step).last fun stepText => ⟨_, rfl⟩
  | .indexed base index more => by
      rw [Expr.sites, exprText, List.append_assoc]
      refine Shows.behind rfl ?_
      refine (exprText_shows base).bind fun baseText _ => ?_
      refine (indexText_shows (sliceText_shows index) (exprText_shows index)).bind fun first _ => ?_
      exact (indexTexts_shows more).last fun others => ⟨_, rfl⟩
  | .slice start stop step => by
      -- Not an index here, so the slice is refused before its parts are looked at.
      intro cause
      simp [exprText, Expr.sites, Writing.fault?, Site.fault?]
  | .intrinsic function args => ((exprTexts_shows args).behind rfl).map

theorem exprTexts_shows :
    ∀ (items : List Expr), Shows (Expr.allSites false items) (exprTexts items)
  | [] => reports_ok []
  | e :: rest => by
      rw [Expr.allSites, exprTexts]
      refine (exprText_shows e).bind fun text _ => ?_
      exact (exprTexts_shows rest).last fun others => ⟨_, rfl⟩

theorem sliceText_shows : ∀ (e : Expr) (written : Printed String),
    sliceText? e = some written → Shows (e.sites true) written
  | .slice start stop step => by
      intro written same
      rw [sliceText?, Option.some.injEq] at same
      rw [← same, Expr.sites, List.append_assoc]
      refine Shows.behind rfl ?_
      refine (partText_shows start).bind fun startText _ => ?_
      refine (partText_shows stop).bind fun stopText _ => ?_
      exact (partText_shows step).last fun stepText => ⟨_, rfl⟩
  | .integer _ | .float _ | .complex _ | .boolean _ | .string _ | .nil | .symbol _ | .dotted _
  | .tuple _ | .binary _ _ _ | .unary _ _ | .call _ _ | .range _ _ _ | .indexed _ _ _
  | .intrinsic _ _ => nofun

theorem indexTexts_shows :
    ∀ (indices : List Expr), Shows (Expr.allSites true indices) (indexTexts indices)
  | [] => reports_ok []
  | index :: rest => by
      rw [Expr.allSites, indexTexts]
      refine (indexText_shows (sliceText_shows index) (exprText_shows index)).bind fun text _ => ?_
      exact (indexTexts_shows rest).last fun others => ⟨_, rfl⟩

theorem partText_shows : ∀ (part : Option Expr), Shows (Expr.partSites part) (partText part)
  | none => reports_ok ""
  | some e => exprText_shows e

end

theorem openText_shows (e : Expr) : Shows (e.sites false) (openText e) := by
  unfold openText
  split
  -- A tuple of two or more items has no parentheses.
  next first second rest => exact ((exprTexts_shows (first :: second :: rest)).behind rfl).map
  next => exact exprText_shows e

theorem parameterText_shows (parameter : Parameter) :
    Shows parameter.sites (parameterText parameter) := by
  cases parameter with
  | plain argument => exact reports_ok argument.name
  | valued argument default => exact (exprText_shows default).map

theorem decoratorText_shows (decorator : String × List Expr) :
    Shows (Expr.allSites false decorator.2) (decoratorText decorator) := by
  obtain ⟨name, args⟩ := decorator
  cases args with
  | nil => exact reports_ok ("@" ++ name)
  | cons first rest => exact (exprTexts_shows (first :: rest)).map

theorem shows_mapM {α β : Type} {f : α → Printed β} {sites : α → List Site} {xs : List α}
    (each : ∀ x, Shows (sites x) (f x)) : Shows (xs.flatMap sites) (xs.mapM f) := by
  rw [Shows, List.map_flatMap]
  exact reports_mapM fun x _ => each x

mutual

theorem stmtLines_shows (level : Nat) : ∀ (s : Stmt), Shows s.sites (stmtLines level s)
  | .comment _ | .pragma _ _ | .emptyLine | .pass | .importNames _ => reports_ok _
  | .assign target value => by
      rw [Stmt.sites, stmtLines]
      refine (openText_shows target).bind fun targetText _ => ?_
      exact (openText_shows value).last fun valueText => ⟨_, rfl⟩
  | .augAssign target op value => by
      rw [Stmt.sites, stmtLines]
      refine (exprText_shows target).bind fun targetText _ => ?_
      exact (exprText_shows value).last fun valueText => ⟨_, rfl⟩
  | .returnValue value => (openText_shows value).last fun text => ⟨_, rfl⟩
  | .print items => (exprTexts_shows items).last fun texts => ⟨_, rfl⟩
  | .conditional first rest otherwise => by
      rw [Stmt.sites, stmtLines, List.append_assoc]
      refine (branchLines_shows level "if " first).bind fun firstLines _ => ?_
      refine (elifLines_shows level rest).bind fun restLines _ => ?_
      exact (elseLines_shows level otherwise).last fun elseLines => ⟨_, rfl⟩
  | .always body => (stmtsLines_shows (level + 1) body).last fun lines => ⟨_, rfl⟩
  | .forLoop target iterable body => by
      rw [Stmt.sites, stmtLines, List.append_assoc]
      refine (openText_shows target.toExpr).bind fun targetText _ => ?_
      refine (exprText_shows iterable).bind fun iterableText _ => ?_
      exact (stmtsLines_shows (level + 1) body).last fun lines => ⟨_, rfl⟩
  | .whileLoop condition body => by
      rw [Stmt.sites, stmtLines]
      refine (exprText_shows condition).bind fun text _ => ?_
      exact (stmtsLines_shows (level + 1) body).last fun lines => ⟨_, rfl⟩
  | .functionDef definition => functionLines_shows level definition
  | .classDef _ _ methods => (methodLines_shows (level + 1) methods).last fun groups => ⟨_, rfl⟩
  | .expression value => (exprText_shows value).last fun text => ⟨_, rfl⟩

theorem stmtsLines_shows (level : Nat) :
    ∀ (body : List Stmt), Shows (Stmt.bodySites body) (stmtsLines level body)
  | [] => reports_ok []
  | s :: rest => by
      rw [Stmt.bodySites, stmtsLines]
      refine (stmtLines_shows level s).bind fun lines _ => ?_
      exact (stmtsLines_shows level rest).last fun others => ⟨_, rfl⟩

theorem branchLines_shows (level : Nat) (keyword : String) :
    ∀ (branch : Branch), Shows (Stmt.branchSites branch) (branchLines level keyword branch)
  | ⟨condition, body⟩ => by
      rw [Stmt.branchSites, branchLines]
      refine (exprText_shows condition).bind fun text _ => ?_
      exact (stmtsLines_shows (level + 1) body).last fun lines => ⟨_, rfl⟩

theorem elifLines_shows (level : Nat) :
    ∀ (branches : List Branch), Shows (Stmt.branchesSites branches) (elifLines level branches)
  | [] => reports_ok []
  | branch :: rest => by
      rw [Stmt.branchesSites, elifLines]
      refine (branchLines_shows level "elif " branch).bind fun lines _ => ?_
      exact (elifLines_shows level rest).last fun others => ⟨_, rfl⟩

theorem elseLines_shows (level : Nat) : ∀ (otherwise : Option (List Stmt)),
    Shows (Stmt.otherwiseSites otherwise) (elseLines level otherwise)
  | none => reports_ok []
  | some body => (stmtsLines_shows (level + 1) body).last fun _ => ⟨_, rfl⟩

theorem functionLines_shows (level : Nat) : ∀ (definition : FunctionDef),
    Shows (Stmt.definitionSites definition) (functionLines level definition)
  | ⟨name, arguments, _, body, _, _, _, _, _, _, decorators⟩ => by
      rw [Stmt.definitionSites, functionLines, List.append_assoc]
      refine (shows_mapM decoratorText_shows).bind fun decoratorTexts _ => ?_
      refine (shows_mapM parameterText_shows).bind fun parameterTexts _ => ?_
      exact (stmtsLines_shows (level + 1) body).last fun lines => ⟨_, rfl⟩

theorem methodLines_shows (level : Nat) : ∀ (methods : List FunctionDef),
    Shows (Stmt.methodsSites methods) (methodLines level methods)
  | [] => reports_ok []
  | method :: rest => by
      rw [Stmt.methodsSites, methodLines]
      refine (functionLines_shows level method).bind fun lines _ => ?_
      exact (methodLines_shows level rest).last fun others => ⟨_, rfl⟩

end

theorem sites_wrapperParameters (function : ForeignFunction) :
    function.wrapperParameters.flatMap Parameter.sites =
      function.inner.arguments.flatMap Parameter.sites := by
  unfold ForeignFunction.wrapperParameters
  split
  · split <;> simp [Parameter.sites]
  · rfl

section WrapperBody

def Faultless (e : Expr) : Prop :=
  ∀ site ∈ e.sites false, site.fault? = none

theorem symbol_faultless (s : Symbol) : Faultless (.symbol s) := by
  simp [Faultless, Expr.sites, Site.fault?]

theorem tuple_faultless {items : List Expr} (each : ∀ e ∈ items, Faultless e) :
    Faultless (.tuple items) := by
  simpa [Faultless, Expr.sites, Site.fault?] using Expr.forall_allSites.2 each

theorem call_faultless (callee : Name) {args : List Expr} (each : ∀ e ∈ args, Faultless e) :
    Faultless (.call callee args) := by
  simpa [Faultless, Expr.sites, Site.fault?] using Expr.forall_allSites.2 each

theorem innerCall_faultless (function : ForeignFunction) : Faultless function.innerCall := by
  refine call_faultless _ fun e member => ?_
  obtain ⟨parameter, _, rfl⟩ := List.mem_map.1 member
  exact symbol_faultless _

theorem targets_faultless (results : List Symbol) :
    Faultless (.tuple (results.map Expr.symbol)) := by
  refine tuple_faultless fun e member => ?_
  obtain ⟨s, _, rfl⟩ := List.mem_map.1 member
  exact symbol_faultless s

theorem assign_faultless {target value : Expr} (first : Faultless target)
    (second : Faultless value) :
    ∀ site ∈ (Stmt.assign target value).sites, site.fault? = none :=
  List.forall_mem_append.2 ⟨first, second⟩

theorem wrapperBody_faultless (function : ForeignFunction) :
    ∀ site ∈ Stmt.bodySites function.wrapperBody, site.fault? = none := by
  have call := innerCall_faultless function
  rw [Stmt.forall_bodySites]
  unfold ForeignFunction.wrapperBody
  -- Whatever the results are, the body holds only the call of the wrapped function and symbols.
  split
  · exact List.forall_mem_singleton.2 call
  next result _ =>
    have assigned := assign_faultless (symbol_faultless result) call
    split
    · exact List.forall_mem_singleton.2 assigned
    · exact List.forall_mem_cons.2 ⟨assigned, List.forall_mem_singleton.2 (symbol_faultless result)⟩
  · have returned := targets_faultless function.inner.results
    exact List.forall_mem_cons.2
      ⟨assign_faultless returned call, List.forall_mem_singleton.2 returned⟩

end WrapperBody

theorem argumentType_reports (settings : Settings) (argument : Argument) :
    Reports [.type argument] (argumentType settings argument) := by
  intro cause
  unfold argumentType
  rcases known : argument.info with _ | info <;> simp [Writing.fault?, known]

theorem headerText_reports (settings : Settings) (function : ForeignFunction) :
    Reports (function.wrapperParameters.map fun parameter => .type parameter.argument)
      (headerText settings function) := by
  rw [List.map_eq_flatMap]
  refine (reports_mapM fun parameter _ => ?_).last fun types => ⟨_, rfl⟩
  exact argumentType_reports settings parameter.argument

theorem wrapper_shows (settings : Settings) (function : ForeignFunction) :
    Shows (function.inner.arguments.flatMap Parameter.sites)
      (functionLines 0 (function.wrapper settings)) := by
  intro cause
  rw [functionLines_shows 0 _ cause]
  -- The body is at no fault, and the parameters that are added have no defaults.
  have body : ((Stmt.bodySites function.wrapperBody).map Writing.expr).findSome? Writing.fault? =
      none := by
    rw [List.findSome?_map, List.findSome?_eq_none_iff]
    exact wrapperBody_faultless function
  have sites : Stmt.definitionSites (function.wrapper settings) =
      function.inner.arguments.flatMap Parameter.sites ++
        Stmt.bodySites function.wrapperBody := by
    rw [← sites_wrapperParameters]
    rfl
  rw [sites, List.map_append, List.findSome?_append, body, Option.or_none]

theorem foreignFunctionLines_reports (settings : Settings) (function : ForeignFunction) :
    Reports function.writings (foreignFunctionLines settings function) :=
  (headerText_reports settings function).bind fun _ _ =>
    (wrapper_shows settings function).last fun _ => ⟨_, rfl⟩

end Printing

namespace Node

open Printing

theorem print_reports (settings : Settings) (node : Node) :
    Reports node.writings (node.print settings) := by
  cases node with
  | expr e => exact exprText_shows e
  | stmt s => exact (stmtLines_shows 0 s).map
  | argument a => exact reports_ok a.name
  | valuedArgument a value => exact parameterText_shows (.valued a value)
  | block body => exact (stmtsLines_shows 0 body).map.map
  | foreignFunction function => exact (foreignFunctionLines_reports settings function).map
  | foreignModule exported =>
      refine Reports.map (Reports.map (reports_mapM fun function _ => ?_))
      exact foreignFunctionLines_reports settings function
  | foreignFunctionInterface wrapperModule function => exact reports_ok _
  | foreignModuleInterface exported => exact reports_ok _

end Node

/-- A node is printed if all numbers in it are finite, all slices are indices and all parameters of
wrappers have types; otherwise the first fault in the order of the output is reported. -/
theorem printing_reports_first_fault (settings : Settings) (node : Node) :
    ((∃ text, node.print settings = .ok text) ↔
      (∀ site ∈ node.printedSites, site.HasFiniteNumber ∧ site.KeepsSlice) ∧
        ∀ function ∈ node.wrapped, ∀ parameter ∈ function.wrapperParameters,
          parameter.argument.info.isSome = true) ∧
      ∀ cause, node.print settings = .error cause ↔
        node.writings.findSome? Writing.fault? = some cause := by
  refine ⟨?_, node.print_reports settings⟩
  have reports := node.print_reports settings
  rw [← node.no_fault_iff, Option.eq_none_iff_forall_ne_some]
  -- Success is the absence of a report, since a report is the only other outcome.
  constructor
  · rintro ⟨text, printed⟩ cause found
    rw [(reports cause).2 found] at printed
    cases printed
  · intro faultless
    rcases printed : node.print settings with cause | text
    · exact absurd ((reports cause).1 printed) (faultless cause)
    · exact ⟨text, rfl⟩

end NumericPython

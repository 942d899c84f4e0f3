import Mathlib.Data.List.Nodup
import NumericPython.Dump.Node
import NumericPython.Proofs.Ast.Sites
import NumericPython.Proofs.Dump.Texts

set_option autoImplicit false

namespace NumericPython

section Names

theorem DataType.name_inj {a b : DataType} : a.name = b.name ↔ a = b :=
  ⟨List.inj_on_of_nodup_map (l := all) (by decide) (by cases a <;> decide) (by cases b <;> decide),
    congrArg name⟩

theorem BinaryOperator.name_inj {a b : BinaryOperator} : a.name = b.name ↔ a = b :=
  ⟨List.inj_on_of_nodup_map (l := all) (by decide) (by cases a <;> decide) (by cases b <;> decide),
    congrArg name⟩

theorem MathFunction.name_inj {a b : MathFunction} : a.name = b.name ↔ a = b :=
  ⟨List.inj_on_of_nodup_map (l := all) (by decide) (by cases a <;> decide) (by cases b <;> decide),
    congrArg name⟩

theorem UnaryOperator.name_inj {a b : UnaryOperator} : a.name = b.name ↔ a = b := by
  cases a <;> cases b <;> decide

theorem PragmaFamily.name_inj {a b : PragmaFamily} : a.name = b.name ↔ a = b := by
  cases a <;> cases b <;> decide

theorem FunctionKind.name_inj {a b : FunctionKind} : a.name = b.name ↔ a = b := by
  cases a <;> cases b <;> decide

end Names

namespace Dump

open Json

section Kinds

def kindNamed : String → NodeKind
  | "integer" => .integer
  | "float" => .float
  | "complex" => .complex
  | "boolean" => .boolean
  | "string" => .string
  | "nil" => .nil
  | "symbol" => .symbol
  | "dotted_name" => .dottedName
  | "tuple" => .tuple
  | "binary_op" => .binaryOp
  | "unary_op" => .unaryOp
  | "function_call" => .functionCall
  | "range" => .range
  | "indexed" => .indexed
  | "slice" => .slice
  | "intrinsic" => .intrinsic
  | "assign" => .assign
  | "aug_assign" => .augAssign
  | "return" => .returnStmt
  | "print" => .print
  | "comment" => .comment
  | "pragma" => .pragma
  | "empty_line" => .emptyLine
  | "pass" => .pass
  | "import" => .importStmt
  | "if" => .ifStmt
  | "for" => .forLoop
  | "while" => .whileLoop
  | "function_def" => .functionDef
  | "class_def" => .classDef
  | "expr" => .exprStmt
  | _ => .block

def kindOf : Json → NodeKind
  | object (("kind", string name) :: _) => kindNamed name
  | object (("name", _) :: ("functions", _) :: _) => .foreignModule
  | object (("name", _) :: _) => .argument
  | object (("argument", _) :: _) => .valuedArgument
  | object (("inner", _) :: _) => .foreignFunction
  | object (("wrapper_module", _) :: _) => .foreignFunctionInterface
  | object (("module", _) :: _) => .foreignModuleInterface
  | _ => .block

theorem kindOf_expr (e : Expr) : kindOf (expr e) = e.kind := by
  cases e <;> rfl

theorem kindOf_stmt (s : Stmt) : kindOf (stmt s) = s.kind := by
  cases s <;> rfl

theorem kindOf_argument (a : Argument) : kindOf (argument a) = .argument := by
  obtain ⟨name, _ | info⟩ := a <;> rfl

theorem kindOf_dump (node : Node) : kindOf node.dump = node.kind := by
  cases node with
  | expr e => exact kindOf_expr e
  | stmt s => exact kindOf_stmt s
  | argument a => exact kindOf_argument a
  | _ => rfl

inductive Form where
  | expr
  | stmt
  | other (kind : NodeKind)

def formOf : NodeKind → Form
  | .integer | .float | .complex | .boolean | .string | .nil | .symbol | .dottedName | .tuple
  | .binaryOp | .unaryOp | .functionCall | .range | .indexed | .slice | .intrinsic => .expr
  | .assign | .augAssign | .returnStmt | .print | .comment | .pragma | .emptyLine | .pass
  | .importStmt | .ifStmt | .forLoop | .whileLoop | .functionDef | .classDef | .exprStmt => .stmt
  | kind => .other kind

def form : Node → Form
  | .expr _ => .expr
  | .stmt _ => .stmt
  | node => .other node.kind

theorem formOf_kind (node : Node) : formOf node.kind = form node := by
  cases node with
  | expr e => cases e <;> rfl
  | stmt s => cases s <;> rfl
  | _ => rfl

theorem form_eq {a b : Node} (same : a.dump = b.dump) : form a = form b := by
  rw [← formOf_kind, ← formOf_kind, ← kindOf_dump, same, kindOf_dump]

end Kinds

section Parts

variable {α : Type} {dump : α → Json}

theorem optional_inj (isValue : ∀ x, dump x ≠ null) (injective : ∀ {x y}, dump x = dump y ↔ x = y)
    {a b : Option α} : optional dump a = optional dump b ↔ a = b := by
  cases a <;> cases b <;> simp [optional, injective, isValue, (isValue _).symm]

theorem optionalString_inj {a b : Option String} :
    optional string a = optional string b ↔ a = b :=
  optional_inj nofun (by simp)

theorem list_inj (injective : ∀ {x y}, dump x = dump y ↔ x = y) {xs ys : List α} :
    list dump xs = list dump ys ↔ xs = ys := by
  rw [list, list, array.injEq]
  exact (List.map_injective_iff.2 fun _ _ same => injective.1 same).eq_iff

theorem strings_inj {xs ys : List String} : strings xs = strings ys ↔ xs = ys :=
  list_inj (by simp)

theorem info_inj {a b : VariableInfo} : info a = info b ↔ a = b := by
  obtain ⟨dtype, rank⟩ := a
  obtain ⟨dtype', rank'⟩ := b
  simp [info, DataType.name_inj, UInt8.toNat_inj]

theorem named_inj {name name' : String} {i j : Option VariableInfo} :
    named name i = named name' j ↔ name = name' ∧ i = j := by
  cases i <;> cases j <;> simp [named, info_inj]

theorem symbol_inj {a b : Symbol} : symbol a = symbol b ↔ a = b := by
  obtain ⟨name, info⟩ := a
  obtain ⟨name', info'⟩ := b
  simp [symbol, named_inj]

theorem argument_inj {a b : Argument} : argument a = argument b ↔ a = b := by
  obtain ⟨name, info⟩ := a
  obtain ⟨name', info'⟩ := b
  simp [argument, named_inj]

theorem dotted_inj {a b : DottedName} : strings a.parts = strings b.parts ↔ a = b := by
  obtain ⟨parts, two_le, valid⟩ := a
  obtain ⟨parts', two_le', valid'⟩ := b
  simp [strings_inj]

theorem name_inj {a b : Name} : name a = name b ↔ a = b := by
  cases a <;> cases b <;>
    simp [name, symbol_inj, dotted_inj] <;> simp [symbol, named, strings, list]

theorem intrinsic_inj {f g : IntrinsicFunction} : intrinsic f = intrinsic g ↔ f = g := by
  cases f <;> cases g <;> simp [intrinsic, IntrinsicFunction.name, MathFunction.name_inj]

end Parts

section Expressions

theorem expr_ne_null (e : Expr) : expr e ≠ null := by
  cases e <;> nofun

theorem expr_kind_eq {a b : Expr} (same : expr a = expr b) : a.kind = b.kind := by
  rw [← kindOf_expr, same, kindOf_expr]

mutual

theorem expr_inj : ∀ {a b : Expr}, expr a = expr b ↔ a = b
  | a, b => by
    -- The kind comes first in both, so only values of one kind are left to compare.
    by_cases kinds : a.kind = b.kind
    · cases a <;> cases b <;> first
        | cases kinds; done
        | simp [expr, tagged, Int64.toInt_inj, symbol_inj, dotted_inj, name_inj, intrinsic_inj,
            BinaryOperator.name_inj, UnaryOperator.name_inj, expr_inj, exprs_inj, optionalExpr_inj]
    · exact iff_of_false (fun same => kinds (expr_kind_eq same)) fun same => kinds (same ▸ rfl)

theorem exprs_inj : ∀ {as bs : List Expr}, exprs as = exprs bs ↔ as = bs
  | [], [] => by simp [exprs]
  | [], _ :: _ => by simp [exprs]
  | _ :: _, [] => by simp [exprs]
  | a :: as, b :: bs => by simp [exprs, expr_inj, exprs_inj]

theorem optionalExpr_inj : ∀ {a b : Option Expr}, optionalExpr a = optionalExpr b ↔ a = b
  | none, none => by simp [optionalExpr]
  | none, some b => by simp [optionalExpr, (expr_ne_null b).symm]
  | some a, none => by simp [optionalExpr, expr_ne_null a]
  | some a, some b => by simp [optionalExpr, expr_inj]

end

end Expressions

section Statements

theorem parameter_inj {a b : Parameter} : parameter a = parameter b ↔ a = b := by
  cases a <;> cases b <;>
    simp [parameter, valuedArgument, argument_inj, expr_inj] <;> simp [argument, named]

theorem target_inj {a b : ImportTarget} : target a = target b ↔ a = b := by
  obtain ⟨imported, asName⟩ := a
  obtain ⟨imported', asName'⟩ := b
  cases asName <;> cases asName' <;> simp [target, name_inj]

theorem name_ne_null (n : Name) : name n ≠ null := by
  cases n <;> nofun

theorem importMembers_inj {a b : Import} : importMembers a = importMembers b ↔ a = b := by
  obtain ⟨source, target, more⟩ := a
  obtain ⟨source', target', more'⟩ := b
  simp [importMembers, Import.targets, optional_inj name_ne_null name_inj, list_inj target_inj]

theorem decorators_inj {a b : Table (List Expr)} : decorators a = decorators b ↔ a = b := by
  obtain ⟨entries, nodup⟩ := a
  obtain ⟨entries', nodup'⟩ := b
  have injective : Function.Injective
      fun entry : String × List Expr => (entry.1, array (exprs entry.2)) := by
    rintro ⟨key, args⟩ ⟨key', args'⟩ same
    simpa [exprs_inj] using same
  simp only [decorators, object.injEq, Table.mk.injEq]
  exact (List.map_injective_iff.2 injective).eq_iff

theorem toExpr_inj {a b : LoopTarget} : a.toExpr = b.toExpr ↔ a = b := by
  have injective : Function.Injective Expr.symbol := fun _ _ same => by cases same; rfl
  cases a <;> cases b <;>
    simp [LoopTarget.toExpr, (List.map_injective_iff.2 injective).eq_iff]

theorem branchValue_inj {condition condition' : Json} {body body' : List Json} :
    branchValue condition body = branchValue condition' body' ↔
      condition = condition' ∧ body = body' := by
  simp [branchValue]

theorem branch_ne_else (b : Branch) (body : List Stmt) :
    branch b ≠ branchValue (string "always") (stmts body) := by
  obtain ⟨condition, inner⟩ := b
  simp [branch, branchValue_inj]

theorem branches_unique {bs cs : List Branch} {otherwise otherwise' : Option (List Stmt)} :
    branches bs ++ elseBranch otherwise = branches cs ++ elseBranch otherwise' ↔
      branches bs = branches cs ∧ elseBranch otherwise = elseBranch otherwise' := by
  -- A branch without a condition is a text where the others hold an object, so it shows the end.
  induction bs generalizing cs with
  | nil =>
      cases cs with
      | nil => simp [branches]
      | cons c cs => cases otherwise <;> simp [branches, elseBranch, (branch_ne_else c _).symm]
  | cons b bs ih =>
      cases cs with
      | nil => cases otherwise' <;> simp [branches, elseBranch, branch_ne_else b]
      | cons c cs => simp [branches, ih, and_assoc]

theorem stmt_kind_eq {a b : Stmt} (same : stmt a = stmt b) : a.kind = b.kind := by
  rw [← kindOf_stmt, same, kindOf_stmt]

mutual

theorem stmt_inj : ∀ {a b : Stmt}, stmt a = stmt b ↔ a = b
  | a, b => by
    by_cases kinds : a.kind = b.kind
    · cases a <;> cases b <;> first
        | cases kinds; done
        | simp [stmt, statement, expr_inj, exprs_inj, BinaryOperator.name_inj,
            PragmaFamily.name_inj, strings_inj, importMembers_inj, toExpr_inj,
            list_inj argument_inj, branches_unique, branch_ne_else, (branch_ne_else _ _).symm,
            branchValue_inj, stmts_inj, branch_inj, branches_inj, elseBranch_inj,
            functionMembers_inj, functions_inj]
    · exact iff_of_false (fun same => kinds (stmt_kind_eq same)) fun same => kinds (same ▸ rfl)
termination_by structural a => a

theorem stmts_inj : ∀ {as bs : List Stmt}, stmts as = stmts bs ↔ as = bs
  | [], [] => by simp [stmts]
  | [], _ :: _ => by simp [stmts]
  | _ :: _, [] => by simp [stmts]
  | a :: as, b :: bs => by simp [stmts, stmt_inj, stmts_inj]
termination_by structural a => a

theorem branch_inj : ∀ {a b : Branch}, branch a = branch b ↔ a = b
  | ⟨_, _⟩, ⟨_, _⟩ => by simp [branch, branchValue_inj, expr_inj, stmts_inj]
termination_by structural a => a

theorem branches_inj : ∀ {as bs : List Branch}, branches as = branches bs ↔ as = bs
  | [], [] => by simp [branches]
  | [], _ :: _ => by simp [branches]
  | _ :: _, [] => by simp [branches]
  | a :: as, b :: bs => by simp [branches, branch_inj, branches_inj]
termination_by structural a => a

theorem elseBranch_inj :
    ∀ {a b : Option (List Stmt)}, elseBranch a = elseBranch b ↔ a = b
  | none, none => by simp [elseBranch]
  | none, some _ => by simp [elseBranch]
  | some _, none => by simp [elseBranch]
  | some as, some bs => by simp [elseBranch, branchValue_inj, stmts_inj]
termination_by structural a => a

theorem functionMembers_inj :
    ∀ {f g : FunctionDef}, functionMembers f = functionMembers g ↔ f = g
  | ⟨_, _, _, _, _, _, _, _, _, _, _⟩, ⟨_, _, _, _, _, _, _, _, _, _, _⟩ => by
    simp [functionMembers, list_inj parameter_inj, list_inj symbol_inj,
      optionalString_inj, FunctionKind.name_inj, list_inj, importMembers_inj, decorators_inj,
      stmts_inj]
termination_by structural a => a

theorem functions_inj : ∀ {fs gs : List FunctionDef}, functions fs = functions gs ↔ fs = gs
  | [], [] => by simp [functions]
  | [], _ :: _ => by simp [functions]
  | _ :: _, [] => by simp [functions]
  | f :: fs, g :: gs => by simp [functions, functionMembers_inj, functions_inj]
termination_by structural a => a

end

end Statements

section Nodes

theorem foreignFunction_inj {f g : ForeignFunction} :
    foreignFunction f = foreignFunction g ↔ f = g := by
  obtain ⟨inner, moduleName⟩ := f
  obtain ⟨inner', moduleName'⟩ := g
  simp [foreignFunction, functionMembers_inj]

theorem foreignModule_inj {m n : ForeignModule} : foreignModule m = foreignModule n ↔ m = n := by
  obtain ⟨name, functions⟩ := m
  obtain ⟨name', functions'⟩ := n
  simp [foreignModule, list_inj foreignFunction_inj]

theorem dump_inj {a b : Node} : a.dump = b.dump ↔ a = b := by
  refine ⟨fun same => ?_, congrArg Node.dump⟩
  have forms := form_eq same
  cases a <;> cases b <;> first
    | cases forms; done
    | simpa [Node.dump, expr_inj, stmt_inj, stmts_inj, argument_inj, valuedArgument,
        foreignFunction_inj, foreignModule_inj] using same

end Nodes

section Finite

def FiniteSites (sites : List Site) : Prop :=
  ∀ site ∈ sites, site.HasFiniteNumber

theorem finiteSites_nil : FiniteSites [] :=
  nofun

theorem finiteSites_cons {site : Site} {sites : List Site} :
    FiniteSites (site :: sites) ↔ site.HasFiniteNumber ∧ FiniteSites sites :=
  List.forall_mem_cons

theorem finiteSites_append {first second : List Site} :
    FiniteSites (first ++ second) ↔ FiniteSites first ∧ FiniteSites second :=
  List.forall_mem_append

theorem finiteSites_flatMap {α : Type} {xs : List α} {sites : α → List Site} :
    FiniteSites (xs.flatMap sites) ↔ ∀ x ∈ xs, FiniteSites (sites x) :=
  List.forall_mem_flatMap

theorem finite_array {items : List Json} :
    FiniteNumbers (array items) ↔ ∀ item ∈ items, FiniteNumbers item :=
  ⟨fun | .array each => each, .array⟩

theorem finite_object {members : List (String × Json)} :
    FiniteNumbers (object members) ↔ ∀ member ∈ members, FiniteNumbers member.2 :=
  ⟨fun | .object each => each, .object⟩

theorem finite_float {value : Binary64} : FiniteNumbers (float value) ↔ value.isFinite = true :=
  ⟨fun | .float finite => finite, .float⟩

variable {α : Type} {dump : α → Json}

theorem finite_optional (each : ∀ x, FiniteNumbers (dump x)) (a : Option α) :
    FiniteNumbers (optional dump a) := by
  cases a with
  | none => exact .null
  | some x => exact each x

theorem finite_list {xs : List α} :
    FiniteNumbers (list dump xs) ↔ ∀ x ∈ xs, FiniteNumbers (dump x) := by
  simp [list, finite_array]

theorem finite_strings (xs : List String) : FiniteNumbers (strings xs) :=
  finite_list.2 fun x _ => .string x

theorem finite_named (name : String) (i : Option VariableInfo) : FiniteNumbers (named name i) := by
  cases i <;> simp [named, info, finite_object, FiniteNumbers.string, FiniteNumbers.integer]

theorem finite_name (n : Name) : FiniteNumbers (name n) := by
  cases n with
  | symbol s => exact finite_named s.name s.info
  | dotted d => exact finite_strings d.parts

theorem finite_intrinsic (f : IntrinsicFunction) : FiniteNumbers (intrinsic f) := by
  cases f <;> simp [intrinsic, finite_object, FiniteNumbers.string]

theorem finite_tagged {kind : String} {value : Json} :
    FiniteNumbers (tagged kind value) ↔ FiniteNumbers value := by
  simp [tagged, finite_object, FiniteNumbers.string]

mutual

theorem finite_expr : ∀ {e : Expr} {isIndex : Bool},
    FiniteSites (e.sites isIndex) ↔ FiniteNumbers (expr e)
  | e, isIndex => by
    cases e <;>
      simp [Expr.sites, finiteSites_cons, finiteSites_append, finiteSites_nil, Site.HasFiniteNumber, finite_expr,
        finite_exprs, finite_optionalExpr, expr, finite_tagged, finite_object, finite_array,
        finite_float, symbol, finite_named, finite_strings, finite_name, finite_intrinsic,
        FiniteNumbers.string, FiniteNumbers.integer, FiniteNumbers.boolean]

theorem finite_exprs : ∀ {es : List Expr} {isIndex : Bool},
    FiniteSites (Expr.allSites isIndex es) ↔ ∀ item ∈ exprs es, FiniteNumbers item
  | [], _ => by simp [exprs, Expr.allSites, finiteSites_nil]
  | e :: rest, isIndex => by
    simp [exprs, Expr.allSites, finiteSites_append, finite_expr, finite_exprs]

theorem finite_optionalExpr : ∀ {part : Option Expr},
    FiniteSites (Expr.partSites part) ↔ FiniteNumbers (optionalExpr part)
  | none => by simp [optionalExpr, Expr.partSites, finiteSites_nil, FiniteNumbers.null]
  | some e => by simp [optionalExpr, Expr.partSites, finite_expr]

end

theorem finite_parameter {p : Parameter} :
    FiniteSites p.sites ↔ FiniteNumbers (parameter p) := by
  cases p <;>
    simp [Parameter.sites, finiteSites_nil, parameter, valuedArgument, finite_object, argument,
      finite_named, finite_expr]

theorem finite_import (i : Import) : FiniteNumbers (object (importMembers i)) := by
  have source := finite_optional finite_name i.source
  have target (t : ImportTarget) : FiniteNumbers (target t) := by
    obtain ⟨imported, _ | other⟩ := t <;>
      simp [Dump.target, finite_object, finite_name, FiniteNumbers.string]
  simp [importMembers, finite_object, source, finite_list, target]

theorem finite_decorators {table : Table (List Expr)} :
    FiniteSites (table.entries.flatMap fun entry => Expr.allSites false entry.2) ↔
      FiniteNumbers (decorators table) := by
  simp only [finiteSites_flatMap, finite_exprs, decorators, finite_object, List.forall_mem_map,
    finite_array]

theorem finite_branchValue {condition : Json} {body : List Json} :
    FiniteNumbers (branchValue condition body) ↔
      FiniteNumbers condition ∧ ∀ item ∈ body, FiniteNumbers item := by
  simp [branchValue, finite_object, finite_array]

theorem finite_statement {kind : String} {members : List (String × Json)} :
    FiniteNumbers (statement kind members) ↔ FiniteNumbers (object members) := by
  simp [statement, finite_object, FiniteNumbers.string]

mutual

theorem finite_stmt {s : Stmt} : FiniteSites s.sites ↔ FiniteNumbers (stmt s) := by
  cases s with
  | importNames i => exact iff_of_true finiteSites_nil (finite_statement.2 (finite_import i))
  | _ =>
      simp [Stmt.sites, finiteSites_append, finiteSites_nil, finite_expr, finite_exprs,
        finite_stmts, finite_branch, finite_branches, finite_otherwise, finite_definition,
        finite_methods, stmt, finite_statement, finite_object, finite_array, finite_list,
        finite_strings, finite_branchValue, argument, finite_named, FiniteNumbers.string, or_imp,
        forall_and]

theorem finite_stmts : ∀ {body : List Stmt},
    FiniteSites (Stmt.bodySites body) ↔ ∀ item ∈ stmts body, FiniteNumbers item
  | [] => by simp [Stmt.bodySites, stmts, finiteSites_nil]
  | s :: rest => by simp [Stmt.bodySites, stmts, finiteSites_append, finite_stmt, finite_stmts]

theorem finite_branch : ∀ {b : Branch},
    FiniteSites (Stmt.branchSites b) ↔ FiniteNumbers (branch b)
  | ⟨_, _⟩ => by
    simp [Stmt.branchSites, branch, finiteSites_append, finite_expr, finite_stmts,
      finite_branchValue, finite_object]

theorem finite_branches : ∀ {bs : List Branch},
    FiniteSites (Stmt.branchesSites bs) ↔ ∀ item ∈ branches bs, FiniteNumbers item
  | [] => by simp [Stmt.branchesSites, branches, finiteSites_nil]
  | b :: rest => by
    simp [Stmt.branchesSites, branches, finiteSites_append, finite_branch, finite_branches]

theorem finite_otherwise : ∀ {otherwise : Option (List Stmt)},
    FiniteSites (Stmt.otherwiseSites otherwise) ↔
      ∀ item ∈ elseBranch otherwise, FiniteNumbers item
  | none => by simp [Stmt.otherwiseSites, elseBranch, finiteSites_nil]
  | some body => by
    simp [Stmt.otherwiseSites, elseBranch, finite_stmts, finite_branchValue,
      FiniteNumbers.string]

theorem finite_definition : ∀ {f : FunctionDef},
    FiniteSites (Stmt.definitionSites f) ↔
      ∀ member ∈ functionMembers f, FiniteNumbers member.2
  | ⟨_, _, _, _, _, _, _, _, _, _, _⟩ => by
    rw [Stmt.definitionSites, finiteSites_append, finiteSites_append, finite_decorators,
      finite_stmts, finiteSites_flatMap]
    simp [functionMembers, finite_parameter, finite_array, finite_list, symbol, finite_named,
      finite_import, finite_optional, FiniteNumbers.string, FiniteNumbers.boolean]
    tauto

theorem finite_methods : ∀ {fs : List FunctionDef},
    FiniteSites (Stmt.methodsSites fs) ↔ ∀ item ∈ functions fs, FiniteNumbers item
  | [] => by simp [Stmt.methodsSites, functions, finiteSites_nil]
  | f :: rest => by
    simp [Stmt.methodsSites, functions, finiteSites_append, finite_definition, finite_methods,
      finite_object]

end

theorem finite_foreignFunction {f : ForeignFunction} :
    FiniteSites (Stmt.definitionSites f.inner) ↔ FiniteNumbers (foreignFunction f) := by
  simp [finite_definition, foreignFunction, finite_object, FiniteNumbers.string]

theorem finite_foreignModule {m : ForeignModule} :
    FiniteSites (m.functions.flatMap fun f => Stmt.definitionSites f.inner) ↔
      FiniteNumbers (foreignModule m) := by
  simp [finiteSites_flatMap, finite_foreignFunction, foreignModule, finite_object, finite_list,
    FiniteNumbers.string]

theorem finite_dump {node : Node} : FiniteSites node.sites ↔ FiniteNumbers node.dump := by
  cases node <;>
    simp [Node.sites, Node.dump, finite_expr, finite_stmt, finiteSites_nil, argument,
      finite_named, valuedArgument, finite_object, finite_array, finite_stmts,
      finite_foreignFunction, finite_foreignModule, FiniteNumbers.string]

end Finite

end Dump

/-- The compact text of a node whose numbers are finite is the text of no other such node. -/
theorem compact_dump_determines_node {a b : Node}
    (finite : ∀ site ∈ a.sites, site.HasFiniteNumber)
    (finite' : ∀ site ∈ b.sites, site.HasFiniteNumber)
    (same : a.dump.compact = b.dump.compact) : a = b :=
  Dump.dump_inj.1
    (Json.compact_injective (Dump.finite_dump.1 finite) (Dump.finite_dump.1 finite') same)

def scaledFunction (decorators : Table (List Expr)) : Node :=
  .stmt (.functionDef
    { FunctionDef.plain "scale" [.valued ⟨"x", some ⟨.float, 2⟩⟩ (.float Binary64.zero)]
        [.returnValue (.symbol (.plain "x"))] with decorators })

theorem scaledFunction_dump_determines :
    let table := Table.ofList [("types", [.string "\"a\""]), ("pure", []), ("types", [.nil])]
    let other := (Table.empty.insert "types" [.nil]).insert "pure" []
    (scaledFunction table).dump.compact = (scaledFunction other).dump.compact ∧
      scaledFunction table = scaledFunction other := by
  intro table other
  have finite (table : Table (List Expr)) (plain : table.entries.flatMap
      (fun entry => Expr.allSites false entry.2) = [⟨.nil, false⟩]) :
      ∀ site ∈ (scaledFunction table).sites, site.HasFiniteNumber := by
    simp [scaledFunction, FunctionDef.plain, Node.sites, Stmt.sites, Stmt.definitionSites, plain,
      Parameter.sites, Stmt.bodySites, Expr.sites, Site.HasFiniteNumber]
    decide
  have same : (scaledFunction table).dump.compact = (scaledFunction other).dump.compact := rfl
  exact ⟨same, compact_dump_determines_node (finite table rfl) (finite other rfl) same⟩

end NumericPython

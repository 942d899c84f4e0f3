import NumericPython.Proofs.Ast.Table
import NumericPython.Proofs.Lowering.CanonicalExpr

set_option autoImplicit false

namespace NumericPython

def Parameter.Canonical : Parameter → Prop
  | plain _ => True
  | valued _ default => default.Canonical false

def Import.IsPlain (item : Import) : Prop :=
  (∀ source ∈ item.source, source.IsPlain) ∧ ∀ target ∈ item.targets, target.name.IsPlain

def Stmt.firstParameters : List FunctionDef → List Argument
  | [] => []
  | first :: _ => first.arguments.map Parameter.argument

/-- Of a definition nothing is known but its text and its class. -/
structure FunctionDef.IsPlain (owner : Option String) (definition : FunctionDef) : Prop where
  results : definition.results = []
  localVars : definition.localVars = []
  globalVars : definition.globalVars = []
  imports : definition.imports = []
  kind : definition.kind = .function
  visible : definition.isHidden = false
  owned : definition.classOwner = owner
  untyped : ∀ parameter ∈ definition.arguments, parameter.argument.info = none

structure FunctionDef.CanonicalHeader (definition : FunctionDef) : Prop where
  parameters : ∀ parameter ∈ definition.arguments, parameter.Canonical
  decorators : ∀ entry ∈ definition.decorators.entries, ∀ e ∈ entry.2, e.Canonical false

namespace Stmt

/-- Statements in canonical form. -/
inductive Canonical : Stmt → Prop
  | assign {target value : Expr} (left : target.Canonical false) (right : value.Canonical false) :
      Canonical (.assign target value)
  | augAssign {target value : Expr} {op : BinaryOperator} (left : target.Canonical false)
      (arithmetic : op.isArithmetic = true) (right : value.Canonical false) :
      Canonical (.augAssign target op value)
  | returnValue {value : Expr} (inner : value.Canonical false) : Canonical (.returnValue value)
  | print {items : List Expr} (each : ∀ e ∈ items, e.Canonical false) : Canonical (.print items)
  | comment (text : String) : Canonical (.comment text)
  | pragma (family : PragmaFamily) (clauses : List String) : Canonical (.pragma family clauses)
  | emptyLine : Canonical .emptyLine
  | pass : Canonical .pass
  | importNames {item : Import} (plain : item.IsPlain) : Canonical (.importNames item)
  | conditional {first : Branch} {rest : List Branch} {otherwise : Option (List Stmt)}
      (conditions : ∀ branch ∈ first :: rest, branch.condition.Canonical false)
      (bodies : ∀ branch ∈ first :: rest, ∀ s ∈ branch.body, Canonical s)
      (last : ∀ body ∈ otherwise, ∀ s ∈ body, Canonical s) :
      Canonical (.conditional first rest otherwise)
  | always {body : List Stmt} (each : ∀ s ∈ body, Canonical s) : Canonical (.always body)
  | forLoop {target : LoopTarget} {iterable : Expr} {body : List Stmt}
      (left : target.toExpr.Canonical false) (right : iterable.Canonical false)
      (each : ∀ s ∈ body, Canonical s) : Canonical (.forLoop target iterable body)
  | whileLoop {condition : Expr} {body : List Stmt} (holds : condition.Canonical false)
      (each : ∀ s ∈ body, Canonical s) : Canonical (.whileLoop condition body)
  | functionDef {definition : FunctionDef} (plain : definition.IsPlain none)
      (header : definition.CanonicalHeader) (each : ∀ s ∈ definition.body, Canonical s) :
      Canonical (.functionDef definition)
  | classDef {name : String} {attributes : List Argument} {methods : List FunctionDef}
      (declared : attributes = firstParameters methods)
      (plain : ∀ method ∈ methods, method.IsPlain (some name))
      (header : ∀ method ∈ methods, method.CanonicalHeader)
      (each : ∀ method ∈ methods, ∀ s ∈ method.body, Canonical s) :
      Canonical (.classDef name attributes methods)
  | expression {value : Expr} (inner : value.Canonical false) : Canonical (.expression value)

end Stmt

structure FunctionDef.Canonical (owner : Option String) (definition : FunctionDef) : Prop where
  plain : definition.IsPlain owner
  header : definition.CanonicalHeader
  body : ∀ s ∈ definition.body, s.Canonical

namespace Lowering

theorem lowerComment_canonical (frontEnd : FrontEnd) (comment : Tree) :
    Ensures Stmt.Canonical (lowerComment frontEnd comment) := by
  unfold lowerComment
  split
  · unfold lowerPragma
    split
    · exact ensures_error _
    · split
      · exact ensures_error _
      · split
        · exact ensures_error _
        · exact ensures_ok (.pragma _ _)
  · exact ensures_ok (.comment _)

section Imports

theorem ofParts_isPlain (parts : List String) :
    Ensures Name.IsPlain (ofMalformed (Name.ofParts parts)) := by
  unfold Name.ofParts
  split
  · exact ensures_error _
  · split
    · exact ensures_ok rfl
    · exact ensures_error _
  · cases DottedName.ofParts parts with
    | error cause => exact ensures_error _
    | ok name => exact ensures_ok trivial

theorem lowerDottedName_isPlain (tree : Tree) : Ensures Name.IsPlain (lowerDottedName tree) :=
  ensures_bind (ensures_true _) fun parts _ => ofParts_isPlain parts

theorem lowerTarget_isPlain (tree : Tree) :
    Ensures (fun target => target.name.IsPlain) (lowerTarget tree) := by
  unfold lowerTarget
  split
  · exact ensures_map (lowerDottedName_isPlain tree) fun _ => id
  · refine ensures_bind (ensures_true _) fun path _ => ?_
    refine ensures_bind (lowerDottedName_isPlain path) fun name plain => ?_
    exact ensures_bind (ensures_true _) fun _ _ => ensures_ok plain
  · exact ensures_error _

theorem lowerTargets_isPlain (tree : Tree) :
    Ensures (fun targets => ∀ target ∈ targets, target.name.IsPlain) (lowerTargets tree) :=
  ensures_mapM fun child _ => lowerTarget_isPlain child

theorem ofTargets_canonical {source : Option Name} {targets : List ImportTarget}
    (plainSource : ∀ name ∈ source, name.IsPlain)
    (plain : ∀ target ∈ targets, target.name.IsPlain) :
    Ensures (fun item => Stmt.Canonical (.importNames item))
      (ofMalformed (Import.ofTargets source targets)) := by
  cases targets with
  | nil => exact ensures_error _
  | cons target more => exact ensures_ok (.importNames ⟨plainSource, plain⟩)

theorem lowerImport_canonical (tree : Tree) : Ensures Stmt.Canonical (lowerImport tree) :=
  ensures_bind (lowerTargets_isPlain tree) fun _ plain =>
    ensures_bind (ofTargets_canonical nofun plain) fun _ canonical => ensures_ok canonical

theorem lowerImportFrom_isPlain (tree : Tree) :
    Ensures (fun names => names.1.IsPlain ∧ ∀ target ∈ names.2, target.name.IsPlain)
      (lowerImportFrom tree) := by
  refine ensures_bind (ensures_true _) fun path _ => ?_
  split
  · split
    · exact ensures_error _
    · refine ensures_bind (lowerDottedName_isPlain path) fun source plain => ?_
      exact ensures_bind (lowerTargets_isPlain tree) fun targets each => ensures_ok ⟨plain, each⟩
  · exact ensures_error _

end Imports

section Simple

variable (kind : Kind) (span : Span) (children : List Tree)

theorem required_canonical (field : String) :
    Ensures (Expr.Canonical false) (required kind span field (exprAt field children)) :=
  ensures_required (exprAt_canonical (fun child _ => reads_canonical child) field)

theorem arguments_canonical (field : String) :
    Ensures (fun es => ∀ e ∈ es, e.Canonical false)
      (required kind span field (argumentsAt children)) :=
  ensures_required (argumentsAt_canonical fun child _ => reads_canonical child)

theorem lowerAssignment_canonical :
    Ensures Stmt.Canonical (lowerAssignment kind span children) := by
  refine ensures_bind (ensures_true _) fun _ _ => ?_
  refine ensures_bind (required_canonical kind span children "left") fun target left => ?_
  exact ensures_bind (required_canonical kind span children "right") fun value right =>
    ensures_ok (.assign left right)

theorem augmentedOperator_isArithmetic (operator : Tree) :
    Ensures (fun op => op.isArithmetic = true) (augmentedOperator operator) := by
  unfold augmentedOperator
  dsimp only
  split
  · split
    · next arithmetic => exact ensures_ok arithmetic
    · exact ensures_error _
  · exact ensures_error _

theorem lowerAugmented_canonical : Ensures Stmt.Canonical (lowerAugmented kind span children) := by
  refine ensures_bind (ensures_true _) fun operator _ => ?_
  refine ensures_bind (augmentedOperator_isArithmetic operator) fun op arithmetic => ?_
  refine ensures_bind (required_canonical kind span children "left") fun target left => ?_
  exact ensures_bind (required_canonical kind span children "right") fun value right =>
    ensures_ok (.augAssign left arithmetic right)

theorem lowerExpressionStatement_canonical :
    Ensures Stmt.Canonical (lowerExpressionStatement children) := by
  unfold lowerExpressionStatement
  split
  · next child _ =>
    split
    · exact lowerAssignment_canonical _ _ _
    · split
      · exact lowerAugmented_canonical _ _ _
      · split
        · exact ensures_map (arguments_canonical _ _ _ _) fun _ => .print
        · exact ensures_map (reads_canonical child).expr fun _ => .expression
  · exact ensures_map (lowerNamed_canonical fun child _ => reads_canonical child)
      fun _ each => .expression (.tuple each)

theorem lowerReturn_canonical : Ensures Stmt.Canonical (lowerReturn children) := by
  unfold lowerReturn
  split
  · next reading found =>
    exact ensures_map
      (firstNamed_canonical (fun child _ => reads_canonical child) reading found)
      fun _ => .returnValue
  · exact ensures_ok (.returnValue .nil)

theorem printItems_canonical :
    Ensures (fun es => ∀ e ∈ es, e.Canonical false) (printItems children) := by
  rw [printItems_eq]
  refine ensures_mapM fun child _ => ?_
  unfold printItem
  split
  · exact (reads_canonical child).expr
  · exact ensures_error _

end Simple

section Headers

theorem lowerParameter_canonical (tree : Tree) :
    Ensures (fun parameter => parameter.argument.info = none ∧ parameter.Canonical)
      (lowerParameter tree) := by
  unfold lowerParameter
  split
  · exact ensures_ok ⟨rfl, trivial⟩
  · refine ensures_bind (ensures_true _) fun name _ => ?_
    split
    · exact ensures_bind (required_canonical _ _ _ "value") fun value canonical =>
        ensures_ok ⟨rfl, canonical⟩
    · exact ensures_error _
  · exact ensures_error _

theorem lowerDecorator_canonical (tree : Tree) :
    Ensures (fun decorator => ∀ e ∈ decorator.2, e.Canonical false) (lowerDecorator tree) := by
  unfold lowerDecorator
  split
  · exact ensures_error _
  · split
    · refine ensures_bind (ensures_true _) fun function _ => ?_
      refine ensures_bind (ensures_true _) fun callee _ => ?_
      exact ensures_bind (arguments_canonical _ _ _ _) fun args each => ensures_ok each
    · exact ensures_map (ensures_true _) fun callee _ => by simp

theorem lowerDecorators_canonical (children : List Tree) :
    Ensures (fun decorators => ∀ entry ∈ decorators.entries, ∀ e ∈ entry.2, e.Canonical false)
      (lowerDecorators children) :=
  ensures_bind (ensures_mapM fun tree _ => lowerDecorator_canonical tree)
    fun _ each => ensures_ok
      (@Table.forall_ofList _ (fun args : List Expr => ∀ e ∈ args, e.Canonical false) _ each)

theorem lowerHeader_canonical (kind : Kind) (span : Span) (children : List Tree) :
    Ensures (fun header => ∀ parameter ∈ header.2,
        parameter.argument.info = none ∧ parameter.Canonical)
      (lowerHeader kind span children) := by
  refine ensures_bind (ensures_true _) fun _ _ => ?_
  refine ensures_bind (ensures_true _) fun _ _ => ?_
  refine ensures_bind (ensures_true _) fun _ _ => ?_
  refine ensures_bind (ensures_true _) fun name _ => ?_
  refine ensures_bind (ensures_true _) fun parameters _ => ?_
  exact ensures_bind (ensures_mapM fun tree _ => lowerParameter_canonical tree)
    fun arguments each => ensures_ok each

end Headers

def CanonicalBody (body : List Stmt) : Prop :=
  ∀ s ∈ body, s.Canonical

def CanonicalAlternative (branch : Option Expr × List Stmt) : Prop :=
  (∀ condition ∈ branch.1, condition.Canonical false) ∧ CanonicalBody branch.2

theorem splitBranches_canonical {branches : List (Option Expr × List Stmt)}
    (each : ∀ branch ∈ branches, CanonicalAlternative branch) :
    (∀ branch ∈ (Stmt.splitBranches branches).1,
        branch.condition.Canonical false ∧ CanonicalBody branch.body) ∧
      ∀ body ∈ (Stmt.splitBranches branches).2, CanonicalBody body := by
  induction branches with
  | nil => exact ⟨nofun, nofun⟩
  | cons branch rest ih =>
      obtain ⟨first, others⟩ := List.forall_mem_cons.1 each
      obtain ⟨condition?, body⟩ := branch
      cases condition? with
      | none => exact ⟨nofun, fun _ same => by cases same; exact first.2⟩
      | some condition =>
          obtain ⟨later, last⟩ := ih others
          exact ⟨List.forall_mem_cons.2 ⟨⟨first.1 condition rfl, first.2⟩, later⟩, last⟩

theorem ofBranches_canonical {branches : List (Option Expr × List Stmt)}
    (each : ∀ branch ∈ branches, CanonicalAlternative branch) :
    Ensures Stmt.Canonical (ofMalformed (Stmt.ofBranches branches)) := by
  -- A branch without a condition in the wrong place is refused before anything is built.
  have built : Ensures Stmt.Canonical (ofMalformed (Stmt.ofBranches.build branches)) := by
    have parts := splitBranches_canonical each
    unfold Stmt.ofBranches.build
    split
    · exact ensures_error _
    · next split =>
      rw [split] at parts
      exact ensures_ok (.always (parts.2 _ rfl))
    · next split =>
      rw [split] at parts
      exact ensures_ok (.conditional (fun b member => (parts.1 b member).1)
        (fun b member => (parts.1 b member).2) parts.2)
  unfold Stmt.ofBranches
  split
  · split
    · exact ensures_error _
    · exact built
  · exact built

section LoopTargets

theorem mapM_symbolOf? {items : List Expr} {symbols : List Symbol}
    (all : items.mapM LoopTarget.symbolOf? = some symbols) : items = symbols.map Expr.symbol := by
  induction items generalizing symbols with
  | nil =>
      cases all
      rfl
  | cons e rest ih =>
      simp only [List.mapM_cons, Option.bind_eq_bind, Option.bind_eq_some_iff] at all
      obtain ⟨s, first, others, later, same⟩ := all
      cases same
      rw [List.map_cons, ← ih later]
      cases e <;> cases first
      rfl

theorem toExpr_of_ofExpr {e : Expr} {target : LoopTarget} (bound : LoopTarget.ofExpr e = .ok target) :
    target.toExpr = e := by
  unfold LoopTarget.ofExpr at bound
  split at bound
  · cases bound
    rfl
  · split at bound
    · next first rest all =>
      cases bound
      rw [mapM_symbolOf? all]
      rfl
    · cases bound
  · cases bound

theorem ofExpr_canonical {e : Expr} (canonical : e.Canonical false) :
    Ensures (fun target => target.toExpr.Canonical false) (ofMalformed (LoopTarget.ofExpr e)) := by
  cases bound : LoopTarget.ofExpr e with
  | error cause => exact ensures_error _
  | ok target =>
      refine ensures_ok ?_
      rwa [toExpr_of_ofExpr bound]

end LoopTargets

structure StatesCanonical (frontEnd : FrontEnd) (tree : Tree) : Prop where
  stmt : Yields Stmt.Canonical (lowerStmt frontEnd tree)
  block : Yields CanonicalBody (lowerBlock frontEnd tree)
  alternative : Yields CanonicalAlternative (lowerAlternative frontEnd tree)
  definition : Yields (FunctionDef.Canonical none) (lowerDefinition frontEnd tree)
  members (owner : String) :
    Yields (fun methods => ∀ method ∈ methods, method.Canonical (some owner))
      (lowerMembers frontEnd owner tree)
  method : Yields (FunctionDef.Canonical none) (lowerMethod frontEnd tree)

section Children

variable {frontEnd : FrontEnd} {children : List Tree}

theorem blockAt_canonical (inner : ∀ child ∈ children, StatesCanonical frontEnd child)
    (field : String) : ∀ action ∈ blockAt frontEnd field children, Yields CanonicalBody action := by
  rw [blockAt_eq]
  exact forall_found fun child member => (inner child member).block

theorem definitionAt_canonical (inner : ∀ child ∈ children, StatesCanonical frontEnd child) :
    ∀ action ∈ definitionAt frontEnd children, Yields (FunctionDef.Canonical none) action := by
  rw [definitionAt_eq]
  exact forall_found fun child member => (inner child member).definition

theorem membersAt_canonical (inner : ∀ child ∈ children, StatesCanonical frontEnd child)
    (owner : String) :
    ∀ action ∈ membersAt frontEnd owner children,
      Yields (fun methods => ∀ method ∈ methods, method.Canonical (some owner)) action := by
  rw [membersAt_eq]
  exact forall_found fun child member => (inner child member).members owner

theorem lowerStmts_canonical (inner : ∀ child ∈ children, StatesCanonical frontEnd child) :
    Yields CanonicalBody (lowerStmts frontEnd children) := by
  rw [lowerStmts_eq]
  exact yields_mapM fun child member => (inner child (List.mem_of_mem_filter member)).stmt

theorem lowerAlternatives_canonical
    (inner : ∀ child ∈ children, StatesCanonical frontEnd child) :
    Yields (fun branches => ∀ branch ∈ branches, CanonicalAlternative branch)
      (lowerAlternatives frontEnd children) := by
  rw [lowerAlternatives_eq]
  exact yields_mapM fun child member => (inner child (List.mem_of_mem_filter member)).alternative

theorem canonical_of_listed {definition : FunctionDef} (canonical : definition.Canonical none)
    (owner : String) : ({ definition with classOwner := some owner }).Canonical (some owner) :=
  ⟨{ canonical.plain with owned := rfl }, ⟨canonical.header.1, canonical.header.2⟩, canonical.body⟩

theorem lowerMemberList_canonical (inner : ∀ child ∈ children, StatesCanonical frontEnd child)
    (owner : String) :
    Yields (fun methods => ∀ method ∈ methods, method.Canonical (some owner))
      (lowerMemberList frontEnd owner children) := by
  rw [lowerMemberList_eq]
  refine yields_mapM fun child member => ?_
  unfold lowerMember
  split
  · exact yields_refuse _
  -- A method is read like any definition, and the list puts it into the class.
  · refine yields_bind (inner child (List.mem_of_mem_filter member)).method fun method first => ?_
    exact yields_pure (canonical_of_listed first owner)

theorem functionFrom_canonical (inner : ∀ child ∈ children, StatesCanonical frontEnd child)
    (kind : Kind) (span : Span) :
    Yields (FunctionDef.Canonical none)
      (functionFrom kind span children (blockAt frontEnd "body" children)) := by
  refine yields_bind (yields_lift (lowerHeader_canonical kind span children)) fun header first => ?_
  refine yields_bind (yields_required (blockAt_canonical inner "body")) fun body second => ?_
  have plain : (FunctionDef.plain header.1 header.2 body).IsPlain none :=
    ⟨rfl, rfl, rfl, rfl, rfl, rfl, rfl, fun parameter member => (first parameter member).1⟩
  exact yields_pure ⟨plain, ⟨fun parameter member => (first parameter member).2, nofun⟩, second⟩

theorem decoratedFrom_canonical (inner : ∀ child ∈ children, StatesCanonical frontEnd child)
    (kind : Kind) (span : Span) :
    Yields (FunctionDef.Canonical none)
      (decoratedFrom kind span children (definitionAt frontEnd children)) := by
  refine yields_bind (yields_lift (lowerDecorators_canonical children)) fun decorators first => ?_
  refine yields_bind (yields_required (definitionAt_canonical inner)) fun definition second => ?_
  exact yields_pure ⟨{ second.plain with }, ⟨second.header.1, first⟩, second.body⟩

theorem lowerStmt_canonical {tree : Tree}
    (inner : ∀ child ∈ tree.children, StatesCanonical frontEnd child) :
    Yields Stmt.Canonical (lowerStmt frontEnd tree) := by
  obtain ⟨kind, span, text, field, children⟩ := tree
  unfold lowerStmt
  split
  · exact yields_pure .emptyLine
  · exact yields_lift (lowerComment_canonical frontEnd _)
  · exact yields_lift (lowerExpressionStatement_canonical children)
  · exact yields_lift (lowerReturn_canonical children)
  · exact yields_pure .pass
  · exact yields_lift (ensures_map (printItems_canonical children) fun _ => .print)
  · exact yields_lift (lowerImport_canonical _)
  · -- imports of names
    refine yields_bind (yields_lift (lowerImportFrom_isPlain _)) fun names plain => ?_
    refine yields_bind (yields_record _) fun _ _ => ?_
    have source : ∀ name ∈ some names.1, name.IsPlain := by simpa using plain.1
    exact yields_bind (yields_lift (ofTargets_canonical source plain.2)) fun item canonical =>
      yields_pure canonical
  · -- conditionals
    refine yields_bind (yields_lift (required_canonical _ _ _ _)) fun condition first => ?_
    refine yields_bind (yields_required (blockAt_canonical inner "consequence")) fun body second => ?_
    refine yields_bind (lowerAlternatives_canonical inner) fun others rest => ?_
    exact yields_lift (ofBranches_canonical
      (List.forall_mem_cons.2 ⟨⟨by simpa using first, second⟩, rest⟩))
  · -- loops over a range
    refine yields_bind (yields_lift (ensures_true _)) fun _ _ => ?_
    refine yields_bind (yields_lift (ensures_true _)) fun _ _ => ?_
    refine yields_bind (yields_lift (required_canonical _ _ _ _)) fun target left => ?_
    refine yields_bind (yields_lift (required_canonical _ _ _ _)) fun iterable right => ?_
    refine yields_bind (yields_required (blockAt_canonical inner "body")) fun body each => ?_
    exact yields_bind (yields_lift (ofExpr_canonical left)) fun loopTarget bound =>
      yields_pure (.forLoop bound right each)
  · -- loops with a condition
    refine yields_bind (yields_lift (ensures_true _)) fun _ _ => ?_
    refine yields_bind (yields_lift (required_canonical _ _ _ _)) fun condition holds => ?_
    exact yields_bind (yields_required (blockAt_canonical inner "body")) fun body each =>
      yields_pure (.whileLoop holds each)
  · exact yields_bind (functionFrom_canonical inner _ span) fun _ canonical =>
      yields_pure (.functionDef canonical.plain canonical.header canonical.body)
  · exact yields_bind (decoratedFrom_canonical inner _ span) fun _ canonical =>
      yields_pure (.functionDef canonical.plain canonical.header canonical.body)
  · -- classes
    refine yields_bind (yields_lift (ensures_true _)) fun _ _ => ?_
    refine yields_bind (yields_lift (ensures_true _)) fun name _ => ?_
    refine yields_bind (yields_required (membersAt_canonical inner name.text)) fun methods all => ?_
    refine yields_pure (.classDef ?_ (fun m member => (all m member).plain)
      (fun m member => (all m member).header) fun m member => (all m member).body)
    cases methods <;> rfl
  · exact yields_refuse _

end Children

theorem states_canonical (frontEnd : FrontEnd) (tree : Tree) : StatesCanonical frontEnd tree := by
  induction tree using Tree.induction with
  | step tree inner =>
      refine ⟨lowerStmt_canonical inner, ?_, ?_, ?_, fun owner => ?_, ?_⟩
      all_goals obtain ⟨kind, span, text, field, children⟩ := tree
      · unfold lowerBlock
        split
        · exact lowerStmts_canonical inner
        · exact yields_refuse _
      · unfold lowerAlternative
        split
        · refine yields_bind (yields_lift (required_canonical _ _ _ _)) fun condition first => ?_
          exact yields_bind (yields_required (blockAt_canonical inner "consequence"))
            fun body second => yields_pure ⟨by simpa using first, second⟩
        · exact yields_bind (yields_required (blockAt_canonical inner "body"))
            fun body second => yields_pure ⟨nofun, second⟩
        · exact yields_refuse _
      · unfold lowerDefinition
        split
        · exact functionFrom_canonical inner _ span
        · exact yields_refuse _
      · exact lowerMemberList_canonical inner owner
      · unfold lowerMethod
        split
        · exact functionFrom_canonical inner _ span
        · exact decoratedFrom_canonical inner _ span
        · exact yields_refuse _

theorem lowerRoot_canonical (frontEnd : FrontEnd) (tree : Tree) :
    Yields CanonicalBody (lowerRoot frontEnd tree) := by
  unfold lowerRoot
  split
  · exact lowerStmts_canonical fun child _ => states_canonical frontEnd child
  · exact yields_refuse _

end Lowering

theorem lowered_body_canonical {frontEnd : FrontEnd} {tree : Tree} {lowered : LoweredModule}
    (lowers : LoweredModule.ofTree frontEnd tree = .ok lowered) :
    ∀ s ∈ lowered.body, s.Canonical := by
  unfold LoweredModule.ofTree at lowers
  split at lowers
  · next body imports run =>
    cases lowers
    exact Lowering.lowerRoot_canonical frontEnd tree .empty body (congrArg Prod.fst run)
  · cases lowers

end NumericPython

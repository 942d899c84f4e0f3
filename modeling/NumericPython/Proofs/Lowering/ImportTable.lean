import NumericPython.Directive
import NumericPython.Proofs.Ast.Table
import NumericPython.Proofs.Lowering.Records
import NumericPython.Proofs.Lowering.Yields
import NumericPython.Proofs.Tree.Induction

set_option autoImplicit false

namespace NumericPython

/-- The local names that an import binds to intrinsics. An import without a source binds none. -/
def Import.intrinsics (item : Import) : List (String × IntrinsicFunction) :=
  match item.source with
  | none => []
  | some path => item.targets.filterMap fun target =>
      (Resolve.import? (some path) target.name).map fun resolved => (target.binding, resolved.2)

namespace Stmt

mutual

/-- The imports of a statement and of what is nested in it, in the order of the source. -/
def imports : Stmt → List Import
  | .importNames item => [item]
  | .conditional first rest otherwise =>
    branchImports first ++ branchesImports rest ++ otherwiseImports otherwise
  | .always body => bodyImports body
  | .forLoop _ _ body => bodyImports body
  | .whileLoop _ body => bodyImports body
  | .functionDef definition => definitionImports definition
  | .classDef _ _ methods => methodsImports methods
  | .assign .. | .augAssign .. | .returnValue _ | .print _ | .comment _ | .pragma .. | .emptyLine
  | .pass | .expression _ => []

def bodyImports : List Stmt → List Import
  | [] => []
  | s :: rest => imports s ++ bodyImports rest

def branchImports : Branch → List Import
  | ⟨_, body⟩ => bodyImports body

def branchesImports : List Branch → List Import
  | [] => []
  | branch :: rest => branchImports branch ++ branchesImports rest

def otherwiseImports : Option (List Stmt) → List Import
  | none => []
  | some body => bodyImports body

def definitionImports : FunctionDef → List Import
  | ⟨_, _, _, body, _, _, _, _, _, _, _⟩ => bodyImports body

def methodsImports : List FunctionDef → List Import
  | [] => []
  | method :: rest => definitionImports method ++ methodsImports rest

end

end Stmt

namespace Lowering

open Stmt

def bindingsOf (imports : List Import) : Bindings :=
  imports.flatMap Import.intrinsics

theorem bindingsOf_append (xs ys : List Import) :
    bindingsOf (xs ++ ys) = bindingsOf xs ++ bindingsOf ys :=
  List.flatMap_append

def alternativeImports (branches : List (Option Expr × List Stmt)) : List Import :=
  branches.flatMap fun branch => bodyImports branch.2

/-- The action enters the bindings of the imports of its result. -/
def Tells {α : Type} (imports : α → List Import) (action : LowerM α) : Prop :=
  ∀ before, Records before (fun result => before ++ bindingsOf (imports result)) action

theorem tells_lift {α : Type} {imports : α → List Import} {reading : Lowered α}
    (none_new : Ensures (fun result => imports result = []) reading) :
    Tells imports (lift reading) := by
  intro before
  apply records_lift
  intro result same
  rw [none_new result same]
  exact List.append_nil before

theorem tells_pure {α : Type} {imports : α → List Import} {result : α}
    (none_new : imports result = []) : Tells imports (pure result) :=
  tells_lift (ensures_ok none_new)

theorem tells_refuse {α : Type} {imports : α → List Import} (cause : LowerError) :
    Tells imports (refuse cause) :=
  fun _ => records_refuse cause

theorem tells_mapM {α β : Type} {imports : β → List Import} {listed : List β → List Import}
    (nil : listed [] = []) (cons : ∀ y ys, listed (y :: ys) = imports y ++ listed ys)
    {f : α → LowerM β} {xs : List α} (each : ∀ x ∈ xs, Tells imports (f x)) :
    Tells listed (xs.mapM f) := by
  induction xs with
  | nil => exact tells_pure nil
  | cons x rest ih =>
      rw [List.forall_mem_cons] at each
      rw [List.mapM_cons]
      intro before
      refine records_bind (each.1 before) fun y => ?_
      refine records_bind (ih each.2 _) fun ys => records_pure ?_
      rw [cons, bindingsOf_append, List.append_assoc]

section Simple

def NoImports (s : Stmt) : Prop :=
  s.imports = []

theorem lowerComment_noImports (frontEnd : FrontEnd) (comment : Tree) :
    Ensures NoImports (lowerComment frontEnd comment) := by
  unfold lowerComment
  split
  · unfold lowerPragma
    split
    · exact ensures_error _
    · split
      · exact ensures_error _
      · split
        · exact ensures_error _
        · exact ensures_ok rfl
  · exact ensures_ok rfl

theorem lowerExpressionStatement_noImports (children : List Tree) :
    Ensures NoImports (lowerExpressionStatement children) := by
  unfold lowerExpressionStatement
  split
  · split
    · refine ensures_bind (ensures_true _) fun _ _ => ?_
      refine ensures_bind (ensures_true _) fun _ _ => ?_
      exact ensures_bind (ensures_true _) fun _ _ => ensures_ok rfl
    · split
      · refine ensures_bind (ensures_true _) fun _ _ => ?_
        refine ensures_bind (ensures_true _) fun _ _ => ?_
        refine ensures_bind (ensures_true _) fun _ _ => ?_
        exact ensures_bind (ensures_true _) fun _ _ => ensures_ok rfl
      · split <;> exact ensures_map (ensures_true _) fun _ _ => rfl
  · exact ensures_map (ensures_true _) fun _ _ => rfl

theorem lowerReturn_noImports (children : List Tree) :
    Ensures NoImports (lowerReturn children) := by
  unfold lowerReturn
  split
  · exact ensures_map (ensures_true _) fun _ _ => rfl
  · exact ensures_ok rfl

end Simple

theorem ofTargets_intrinsics {source : Option Name} {targets : List ImportTarget} {item : Import}
    (built : Import.ofTargets source targets = .ok item) :
    item.source = source ∧ item.targets = targets := by
  cases targets with
  | nil => cases built
  | cons target more =>
      cases built
      exact ⟨rfl, rfl⟩

theorem lowerImport_tells (tree : Tree) : Tells Stmt.imports (lift (lowerImport tree)) := by
  -- An import without a source is listed, but has no bindings.
  intro before
  apply records_lift
  intro s same
  have unbound : Ensures (fun s => bindingsOf s.imports = []) (lowerImport tree) := by
    refine ensures_bind (ensures_true _) fun targets _ => ?_
    rcases built : Import.ofTargets none targets with cause | item
    · exact ensures_error _
    · refine ensures_ok ?_
      simp [Stmt.imports, bindingsOf, Import.intrinsics, (ofTargets_intrinsics built).1]
  rw [unbound s same, List.append_nil]

theorem importFrom_tells (source : Name) (targets : List ImportTarget) :
    Tells Stmt.imports (do
      record (intrinsicBindings (some source) targets)
      let item ← lift (ofMalformed (Import.ofTargets (some source) targets))
      pure (.importNames item)) := by
  intro before
  apply records_bind (records_record before _)
  intro _
  rcases built : Import.ofTargets (some source) targets with cause | item
  · exact records_bind (records_refuse (.malformed cause)) fun _ => records_pure rfl
  · obtain ⟨path, names⟩ := ofTargets_intrinsics built
    have told : bindingsOf (Stmt.imports (.importNames item)) =
        intrinsicBindings (some source) targets := by
      simp [Stmt.imports, bindingsOf, Import.intrinsics, path, names, intrinsicBindings]
    have result : ∀ other, ofMalformed (.ok item) = .ok other →
        before ++ bindingsOf (Stmt.imports (.importNames other)) =
          before ++ intrinsicBindings (some source) targets := by
      intro other same
      cases same
      rw [told]
    exact records_bind (records_lift result) fun other => records_pure rfl

theorem splitBranches_imports {branches : List (Option Expr × List Stmt)}
    (last : ∀ position, branches.findIdx? (·.1.isNone) = some position →
      branches.length ≤ position + 1) :
    branchesImports (splitBranches branches).1 ++ otherwiseImports (splitBranches branches).2 =
      alternativeImports branches := by
  -- No branch stands behind an `else`, so that none gets lost.
  induction branches with
  | nil => rfl
  | cons branch rest ih =>
      obtain ⟨condition?, body⟩ := branch
      cases condition? with
      | none =>
          have alone : rest = [] := by
            have short := last 0 (by simp [List.findIdx?_cons])
            simpa using short
          simp [splitBranches, branchesImports, otherwiseImports, alternativeImports, alone]
      | some condition =>
          have others := ih fun position found => by
            have short := last (position + 1) (by simp [List.findIdx?_cons, found])
            simpa using short
          simp only [splitBranches, branchesImports, branchImports, alternativeImports,
            List.flatMap_cons, List.append_assoc, others]

theorem ofBranches_imports (branches : List (Option Expr × List Stmt)) :
    Ensures (fun s => s.imports = alternativeImports branches)
      (ofMalformed (Stmt.ofBranches branches)) := by
  have built (last : ∀ position, branches.findIdx? (·.1.isNone) = some position →
      branches.length ≤ position + 1) :
      Ensures (fun s => s.imports = alternativeImports branches)
        (ofMalformed (Stmt.ofBranches.build branches)) := by
    have parts := splitBranches_imports last
    unfold Stmt.ofBranches.build
    split
    · exact ensures_error _
    · next split =>
      rw [split] at parts
      exact ensures_ok parts
    · next split =>
      rw [split] at parts
      exact ensures_ok parts
  unfold Stmt.ofBranches
  split
  next position found =>
    split
    · exact ensures_error _
    · next short =>
      apply built
      intro other same
      rw [found] at same
      cases same
      omega
  next none =>
    apply built
    intro position found
    rw [none] at found
    cases found

structure StatesTell (frontEnd : FrontEnd) (tree : Tree) : Prop where
  stmt : Tells Stmt.imports (lowerStmt frontEnd tree)
  block : Tells bodyImports (lowerBlock frontEnd tree)
  alternative : Tells (fun branch => bodyImports branch.2) (lowerAlternative frontEnd tree)
  definition : Tells definitionImports (lowerDefinition frontEnd tree)
  members (owner : String) : Tells methodsImports (lowerMembers frontEnd owner tree)
  method : Tells definitionImports (lowerMethod frontEnd tree)

section Children

variable {frontEnd : FrontEnd} {children : List Tree}

theorem blockAt_tells (inner : ∀ child ∈ children, StatesTell frontEnd child) (field : String) :
    ∀ action ∈ blockAt frontEnd field children, Tells bodyImports action := by
  rw [blockAt_eq]
  exact forall_found fun child member => (inner child member).block

theorem body_tells {kind : Kind} {span : Span}
    (inner : ∀ child ∈ children, StatesTell frontEnd child) (field : String) :
    Tells bodyImports (requiredM kind span field (blockAt frontEnd field children)) :=
  fun before => records_required fun action found => blockAt_tells inner field action found before

theorem definitionAt_tells (inner : ∀ child ∈ children, StatesTell frontEnd child) :
    ∀ action ∈ definitionAt frontEnd children, Tells definitionImports action := by
  rw [definitionAt_eq]
  exact forall_found fun child member => (inner child member).definition

theorem membersAt_tells (inner : ∀ child ∈ children, StatesTell frontEnd child)
    (owner : String) :
    ∀ action ∈ membersAt frontEnd owner children, Tells methodsImports action := by
  rw [membersAt_eq]
  exact forall_found fun child member => (inner child member).members owner

theorem lowerStmts_tells (inner : ∀ child ∈ children, StatesTell frontEnd child) :
    Tells bodyImports (lowerStmts frontEnd children) := by
  rw [lowerStmts_eq]
  refine tells_mapM rfl (fun _ _ => rfl) fun child member => ?_
  exact (inner child (List.mem_of_mem_filter member)).stmt

theorem lowerAlternatives_tells (inner : ∀ child ∈ children, StatesTell frontEnd child) :
    Tells alternativeImports (lowerAlternatives frontEnd children) := by
  rw [lowerAlternatives_eq]
  refine tells_mapM rfl (fun _ _ => rfl) fun child member => ?_
  exact (inner child (List.mem_of_mem_filter member)).alternative

theorem definitionImports_eq (definition : FunctionDef) :
    definitionImports definition = bodyImports definition.body := by
  cases definition
  rw [definitionImports]

theorem lowerMemberList_tells (inner : ∀ child ∈ children, StatesTell frontEnd child)
    (owner : String) : Tells methodsImports (lowerMemberList frontEnd owner children) := by
  rw [lowerMemberList_eq]
  refine tells_mapM rfl (fun _ _ => rfl) fun child member => ?_
  unfold lowerMember
  split
  · exact tells_refuse _
  · intro before
    have tells := (inner child (List.mem_of_mem_filter member)).method before
    refine records_bind tells fun method => records_pure ?_
    rw [definitionImports_eq, definitionImports_eq method]

theorem functionFrom_tells (inner : ∀ child ∈ children, StatesTell frontEnd child)
    (kind : Kind) (span : Span) :
    Tells definitionImports
      (functionFrom kind span children (blockAt frontEnd "body" children)) := by
  intro before
  refine records_after fun header => ?_
  refine records_bind (body_tells inner "body" before) fun body => records_pure ?_
  rw [definitionImports_eq]
  rfl

theorem decoratedFrom_tells (inner : ∀ child ∈ children, StatesTell frontEnd child)
    (kind : Kind) (span : Span) :
    Tells definitionImports
      (decoratedFrom kind span children (definitionAt frontEnd children)) := by
  intro before
  refine records_after fun decorators => ?_
  refine records_bind (records_required fun action found =>
    definitionAt_tells inner action found before) fun definition => records_pure ?_
  rw [definitionImports_eq, definitionImports_eq definition]

theorem lowerStmt_tells {tree : Tree}
    (inner : ∀ child ∈ tree.children, StatesTell frontEnd child) :
    Tells Stmt.imports (lowerStmt frontEnd tree) := by
  obtain ⟨kind, span, text, field, children⟩ := tree
  unfold lowerStmt
  split
  · exact tells_pure rfl
  · exact tells_lift (lowerComment_noImports frontEnd _)
  · exact tells_lift (lowerExpressionStatement_noImports children)
  · exact tells_lift (lowerReturn_noImports children)
  · exact tells_pure rfl
  · exact tells_lift (ensures_map (ensures_true _) fun _ _ => rfl)
  · exact lowerImport_tells _
  · exact fun before => records_after fun names => importFrom_tells names.1 names.2 before
  · -- conditionals: the table grows by the first branch and then by the others
    intro before
    refine records_after fun condition => ?_
    refine records_bind (body_tells inner "consequence" before) fun body => ?_
    refine records_bind (lowerAlternatives_tells inner _) fun others => records_lift ?_
    intro s same
    rw [ofBranches_imports _ s same, alternativeImports, List.flatMap_cons, bindingsOf_append,
      List.append_assoc]
    rfl
  · -- loops over a range
    intro before
    refine records_after fun _ => records_after fun _ => ?_
    refine records_after fun target => records_after fun iterable => ?_
    refine records_bind (body_tells inner "body" before) fun body => ?_
    exact records_after fun loopTarget => records_pure rfl
  · -- loops with a condition
    intro before
    refine records_after fun _ => records_after fun condition => ?_
    exact records_bind (body_tells inner "body" before) fun body => records_pure rfl
  · intro before
    exact records_bind (functionFrom_tells inner _ span before) fun definition => records_pure rfl
  · intro before
    exact records_bind (decoratedFrom_tells inner _ span before) fun definition => records_pure rfl
  · -- classes
    intro before
    refine records_after fun _ => records_after fun name => ?_
    exact records_bind (records_required fun action found =>
      membersAt_tells inner name.text action found before) fun methods => records_pure rfl
  · exact tells_refuse _

end Children

theorem states_tell (frontEnd : FrontEnd) (tree : Tree) : StatesTell frontEnd tree := by
  induction tree using Tree.induction with
  | step tree inner =>
      refine ⟨lowerStmt_tells inner, ?_, ?_, ?_, fun owner => ?_, ?_⟩
      all_goals obtain ⟨kind, span, text, field, children⟩ := tree
      · unfold lowerBlock
        split
        · exact lowerStmts_tells inner
        · exact tells_refuse _
      · unfold lowerAlternative
        split
        · intro before
          refine records_after fun condition => ?_
          exact records_bind (body_tells inner "consequence" before) fun body => records_pure rfl
        · intro before
          exact records_bind (body_tells inner "body" before) fun body => records_pure rfl
        · exact tells_refuse _
      · unfold lowerDefinition
        split
        · exact functionFrom_tells inner _ span
        · exact tells_refuse _
      · exact lowerMemberList_tells inner owner
      · unfold lowerMethod
        split
        · exact functionFrom_tells inner _ span
        · exact decoratedFrom_tells inner _ span
        · exact tells_refuse _

theorem lowerRoot_tells (frontEnd : FrontEnd) (tree : Tree) :
    Tells bodyImports (lowerRoot frontEnd tree) := by
  unfold lowerRoot
  split
  · exact lowerStmts_tells fun child _ => states_tell frontEnd child
  · exact tells_refuse _

end Lowering

theorem intrinsicImports_eq {frontEnd : FrontEnd} {tree : Tree} {lowered : LoweredModule}
    (lowers : LoweredModule.ofTree frontEnd tree = .ok lowered) :
    lowered.intrinsicImports =
      .ofList ((Stmt.bodyImports lowered.body).flatMap Import.intrinsics) := by
  obtain ⟨outcome, entered, enters, told⟩ := Lowering.lowerRoot_tells frontEnd tree []
  have run : (Lowering.lowerRoot frontEnd tree).run .empty = (outcome, .ofList entered) :=
    enters .empty
  rw [LoweredModule.ofTree, run] at lowers
  cases outcome with
  | error cause => cases lowers
  | ok body =>
      cases lowers
      have bindings : Lowering.bindingsOf (Stmt.bodyImports body) = entered := told body rfl
      rw [← bindings]
      rfl

/-- The import table follows from the statements: its names are those that the imports among them
bind to intrinsics, in the order in which they are first bound, and each name stands for what it is
bound to last. -/
theorem import_table_agrees (frontEnd : FrontEnd) (tree : Tree) (lowered : LoweredModule)
    (lowers : LoweredModule.ofTree frontEnd tree = .ok lowered) :
    let bindings := (Stmt.bodyImports lowered.body).flatMap Import.intrinsics
    lowered.intrinsicImports.keys = (bindings.map Prod.fst).eraseDups ∧
      ∀ name, lowered.intrinsicImports.get? name = bindings.reverse.lookup name := by
  rw [intrinsicImports_eq lowers]
  exact ⟨Table.keys_ofList _, Table.get?_ofList _⟩

def reboundImports : Tree :=
  let node (kind : Kind) (field : Option String) (children : List Tree) : Tree :=
    ⟨kind, .ofRange 0 0, "", field, children⟩
  let word (text : String) (field : Option String) : Tree :=
    .leaf .identifier (.ofRange 0 0) text field
  let path (field : String) (parts : List String) : Tree :=
    node .dottedName (some field) (parts.map (word · none))
  let renamed (name other : String) : Tree :=
    node .aliasedImport (some "name") [path "name" [name], word other (some "alias")]
  node .root none
    [node .importFromStatement none
      [path "module_name" ["numpy"], renamed "zeros" "a", path "name" ["sum"]],
     node .ifStatement none
      [word "x" (some "condition"),
       node .block (some "consequence")
        [node .importFromStatement none [path "module_name" ["math"], renamed "cos" "a"]]],
     node .classDefinition none
      [word "C" (some "name"),
       node .block (some "body")
        [node .functionDefinition none
          [word "f" (some "name"), node .parameters (some "parameters") [],
           node .block (some "body")
            [node .importFromStatement none
              [path "module_name" ["numpy", "linalg"], renamed "ones" "sum",
               renamed "rand" "b"]]]]]]

theorem rebound_imports_agree :
    ∃ lowered, LoweredModule.ofTree Directive.frontEnd reboundImports = .ok lowered ∧
      lowered.intrinsicImports.entries =
        [("a", .math .cos), ("sum", .ones), ("b", .rand)] ∧
      (let bindings := (Stmt.bodyImports lowered.body).flatMap Import.intrinsics
      lowered.intrinsicImports.keys = (bindings.map Prod.fst).eraseDups ∧
        ∀ name, lowered.intrinsicImports.get? name = bindings.reverse.lookup name) :=
  ⟨_, rfl, rfl, import_table_agrees Directive.frontEnd reboundImports _ rfl⟩

end NumericPython

import NumericPython.Proofs.Lowering.Overlooked

set_option autoImplicit false

namespace NumericPython.Lowering

open NumericPython.Tree

def namedConstructs : List String :=
  ["annotated assignment", "for-else", "while-else", "function return type",
   "function type parameters", "class bases", "pragma in class body", "named unicode escape"]

def kindQualifiers : List String :=
  ["attribute of ", "call of ", "async ", "decorated "]

/-- The errors that are about a node. -/
inductive Reports (node : Tree) : LowerError → Prop
  | noRule : Reports node (.ofTree node)
  | lacks (field : String) : Reports node (.missingField node.kind node.span field)
  | operator : Reports node (.unknownOperator node.text node.span)
  | literal : Reports node (.invalidLiteral node.text node.span)
  | construct {name : String} (listed : name ∈ namedConstructs) :
      Reports node (.unsupported name node.span)
  | qualified {word : String} (listed : word ∈ kindQualifiers) :
      Reports node (.unsupported (word ++ node.kind.name) node.span)
  | stringPrefix (letters : String) :
      Reports node (.unsupported ("string prefix `" ++ letters ++ "`") node.span)

/-- The errors that lowering a tree may end in. -/
inductive Refusal (frontEnd : FrontEnd) (tree : Tree) : LowerError → Prop
  | malformed (cause : Malformed) : Refusal frontEnd tree (.malformed cause)
  | node {node : Tree} {cause : LowerError} (within : tree.Within node)
      (reports : Reports node cause) : Refusal frontEnd tree cause
  | pragma {comment : Tree} {cause : LowerError} (within : tree.Within comment)
      (isPragma : comment.isPragma = true)
      (refused : lowerPragma frontEnd comment.text comment.span = .error cause) :
      Refusal frontEnd tree cause

theorem Reports.span?_eq {node : Tree} {cause : LowerError} (reports : Reports node cause) :
    cause.span? = some node.span := by
  cases reports <;> rfl

section Laws

variable {α β : Type} {post : LowerError → Prop} {cause : LowerError}

def Refuses (post : LowerError → Prop) (reading : Lowered α) : Prop :=
  ∀ cause, reading = .error cause → post cause

def Stops (post : LowerError → Prop) (action : LowerM α) : Prop :=
  ∀ table, Refuses post (action.run.run table).1

theorem refuses_ok (result : α) : Refuses post (.ok result) := by
  intro cause same
  cases same

theorem refuses_error (holds : post cause) : Refuses post (.error cause : Lowered α) := by
  intro other same
  cases same
  exact holds

theorem refuses_bind {reading : Lowered α} {next : α → Lowered β} (first : Refuses post reading)
    (second : ∀ result, reading = .ok result → Refuses post (next result)) :
    Refuses post (reading >>= next) := by
  cases reading with
  | error cause => exact refuses_error (first cause rfl)
  | ok result => exact second result rfl

theorem refuses_map {reading : Lowered α} {f : α → β} (holds : Refuses post reading) :
    Refuses post (reading.map f) := by
  cases reading with
  | error cause => exact refuses_error (holds cause rfl)
  | ok result => exact refuses_ok (f result)

theorem refuses_mapM {f : α → Lowered β} {xs : List α} (each : ∀ x ∈ xs, Refuses post (f x)) :
    Refuses post (xs.mapM f) := by
  induction xs with
  | nil => exact refuses_ok []
  | cons x rest ih =>
      rw [List.forall_mem_cons] at each
      rw [List.mapM_cons]
      apply refuses_bind each.1
      intro y _
      apply refuses_bind (ih each.2)
      intro ys _
      exact refuses_ok (y :: ys)

theorem refuses_required {kind : Kind} {span : Span} {field : String}
    {reading? : Option (Lowered α)} (lacks : post (.missingField kind span field))
    (holds : ∀ reading ∈ reading?, Refuses post reading) :
    Refuses post (required kind span field reading?) := by
  cases reading? with
  | none => exact refuses_error lacks
  | some reading => exact holds reading rfl

theorem refuses_ofMalformed (malformed : ∀ cause, post (.malformed cause))
    (result : Except Malformed α) : Refuses post (ofMalformed result) := by
  cases result with
  | error cause => exact refuses_error (malformed cause)
  | ok value => exact refuses_ok value

theorem stops_pure (result : α) : Stops post (pure result) :=
  fun _ => refuses_ok result

theorem stops_lift {reading : Lowered α} (holds : Refuses post reading) : Stops post (lift reading) :=
  fun _ => holds

theorem stops_refuse (holds : post cause) : Stops post (refuse cause : LowerM α) :=
  stops_lift (refuses_error holds)

theorem stops_bind {action : LowerM α} {next : α → LowerM β} (first : Stops post action)
    (second : ∀ result, Stops post (next result)) : Stops post (action >>= next) := by
  intro table
  rw [run_bind]
  have here := first table
  rcases outcome : action.run.run table with ⟨cause | result, after⟩
  · rw [outcome] at here
    exact refuses_error (here cause rfl)
  · exact second result after

theorem stops_mapM {f : α → LowerM β} {xs : List α} (each : ∀ x ∈ xs, Stops post (f x)) :
    Stops post (xs.mapM f) := by
  induction xs with
  | nil => exact stops_pure []
  | cons x rest ih =>
      rw [List.forall_mem_cons] at each
      rw [List.mapM_cons]
      apply stops_bind each.1
      intro y
      apply stops_bind (ih each.2)
      intro ys
      exact stops_pure (y :: ys)

theorem stops_record (bindings : List (String × IntrinsicFunction)) :
    Stops post (record bindings) :=
  fun _ => refuses_ok ()

theorem stops_required {kind : Kind} {span : Span} {field : String} {action? : Option (LowerM α)}
    (lacks : post (.missingField kind span field)) (holds : ∀ action ∈ action?, Stops post action) :
    Stops post (requiredM kind span field action?) := by
  cases action? with
  | none => exact stops_refuse lacks
  | some action => exact holds action rfl

end Laws

structure Grants (frontEnd : FrontEnd) (post : LowerError → Prop) (tree : Tree) : Prop where
  malformed : ∀ cause, post (.malformed cause)
  node : ∀ node, tree.Within node → ∀ cause, Reports node cause → post cause
  pragma : ∀ comment, tree.Within comment → comment.isPragma = true →
    Refuses post (lowerPragma frontEnd comment.text comment.span)

section Readings

variable {frontEnd : FrontEnd} {post : LowerError → Prop} {tree : Tree} {children : List Tree}

theorem Grants.child {child : Tree} (grants : Grants frontEnd post tree)
    (member : child ∈ tree.children) : Grants frontEnd post child where
  malformed := grants.malformed
  node node within := grants.node node (.under member within)
  pragma comment within := grants.pragma comment (.under member within)

theorem Grants.reports {cause : LowerError} (grants : Grants frontEnd post tree)
    (reports : Reports tree cause) : post cause :=
  grants.node tree (.self tree) cause reports

theorem mem_of_childAt {kind : Kind} {span : Span} {field : String} {child : Tree}
    (found : childAt kind span field children = .ok child) : child ∈ children := by
  unfold childAt at found
  cases first : children.find? (·.fills field) with
  | none =>
      rw [first] at found
      cases found
  | some other =>
      rw [first] at found
      cases found
      exact List.mem_of_find?_eq_some first

theorem refuses_childAt (grants : Grants frontEnd post tree) (field : String) :
    Refuses post (childAt tree.kind tree.span field tree.children) := by
  apply refuses_required (grants.reports (.lacks field))
  intro reading found
  obtain ⟨child, -, rfl⟩ := Option.map_eq_some_iff.1 found
  exact refuses_ok child

-- The reading of the child in a field.
theorem refuses_field {α : Type} {reading : Tree → Lowered α} (grants : Grants frontEnd post tree)
    (field : String) (reads : ∀ child ∈ tree.children, Refuses post (reading child)) :
    Refuses post (required tree.kind tree.span field
      ((tree.children.find? (·.fills field)).map reading)) := by
  exact refuses_required (grants.reports (.lacks field)) (forall_found reads)

theorem stops_field {α : Type} {action : Tree → LowerM α} (grants : Grants frontEnd post tree)
    (field : String) (acts : ∀ child ∈ tree.children, Stops post (action child)) :
    Stops post (requiredM tree.kind tree.span field
      ((tree.children.find? (·.fills field)).map action)) := by
  exact stops_required (grants.reports (.lacks field)) (forall_found acts)

theorem lowerInteger_refuses (grants : Grants frontEnd post tree) (negate : Bool) :
    Refuses post (lowerInteger negate tree.text tree.span) := by
  unfold lowerInteger
  split
  · exact refuses_ok _
  · exact refuses_error (grants.reports .literal)

theorem lowerFloat_refuses (grants : Grants frontEnd post tree) (negate : Bool) :
    Refuses post (lowerFloat negate tree.text tree.span) := by
  unfold lowerFloat
  split
  · exact refuses_ok _
  · exact refuses_error (grants.reports .literal)

theorem lowerString_refuses (grants : Grants frontEnd post tree) :
    Refuses post (lowerString tree.text tree.span) := by
  unfold lowerString
  split
  · exact refuses_ok _
  · exact refuses_error (grants.reports .literal)
  · exact refuses_error (grants.reports (.stringPrefix _))
  · exact refuses_error (grants.reports (.construct (by simp [namedConstructs])))

theorem lowerOperator_refuses (grants : Grants frontEnd post tree)
    (accepts : BinaryOperator → Bool) : Refuses post (lowerOperator accepts tree) := by
  unfold lowerOperator
  split
  · split
    · exact refuses_ok _
    · exact refuses_error (grants.reports .operator)
  · exact refuses_error (grants.reports .operator)

structure ReadsGranted (post : LowerError → Prop) (tree : Tree) : Prop where
  expr : Refuses post (lowerExpr tree)
  slice : Refuses post (lowerSlice tree)
  arguments : Refuses post (lowerArguments tree)
  parts : Refuses post (attributeParts tree)

section Children

variable (inner : ∀ child ∈ children, ReadsGranted post child)

include inner

theorem lowerNamed_refuses : Refuses post (lowerNamed children) := by
  rw [lowerNamed_eq]
  exact refuses_mapM fun child member => (inner child (List.mem_of_mem_filter member)).expr

theorem firstNamed_refuses : ∀ reading ∈ firstNamed children, Refuses post reading := by
  rw [firstNamed_eq]
  exact forall_found fun child member => (inner child member).expr

theorem lowerIndices_refuses : Refuses post (lowerIndices children) := by
  rw [lowerIndices_eq]
  refine refuses_mapM fun child member => ?_
  have reads := inner child (List.mem_of_mem_filter member)
  unfold lowerIndex
  split
  · exact reads.slice
  · exact reads.expr

theorem sliceParts_refuses {refusal : LowerError} (granted : post refusal) (colons : Nat)
    (parts : SliceParts) : Refuses post (sliceParts refusal colons parts children) := by
  induction children generalizing colons parts with
  | nil => exact refuses_ok parts
  | cons child rest ih =>
      rw [List.forall_mem_cons] at inner
      rw [sliceParts]
      split
      · exact ih inner.2 _ _
      · split
        · apply refuses_bind inner.1.expr
          intro e _
          exact ih inner.2 _ _
        · exact refuses_error granted

theorem printItems_refuses (grants : ∀ child ∈ children, Grants frontEnd post child) :
    Refuses post (printItems children) := by
  rw [printItems_eq]
  refine refuses_mapM fun child listed => ?_
  have member := List.mem_of_mem_filter listed
  unfold printItem
  split
  · exact (inner child member).expr
  · exact refuses_error ((grants child member).reports .noRule)

end Children

theorem comparisonOperators_refuses (grants : Grants frontEnd post tree) :
    Refuses post (comparisonOperators tree.children) := by
  apply refuses_mapM
  intro operator listed
  exact lowerOperator_refuses (grants.child (List.mem_filter.1 listed).1) _

section Rules

variable (grants : Grants frontEnd post tree)
variable (inner : ∀ child ∈ tree.children, ReadsGranted post child)

include grants inner

theorem exprAt_refuses (field : String) :
    Refuses post (required tree.kind tree.span field (exprAt field tree.children)) := by
  rw [exprAt_eq]
  exact refuses_field grants field fun child member => (inner child member).expr

theorem argumentsAt_refuses :
    Refuses post (required tree.kind tree.span "arguments" (argumentsAt tree.children)) := by
  rw [argumentsAt_eq]
  exact refuses_field grants _ fun child member => (inner child member).arguments

theorem negatedArgument_refuses :
    Refuses post (required tree.kind tree.span "argument" (negatedArgument tree.children)) := by
  rw [negatedArgument_eq]
  apply refuses_field grants
  intro child member
  unfold lowerNegated
  split
  · exact lowerInteger_refuses (grants.child member) true
  · exact lowerFloat_refuses (grants.child member) true
  · exact refuses_map (inner child member).expr

theorem attributeParts_refuses : Refuses post (attributeParts tree) := by
  obtain ⟨kind, span, text, field, children⟩ := tree
  unfold attributeParts
  split
  · apply refuses_bind (refuses_childAt grants "attribute")
    intro last _
    rw [objectParts_eq]
    apply refuses_bind (refuses_field grants _ fun child member => (inner child member).parts)
    intro parts _
    exact refuses_ok (parts ++ [last.text])
  · exact refuses_ok [text]
  · exact refuses_error (grants.reports (.qualified (by simp [kindQualifiers])))

theorem binaryExpr_refuses (accepts : BinaryOperator → Bool) :
    Refuses post (binaryExpr accepts tree.kind tree.span tree.children
      (exprAt "left" tree.children) (exprAt "right" tree.children)) := by
  apply refuses_bind (refuses_childAt grants "operator")
  intro operator found
  apply refuses_bind (lowerOperator_refuses (grants.child (mem_of_childAt found)) accepts)
  intro op _
  apply refuses_bind (exprAt_refuses grants inner "left")
  intro left _
  apply refuses_bind (exprAt_refuses grants inner "right")
  intro right _
  exact refuses_ok (Expr.binary op left right)

end Rules

theorem lowerAttribute_refuses (grants : Grants frontEnd post tree)
    (parts : Refuses post (attributeParts tree)) : Refuses post (lowerAttribute tree) := by
  apply refuses_bind parts
  intro names _
  exact refuses_ofMalformed grants.malformed _

theorem lowerCallee_refuses (grants : Grants frontEnd post tree)
    (parts : Refuses post (attributeParts tree)) : Refuses post (lowerCallee tree) := by
  unfold lowerCallee
  split
  · exact refuses_ok _
  · exact refuses_map (lowerAttribute_refuses grants parts)
  · exact refuses_error (grants.reports (.qualified (by simp [kindQualifiers])))

theorem lowerExpr_refuses (grants : Grants frontEnd post tree)
    (inner : ∀ child ∈ tree.children, ReadsGranted post child) :
    Refuses post (lowerExpr tree) := by
  have attributes := lowerAttribute_refuses grants (attributeParts_refuses grants inner)
  obtain ⟨kind, span, text, field, children⟩ := tree
  unfold lowerExpr
  split
  · exact refuses_ok _
  · exact lowerInteger_refuses grants false
  · exact lowerFloat_refuses grants false
  · exact lowerString_refuses grants
  · exact refuses_ok _
  · exact refuses_ok _
  · exact refuses_ok _
  · exact refuses_map attributes
  · -- calls
    apply refuses_bind (refuses_childAt grants "function")
    intro function found
    have member := mem_of_childAt found
    apply refuses_bind (lowerCallee_refuses (grants.child member) (inner function member).parts)
    intro callee _
    apply refuses_bind (argumentsAt_refuses grants inner)
    intro args _
    exact refuses_ok (callExpr callee args)
  · -- subscripts
    apply refuses_bind (exprAt_refuses grants inner "value")
    intro base _
    apply refuses_bind (lowerIndices_refuses inner)
    intro indices _
    exact refuses_ofMalformed grants.malformed _
  · exact binaryExpr_refuses grants inner _
  · exact binaryExpr_refuses grants inner _
  · -- comparisons
    apply refuses_bind (lowerNamed_refuses inner)
    intro operands _
    apply refuses_bind (comparisonOperators_refuses grants)
    intro operators _
    split
    · exact refuses_ok _
    · exact refuses_error (grants.reports .noRule)
  · -- signs
    apply refuses_bind (refuses_childAt grants "operator")
    intro operator found
    apply refuses_bind (refuses_childAt grants "argument")
    intro _ _
    split
    · exact negatedArgument_refuses grants inner
    · exact refuses_error ((grants.child (mem_of_childAt found)).reports .operator)
  · -- negations
    apply refuses_bind (exprAt_refuses grants inner "argument")
    intro operand _
    exact refuses_ok (Expr.unary .not operand)
  · -- a node that is read for one of its children alone
    split
    · next reading found => exact firstNamed_refuses inner reading found
    · exact refuses_error (grants.reports .noRule)
  · exact refuses_map (lowerNamed_refuses inner)
  · exact refuses_map (lowerNamed_refuses inner)
  · exact refuses_map (lowerNamed_refuses inner)
  · exact refuses_error (grants.reports .noRule)

theorem reads_granted (grants : Grants frontEnd post tree) : ReadsGranted post tree := by
  induction tree using Tree.induction with
  | step tree ih =>
      have inner : ∀ child ∈ tree.children, ReadsGranted post child :=
        fun child member => ih child member (grants.child member)
      constructor
      · exact lowerExpr_refuses grants inner
      · obtain ⟨kind, span, text, field, children⟩ := tree
        rw [lowerSlice]
        exact refuses_map (sliceParts_refuses inner (grants.reports .noRule) _ _)
      · obtain ⟨kind, span, text, field, children⟩ := tree
        rw [lowerArguments]
        split
        · exact lowerNamed_refuses inner
        · exact refuses_error (grants.reports .noRule)
      · exact attributeParts_refuses grants inner

end Readings

end NumericPython.Lowering

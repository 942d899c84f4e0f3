import NumericPython.Proofs.Lowering.Refusals

set_option autoImplicit false

namespace NumericPython.Lowering

open NumericPython.Tree

variable {frontEnd : FrontEnd} {post : LowerError → Prop} {tree : Tree} {children : List Tree}

section Simple

theorem rejectField_refuses (grants : Grants frontEnd post tree) {construct : String}
    (listed : construct ∈ namedConstructs) (field : String) :
    Refuses post (rejectField construct field tree.children) := by
  unfold rejectField
  split
  next child found =>
    exact refuses_error ((grants.child (List.mem_of_find?_eq_some found)).reports (.construct listed))
  next => exact refuses_ok ()

theorem rejectAsync_refuses (grants : Grants frontEnd post tree) :
    Refuses post (rejectAsync tree.kind tree.span tree.children) := by
  unfold rejectAsync
  split
  · exact refuses_error (grants.reports (.qualified (by simp [kindQualifiers])))
  · exact refuses_ok ()

theorem exprAt_field_refuses (grants : Grants frontEnd post tree) (field : String) :
    Refuses post (required tree.kind tree.span field (exprAt field tree.children)) :=
  exprAt_refuses grants (fun _ member => reads_granted (grants.child member)) field

theorem arguments_refuses (grants : Grants frontEnd post tree) :
    Refuses post (required tree.kind tree.span "arguments" (argumentsAt tree.children)) :=
  argumentsAt_refuses grants fun _ member => reads_granted (grants.child member)

theorem callee_refuses (grants : Grants frontEnd post tree) : Refuses post (lowerCallee tree) :=
  lowerCallee_refuses grants (reads_granted grants).parts

theorem lowerAssignment_refuses (grants : Grants frontEnd post tree) :
    Refuses post (lowerAssignment tree.kind tree.span tree.children) := by
  apply refuses_bind (rejectField_refuses grants (by simp [namedConstructs]) "type")
  intro _ _
  apply refuses_bind (exprAt_field_refuses grants "left")
  intro target _
  apply refuses_bind (exprAt_field_refuses grants "right")
  intro value _
  exact refuses_ok (Stmt.assign target value)

theorem augmentedOperator_refuses (grants : Grants frontEnd post tree) :
    Refuses post (augmentedOperator tree) := by
  unfold augmentedOperator
  dsimp only
  split
  · split
    · exact refuses_ok _
    · exact refuses_error (grants.reports .operator)
  · exact refuses_error (grants.reports .operator)

theorem lowerAugmented_refuses (grants : Grants frontEnd post tree) :
    Refuses post (lowerAugmented tree.kind tree.span tree.children) := by
  apply refuses_bind (refuses_childAt grants "operator")
  intro operator found
  apply refuses_bind (augmentedOperator_refuses (grants.child (mem_of_childAt found)))
  intro op _
  apply refuses_bind (exprAt_field_refuses grants "left")
  intro target _
  apply refuses_bind (exprAt_field_refuses grants "right")
  intro value _
  exact refuses_ok (Stmt.augAssign target op value)

theorem lowerExpressionStatement_refuses (grants : Grants frontEnd post tree) :
    Refuses post (lowerExpressionStatement tree.children) := by
  unfold lowerExpressionStatement
  split
  next child only =>
    have listed : child ∈ tree.children.filter (!·.isToken) := by
      rw [only]
      exact List.mem_singleton_self child
    have inner := grants.child (List.mem_filter.1 listed).1
    split
    · exact lowerAssignment_refuses inner
    · split
      · exact lowerAugmented_refuses inner
      · split
        · exact refuses_map (arguments_refuses inner)
        · exact refuses_map (reads_granted inner).expr
  next =>
    exact refuses_map (lowerNamed_refuses fun _ member => reads_granted (grants.child member))

theorem lowerReturn_refuses (grants : Grants frontEnd post tree) :
    Refuses post (lowerReturn tree.children) := by
  unfold lowerReturn
  split
  next value found =>
    apply refuses_map
    exact firstNamed_refuses (fun _ member => reads_granted (grants.child member)) value found
  next => exact refuses_ok _

theorem dottedParts_refuses (grants : ∀ child ∈ children, Grants frontEnd post child) :
    Refuses post (dottedParts children) := by
  rw [dottedParts_eq]
  refine refuses_mapM fun child listed => ?_
  unfold dottedPart
  split
  · exact refuses_ok _
  · exact refuses_error ((grants child (List.mem_of_mem_filter listed)).reports .noRule)

theorem lowerDottedName_refuses (grants : Grants frontEnd post tree) :
    Refuses post (lowerDottedName tree) := by
  apply refuses_bind (dottedParts_refuses fun _ member => grants.child member)
  intro parts _
  exact refuses_ofMalformed grants.malformed _

theorem lowerTarget_refuses (grants : Grants frontEnd post tree) :
    Refuses post (lowerTarget tree) := by
  unfold lowerTarget
  split
  · exact refuses_map (lowerDottedName_refuses grants)
  · apply refuses_bind (refuses_childAt grants "name")
    intro path found
    apply refuses_bind (lowerDottedName_refuses (grants.child (mem_of_childAt found)))
    intro name _
    apply refuses_bind (refuses_childAt grants "alias")
    intro asName _
    exact refuses_ok _
  · exact refuses_error (grants.reports .noRule)

theorem lowerTargets_refuses (grants : Grants frontEnd post tree) :
    Refuses post (lowerTargets tree) := by
  apply refuses_mapM
  intro target listed
  exact lowerTarget_refuses (grants.child (List.mem_filter.1 listed).1)

theorem lowerImport_refuses (grants : Grants frontEnd post tree) :
    Refuses post (lowerImport tree) := by
  apply refuses_bind (lowerTargets_refuses grants)
  intro targets _
  apply refuses_bind (refuses_ofMalformed grants.malformed _)
  intro item _
  exact refuses_ok (Stmt.importNames item)

theorem lowerImportFrom_refuses (grants : Grants frontEnd post tree) :
    Refuses post (lowerImportFrom tree) := by
  apply refuses_bind (refuses_childAt grants "module_name")
  intro path found
  have inner := grants.child (mem_of_childAt found)
  split
  · split
    next wildcard other =>
      have listed := List.mem_of_find?_eq_some other
      exact refuses_error ((grants.child (List.mem_filter.1 listed).1).reports .noRule)
    next =>
      apply refuses_bind (lowerDottedName_refuses inner)
      intro source _
      apply refuses_bind (lowerTargets_refuses grants)
      intro targets _
      exact refuses_ok (source, targets)
  · exact refuses_error (inner.reports .noRule)

theorem lowerParameter_refuses (grants : Grants frontEnd post tree) :
    Refuses post (lowerParameter tree) := by
  unfold lowerParameter
  split
  · exact refuses_ok _
  · apply refuses_bind (refuses_childAt grants "name")
    intro name found
    split
    · apply refuses_bind (exprAt_field_refuses grants "value")
      intro value _
      exact refuses_ok _
    · exact refuses_error ((grants.child (mem_of_childAt found)).reports .noRule)
  · exact refuses_error (grants.reports .noRule)

theorem lowerParameters_refuses (grants : Grants frontEnd post tree) :
    Refuses post (lowerParameters tree.children) := by
  apply refuses_mapM
  intro parameter listed
  exact lowerParameter_refuses (grants.child (List.mem_filter.1 listed).1)

theorem lowerDecorator_refuses (grants : Grants frontEnd post tree) :
    Refuses post (lowerDecorator tree) := by
  unfold lowerDecorator
  split
  next => exact refuses_error (grants.reports .noRule)
  next e rest named =>
    have listed : e ∈ tree.namedChildren := by
      rw [named]
      exact List.mem_cons_self
    have inner := grants.child (List.mem_filter.1 listed).1
    split
    · apply refuses_bind (refuses_childAt inner "function")
      intro function found
      apply refuses_bind (callee_refuses (inner.child (mem_of_childAt found)))
      intro callee _
      apply refuses_bind (arguments_refuses inner)
      intro args _
      exact refuses_ok (callee.text, args)
    · exact refuses_map (callee_refuses inner)

theorem lowerDecorators_refuses (grants : Grants frontEnd post tree) :
    Refuses post (lowerDecorators tree.children) := by
  apply refuses_bind
  · apply refuses_mapM
    intro decorator listed
    exact lowerDecorator_refuses (grants.child (List.mem_filter.1 listed).1)
  · intro decorators _
    exact refuses_ok (Table.ofList decorators)

theorem lowerHeader_refuses (grants : Grants frontEnd post tree) :
    Refuses post (lowerHeader tree.kind tree.span tree.children) := by
  apply refuses_bind (rejectAsync_refuses grants)
  intro _ _
  apply refuses_bind (rejectField_refuses grants (by simp [namedConstructs]) "return_type")
  intro _ _
  apply refuses_bind (rejectField_refuses grants (by simp [namedConstructs]) "type_parameters")
  intro _ _
  apply refuses_bind (refuses_childAt grants "name")
  intro name _
  apply refuses_bind (refuses_childAt grants "parameters")
  intro parameters found
  apply refuses_bind (lowerParameters_refuses (grants.child (mem_of_childAt found)))
  intro arguments _
  exact refuses_ok (name.text, arguments)

theorem lowerComment_refuses (grants : Grants frontEnd post tree) :
    Refuses post (lowerComment frontEnd tree) := by
  unfold lowerComment
  split
  next isPragma => exact grants.pragma tree (.self tree) isPragma
  next => exact refuses_ok _

end Simple

structure StatesGranted (frontEnd : FrontEnd) (post : LowerError → Prop) (tree : Tree) : Prop where
  stmt : Stops post (lowerStmt frontEnd tree)
  block : Stops post (lowerBlock frontEnd tree)
  alternative : Stops post (lowerAlternative frontEnd tree)
  definition : Stops post (lowerDefinition frontEnd tree)
  members (owner : String) : Stops post (lowerMembers frontEnd owner tree)
  method : Stops post (lowerMethod frontEnd tree)

section Children

variable (inner : ∀ child ∈ children, StatesGranted frontEnd post child)

include inner

theorem lowerStmts_stops : Stops post (lowerStmts frontEnd children) := by
  rw [lowerStmts_eq]
  exact stops_mapM fun child member => (inner child (List.mem_of_mem_filter member)).stmt

theorem lowerAlternatives_stops : Stops post (lowerAlternatives frontEnd children) := by
  rw [lowerAlternatives_eq]
  exact stops_mapM fun child member => (inner child (List.mem_of_mem_filter member)).alternative

theorem lowerMemberList_stops (owner : String)
    (grants : ∀ child ∈ children, Grants frontEnd post child) :
    Stops post (lowerMemberList frontEnd owner children) := by
  rw [lowerMemberList_eq]
  refine stops_mapM fun child listed => ?_
  have member := List.mem_of_mem_filter listed
  unfold lowerMember
  split
  · exact stops_refuse ((grants child member).reports (.construct (by simp [namedConstructs])))
  · exact stops_bind (inner child member).method fun method => stops_pure _

end Children

section Rules

variable (grants : Grants frontEnd post tree)
variable (inner : ∀ child ∈ tree.children, StatesGranted frontEnd post child)

include grants inner

theorem blockAt_stops (field : String) :
    Stops post (requiredM tree.kind tree.span field (blockAt frontEnd field tree.children)) := by
  rw [blockAt_eq]
  exact stops_field grants field fun child member => (inner child member).block

theorem functionFrom_stops :
    Stops post (functionFrom tree.kind tree.span tree.children
      (blockAt frontEnd "body" tree.children)) := by
  apply stops_bind (stops_lift (lowerHeader_refuses grants))
  intro header
  apply stops_bind (blockAt_stops grants inner "body")
  intro body
  exact stops_pure _

theorem decoratedFrom_stops :
    Stops post (decoratedFrom tree.kind tree.span tree.children
      (definitionAt frontEnd tree.children)) := by
  apply stops_bind (stops_lift (lowerDecorators_refuses grants))
  intro decorators
  rw [definitionAt_eq]
  apply stops_bind (stops_field grants _ fun child member => (inner child member).definition)
  intro definition
  exact stops_pure _

theorem lowerStmt_stops : Stops post (lowerStmt frontEnd tree) := by
  obtain ⟨kind, span, text, field, children⟩ := tree
  unfold lowerStmt
  split
  · exact stops_pure _
  · exact stops_lift (lowerComment_refuses grants)
  · exact stops_lift (lowerExpressionStatement_refuses grants)
  · exact stops_lift (lowerReturn_refuses grants)
  · exact stops_pure _
  · -- prints
    apply stops_lift
    apply refuses_map
    exact printItems_refuses (fun _ member => reads_granted (grants.child member))
      fun _ member => grants.child member
  · exact stops_lift (lowerImport_refuses grants)
  · -- imports of names, which the session records before the item is built
    apply stops_bind (stops_lift (lowerImportFrom_refuses grants))
    intro names
    refine stops_bind (stops_record _) fun _ => ?_
    apply stops_bind (stops_lift (refuses_ofMalformed grants.malformed _))
    intro item
    exact stops_pure _
  · -- conditionals
    apply stops_bind (stops_lift (exprAt_field_refuses grants "condition"))
    intro condition
    apply stops_bind (blockAt_stops grants inner "consequence")
    intro body
    apply stops_bind (lowerAlternatives_stops inner)
    intro others
    exact stops_lift (refuses_ofMalformed grants.malformed _)
  · -- loops over a range
    apply stops_bind (stops_lift (rejectAsync_refuses grants))
    intro _
    apply stops_bind (stops_lift (rejectField_refuses grants (by simp [namedConstructs]) _))
    intro _
    apply stops_bind (stops_lift (exprAt_field_refuses grants "left"))
    intro target
    apply stops_bind (stops_lift (exprAt_field_refuses grants "right"))
    intro iterable
    apply stops_bind (blockAt_stops grants inner "body")
    intro body
    apply stops_bind (stops_lift (refuses_ofMalformed grants.malformed _))
    intro loopTarget
    exact stops_pure _
  · -- loops with a condition
    apply stops_bind (stops_lift (rejectField_refuses grants (by simp [namedConstructs]) _))
    intro _
    apply stops_bind (stops_lift (exprAt_field_refuses grants "condition"))
    intro condition
    apply stops_bind (blockAt_stops grants inner "body")
    intro body
    exact stops_pure _
  · apply stops_bind (functionFrom_stops grants inner)
    intro definition
    exact stops_pure _
  · apply stops_bind (decoratedFrom_stops grants inner)
    intro definition
    exact stops_pure _
  · -- classes
    apply stops_bind (stops_lift (rejectField_refuses grants (by simp [namedConstructs]) _))
    intro _
    apply stops_bind (stops_lift (refuses_childAt grants "name"))
    intro name
    rw [membersAt_eq]
    apply stops_bind (stops_field grants _ fun child member => (inner child member).members name.text)
    intro methods
    exact stops_pure _
  · -- No rule of the translation is for this kind of node.
    exact stops_refuse (grants.reports .noRule)

theorem lowerAlternative_stops : Stops post (lowerAlternative frontEnd tree) := by
  obtain ⟨kind, span, text, field, children⟩ := tree
  unfold lowerAlternative
  split
  · apply stops_bind (stops_lift (exprAt_field_refuses grants "condition"))
    intro condition
    apply stops_bind (blockAt_stops grants inner "consequence")
    intro body
    exact stops_pure _
  · apply stops_bind (blockAt_stops grants inner "body")
    intro body
    exact stops_pure _
  · exact stops_refuse (grants.reports .noRule)

theorem lowerMethod_stops : Stops post (lowerMethod frontEnd tree) := by
  obtain ⟨kind, span, text, field, children⟩ := tree
  unfold lowerMethod
  split
  · exact functionFrom_stops grants inner
  · exact decoratedFrom_stops grants inner
  · exact stops_refuse (grants.reports .noRule)

end Rules

theorem states_granted (grants : Grants frontEnd post tree) : StatesGranted frontEnd post tree := by
  induction tree using Tree.induction with
  | step tree ih =>
      have inner : ∀ child ∈ tree.children, StatesGranted frontEnd post child :=
        fun child member => ih child member (grants.child member)
      constructor
      · exact lowerStmt_stops grants inner
      · obtain ⟨kind, span, text, field, children⟩ := tree
        rw [lowerBlock]
        split
        · exact lowerStmts_stops inner
        · exact stops_refuse (grants.reports .noRule)
      · exact lowerAlternative_stops grants inner
      · obtain ⟨kind, span, text, field, children⟩ := tree
        rw [lowerDefinition]
        split
        · exact functionFrom_stops grants inner
        · exact stops_refuse (grants.reports (.qualified (by simp [kindQualifiers])))
      · intro owner
        obtain ⟨kind, span, text, field, children⟩ := tree
        rw [lowerMembers]
        exact lowerMemberList_stops inner owner fun _ member => grants.child member
      · exact lowerMethod_stops grants inner

theorem lowerRoot_stops (grants : Grants frontEnd post tree) :
    Stops post (lowerRoot frontEnd tree) := by
  unfold lowerRoot
  split
  · exact lowerStmts_stops fun _ member => states_granted (grants.child member)
  · exact stops_refuse (grants.reports .noRule)

theorem grants_refusal (frontEnd : FrontEnd) (tree : Tree) :
    Grants frontEnd (Refusal frontEnd tree) tree where
  malformed := .malformed
  node _ within _ reports := .node within reports
  pragma _ within isPragma _ refused := .pragma within isPragma refused

theorem refusal_of_ofTree {cause : LowerError}
    (failed : LoweredModule.ofTree frontEnd tree = .error cause) : Refusal frontEnd tree cause := by
  unfold LoweredModule.ofTree at failed
  split at failed
  next => cases failed
  next error imports run =>
    have stops := lowerRoot_stops (grants_refusal frontEnd tree)
    cases failed
    exact stops .empty _ (congrArg Prod.fst run)

end NumericPython.Lowering

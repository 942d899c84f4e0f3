import NumericPython.Lowering.Stmt

set_option autoImplicit false

namespace NumericPython.Lowering

variable {α : Type}

def lowerIndex (tree : Tree) : Lowered Expr :=
  if tree.kind = .slice then lowerSlice tree else lowerExpr tree

def lowerNegated (tree : Tree) : Lowered Expr :=
  match tree.kind with
  | .integer => lowerInteger true tree.text tree.span
  | .float => lowerFloat true tree.text tree.span
  | _ => (lowerExpr tree).map (.unary .neg)

def printItem (tree : Tree) : Lowered Expr :=
  if tree.fills "argument" then lowerExpr tree else .error (.ofTree tree)

def dottedPart (tree : Tree) : Lowered String :=
  if tree.kind = .identifier then .ok tree.text else .error (.ofTree tree)

def isMember (tree : Tree) : Bool :=
  !tree.isToken && (tree.isPragma || !isClassLayout tree.kind)

def lowerMember (frontEnd : FrontEnd) (owner : String) (tree : Tree) : LowerM FunctionDef :=
  if tree.isPragma then refuse (.unsupported "pragma in class body" tree.span)
  else do
    let method ← lowerMethod frontEnd tree
    pure { method with classOwner := some owner }

theorem first_eq {pick : Tree → Bool} {read : Tree → α} {walk : List Tree → Option α}
    (nil : walk [] = none)
    (cons : ∀ tree rest, walk (tree :: rest) = if pick tree then some (read tree) else walk rest)
    (children : List Tree) : walk children = (children.find? pick).map read := by
  induction children with
  | nil => exact nil
  | cons child rest ih =>
      rw [cons, ih, List.find?_cons]
      cases pick child <;> rfl

theorem each_eq {m : Type → Type} [Monad m] [LawfulMonad m] {pick : Tree → Bool}
    {read : Tree → m α} (walk : List Tree → m (List α)) (nil : walk [] = pure [])
    (cons : ∀ tree rest, walk (tree :: rest) =
      if pick tree then (do return (← read tree) :: (← walk rest)) else walk rest)
    (children : List Tree) : walk children = (children.filter pick).mapM read := by
  induction children with
  | nil => exact nil.trans List.mapM_nil.symm
  | cons child rest ih =>
      rw [cons, ih, List.filter_cons]
      cases pick child with
      | false => rfl
      | true => exact List.mapM_cons.symm

theorem named_eq {m : Type → Type} [Monad m] [LawfulMonad m] {read : Tree → m α}
    (walk : List Tree → m (List α)) (nil : walk [] = pure [])
    (cons : ∀ tree rest, walk (tree :: rest) =
      if tree.isToken then walk rest else (do return (← read tree) :: (← walk rest)))
    (children : List Tree) : walk children = (children.filter (!·.isToken)).mapM read := by
  refine each_eq walk nil (fun tree rest => ?_) children
  rw [cons]
  cases tree.isToken <;> rfl

theorem forall_found {holds : α → Prop} {pick : Tree → Bool} {read : Tree → α}
    {children : List Tree} (each : ∀ child ∈ children, holds (read child)) :
    ∀ reading ∈ (children.find? pick).map read, holds reading := by
  intro reading found
  obtain ⟨child, first, rfl⟩ := Option.map_eq_some_iff.1 found
  exact each child (List.mem_of_find?_eq_some first)

section First

variable (children : List Tree)

theorem exprAt_eq (field : String) :
    exprAt field children = (children.find? (·.fills field)).map lowerExpr :=
  first_eq rfl (fun _ _ => rfl) children

theorem argumentsAt_eq :
    argumentsAt children = (children.find? (·.fills "arguments")).map lowerArguments :=
  first_eq rfl (fun _ _ => rfl) children

theorem objectParts_eq :
    objectParts children = (children.find? (·.fills "object")).map attributeParts :=
  first_eq rfl (fun _ _ => rfl) children

theorem negatedArgument_eq :
    negatedArgument children = (children.find? (·.fills "argument")).map lowerNegated :=
  first_eq rfl (fun _ _ => rfl) children

theorem firstNamed_eq :
    firstNamed children = (children.find? (!·.isToken)).map lowerExpr := by
  refine first_eq rfl (fun tree rest => ?_) children
  rw [firstNamed]
  cases tree.isToken <;> rfl

variable (frontEnd : FrontEnd)

theorem blockAt_eq (field : String) :
    blockAt frontEnd field children =
      (children.find? (·.fills field)).map (lowerBlock frontEnd) :=
  first_eq rfl (fun _ _ => rfl) children

theorem definitionAt_eq :
    definitionAt frontEnd children =
      (children.find? (·.fills "definition")).map (lowerDefinition frontEnd) :=
  first_eq rfl (fun _ _ => rfl) children

theorem membersAt_eq (owner : String) :
    membersAt frontEnd owner children =
      (children.find? (·.fills "body")).map (lowerMembers frontEnd owner) :=
  first_eq rfl (fun _ _ => rfl) children

end First

section Each

variable (children : List Tree)

theorem lowerNamed_eq :
    lowerNamed children = (children.filter (!·.isToken)).mapM lowerExpr :=
  named_eq lowerNamed rfl (fun _ _ => rfl) children

theorem lowerIndices_eq :
    lowerIndices children = (children.filter (·.fills "subscript")).mapM lowerIndex := by
  refine each_eq lowerIndices rfl (fun tree rest => ?_) children
  rw [lowerIndices, lowerIndex]
  -- The test for a slice stands in front of the bind, and is split with what follows it.
  split
  · split <;> rfl
  · rfl

theorem printItems_eq :
    printItems children = (children.filter (!·.isToken)).mapM printItem := by
  refine named_eq printItems rfl (fun tree rest => ?_) children
  rw [printItems, printItem]
  cases tree.fills "argument" <;> rfl

theorem dottedParts_eq :
    dottedParts children = (children.filter (!·.isToken)).mapM dottedPart := by
  refine named_eq dottedParts rfl (fun tree rest => ?_) children
  rw [dottedParts, dottedPart]
  by_cases name : tree.kind = .identifier
  · rw [if_pos name, if_pos name]
    rfl
  · rw [if_neg name, if_neg name]
    rfl

variable (frontEnd : FrontEnd)

theorem lowerStmts_eq :
    lowerStmts frontEnd children = (children.filter (!·.isToken)).mapM (lowerStmt frontEnd) :=
  named_eq (lowerStmts frontEnd) rfl (fun _ _ => rfl) children

theorem lowerAlternatives_eq :
    lowerAlternatives frontEnd children =
      (children.filter (·.fills "alternative")).mapM (lowerAlternative frontEnd) :=
  each_eq (lowerAlternatives frontEnd) rfl (fun _ _ => rfl) children

theorem lowerMemberList_eq (owner : String) :
    lowerMemberList frontEnd owner children =
      (children.filter isMember).mapM (lowerMember frontEnd owner) := by
  refine each_eq (lowerMemberList frontEnd owner) rfl (fun tree rest => ?_) children
  rw [lowerMemberList, lowerMember, isMember]
  cases tree.isToken with
  | true => rfl
  | false =>
    cases tree.isPragma with
    | true => rfl
    | false => cases isClassLayout tree.kind <;> simp

end Each

end NumericPython.Lowering

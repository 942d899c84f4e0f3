import NumericPython.Lowering.Comment
import NumericPython.Lowering.Import

set_option autoImplicit false

/-!
Statements and definitions of the numeric subset from concrete trees. Lowering stops at the first
fault in source order. Besides its result it has one effect: imports of intrinsics are entered into
a table, which is kept also when lowering fails.
-/

namespace NumericPython.Lowering

abbrev ImportTable := Table IntrinsicFunction

abbrev LowerM := ExceptT LowerError (StateM ImportTable)

def lift {α : Type} (result : Lowered α) : LowerM α :=
  ExceptT.mk (pure result)

def refuse {α : Type} (cause : LowerError) : LowerM α :=
  lift (.error cause)

def requiredM {α : Type} (kind : Kind) (span : Span) (field : String) :
    Option (LowerM α) → LowerM α
  | some action => action
  | none => refuse (.missingField kind span field)

def record (bindings : List (String × IntrinsicFunction)) : LowerM Unit :=
  modify (·.insertAll bindings)

def rejectField (construct field : String) (children : List Tree) : Lowered Unit :=
  match children.find? (·.fills field) with
  | some child => .error (.unsupported construct child.span)
  | none => .ok ()

def rejectAsync (kind : Kind) (span : Span) (children : List Tree) : Lowered Unit :=
  if children.any fun child => child.isToken && child.text == "async" then
    .error (.unsupported ("async " ++ kind.name) span)
  else .ok ()

def lowerAssignment (kind : Kind) (span : Span) (children : List Tree) : Lowered Stmt := do
  rejectField "annotated assignment" "type" children
  let target ← required kind span "left" (exprAt "left" children)
  let value ← required kind span "right" (exprAt "right" children)
  .ok (.assign target value)

def augmentedOperator (operator : Tree) : Lowered BinaryOperator :=
  let cs := operator.text.toList
  let op? :=
    if cs.getLast? = some '=' then BinaryOperator.ofText? (String.ofList cs.dropLast) else none
  match op? with
  | some op =>
    if op.isArithmetic then .ok op else .error (.unknownOperator operator.text operator.span)
  | none => .error (.unknownOperator operator.text operator.span)

def lowerAugmented (kind : Kind) (span : Span) (children : List Tree) : Lowered Stmt := do
  let operator ← childAt kind span "operator" children
  let op ← augmentedOperator operator
  let target ← required kind span "left" (exprAt "left" children)
  let value ← required kind span "right" (exprAt "right" children)
  .ok (.augAssign target op value)

def isPrintCall (tree : Tree) : Bool :=
  tree.kind == .call &&
    (tree.child? "function").any fun callee => callee.kind == .identifier && callee.text == "print"

def lowerExpressionStatement (children : List Tree) : Lowered Stmt :=
  match children.filter (!·.isToken) with
  | [child] =>
    if child.kind = .assignment then lowerAssignment child.kind child.span child.children
    else if child.kind = .augmentedAssignment then
      lowerAugmented child.kind child.span child.children
    else if isPrintCall child then
      (required child.kind child.span "arguments" (argumentsAt child.children)).map .print
    else (lowerExpr child).map .expression
  | _ => (lowerNamed children).map fun items => .expression (.tuple items)

def lowerReturn (children : List Tree) : Lowered Stmt :=
  match firstNamed children with
  | some value => value.map .returnValue
  | none => .ok (.returnValue .nil)

def printItems : List Tree → Lowered (List Expr)
  | [] => .ok []
  | child :: rest =>
    if child.isToken then printItems rest
    else if child.fills "argument" then do
      let item ← lowerExpr child
      let others ← printItems rest
      .ok (item :: others)
    else .error (.ofTree child)

def lowerParameter (tree : Tree) : Lowered Parameter :=
  match tree.kind with
  | .identifier => .ok (.plain ⟨tree.text, none⟩)
  | .defaultParameter => do
    let name ← childAt tree.kind tree.span "name" tree.children
    if name.kind = .identifier then do
      let value ← required tree.kind tree.span "value" (exprAt "value" tree.children)
      .ok (.valued ⟨name.text, none⟩ value)
    else .error (.ofTree name)
  | _ => .error (.ofTree tree)

def lowerParameters (children : List Tree) : Lowered (List Parameter) :=
  (children.filter (!·.isToken)).mapM lowerParameter

def lowerDecorator (tree : Tree) : Lowered (String × List Expr) :=
  match tree.namedChildren with
  | [] => .error (.ofTree tree)
  | e :: _ =>
    if e.kind = .call then do
      let function ← childAt e.kind e.span "function" e.children
      let callee ← lowerCallee function
      let args ← required e.kind e.span "arguments" (argumentsAt e.children)
      .ok (callee.text, args)
    else (lowerCallee e).map fun callee => (callee.text, [])

def lowerDecorators (children : List Tree) : Lowered (Table (List Expr)) := do
  let decorators ← (children.filter (·.kind == .decorator)).mapM lowerDecorator
  .ok (.ofList decorators)

def lowerHeader (kind : Kind) (span : Span) (children : List Tree) :
    Lowered (String × List Parameter) := do
  rejectAsync kind span children
  rejectField "function return type" "return_type" children
  rejectField "function type parameters" "type_parameters" children
  let name ← childAt kind span "name" children
  let parameters ← childAt kind span "parameters" children
  let arguments ← lowerParameters parameters.children
  .ok (name.text, arguments)

def isClassLayout (kind : Kind) : Bool :=
  kind == .blankLine || kind == .comment || kind == .passStatement

def functionFrom (kind : Kind) (span : Span) (children : List Tree)
    (body? : Option (LowerM (List Stmt))) : LowerM FunctionDef := do
  let (name, arguments) ← lift (lowerHeader kind span children)
  let body ← requiredM kind span "body" body?
  pure (.plain name arguments body)

def decoratedFrom (kind : Kind) (span : Span) (children : List Tree)
    (definition? : Option (LowerM FunctionDef)) : LowerM FunctionDef := do
  let decorators ← lift (lowerDecorators children)
  let definition ← requiredM kind span "definition" definition?
  pure { definition with decorators }

mutual

def lowerStmt (frontEnd : FrontEnd) : Tree → LowerM Stmt
  | ⟨kind, span, text, field, children⟩ =>
    match kind with
    | .blankLine => pure .emptyLine
    | .comment => lift (lowerComment frontEnd ⟨kind, span, text, field, children⟩)
    | .expressionStatement => lift (lowerExpressionStatement children)
    | .returnStatement => lift (lowerReturn children)
    | .passStatement => pure .pass
    | .printStatement => lift ((printItems children).map .print)
    | .importStatement => lift (lowerImport ⟨kind, span, text, field, children⟩)
    | .importFromStatement => do
      let (source, targets) ← lift (lowerImportFrom ⟨kind, span, text, field, children⟩)
      -- Recorded before the targets are checked, so that also a refused import leaves its names.
      record (intrinsicBindings (some source) targets)
      let item ← lift (ofMalformed (Import.ofTargets (some source) targets))
      pure (.importNames item)
    | .ifStatement => do
      let condition ← lift (required kind span "condition" (exprAt "condition" children))
      let body ← requiredM kind span "consequence" (blockAt frontEnd "consequence" children)
      let others ← lowerAlternatives frontEnd children
      lift (ofMalformed (Stmt.ofBranches ((some condition, body) :: others)))
    | .forStatement => do
      lift (rejectAsync kind span children)
      lift (rejectField "for-else" "alternative" children)
      let target ← lift (required kind span "left" (exprAt "left" children))
      let iterable ← lift (required kind span "right" (exprAt "right" children))
      let body ← requiredM kind span "body" (blockAt frontEnd "body" children)
      -- The target is checked last, when the body has been lowered.
      let loopTarget ← lift (ofMalformed (LoopTarget.ofExpr target))
      pure (.forLoop loopTarget iterable body)
    | .whileStatement => do
      lift (rejectField "while-else" "alternative" children)
      let condition ← lift (required kind span "condition" (exprAt "condition" children))
      let body ← requiredM kind span "body" (blockAt frontEnd "body" children)
      pure (.whileLoop condition body)
    | .functionDefinition => do
      let definition ← functionFrom kind span children (blockAt frontEnd "body" children)
      pure (.functionDef definition)
    | .decoratedDefinition => do
      let definition ← decoratedFrom kind span children (definitionAt frontEnd children)
      pure (.functionDef definition)
    | .classDefinition => do
      lift (rejectField "class bases" "superclasses" children)
      let name ← lift (childAt kind span "name" children)
      let methods ← requiredM kind span "body" (membersAt frontEnd name.text children)
      pure (.ofMethods name.text methods)
    | kind => refuse (.unsupported kind.name span)

def lowerStmts (frontEnd : FrontEnd) : List Tree → LowerM (List Stmt)
  | [] => pure []
  | tree :: rest =>
    if tree.isToken then lowerStmts frontEnd rest
    else do
      let s ← lowerStmt frontEnd tree
      let others ← lowerStmts frontEnd rest
      pure (s :: others)

def blockAt (frontEnd : FrontEnd) (field : String) : List Tree → Option (LowerM (List Stmt))
  | [] => none
  | tree :: rest =>
    if tree.fills field then some (lowerBlock frontEnd tree) else blockAt frontEnd field rest

def lowerBlock (frontEnd : FrontEnd) : Tree → LowerM (List Stmt)
  | ⟨kind, span, _, _, children⟩ =>
    if kind = .block then lowerStmts frontEnd children else refuse (.unsupported kind.name span)

def lowerAlternatives (frontEnd : FrontEnd) :
    List Tree → LowerM (List (Option Expr × List Stmt))
  | [] => pure []
  | tree :: rest =>
    if tree.fills "alternative" then do
      let branch ← lowerAlternative frontEnd tree
      let others ← lowerAlternatives frontEnd rest
      pure (branch :: others)
    else lowerAlternatives frontEnd rest

def lowerAlternative (frontEnd : FrontEnd) : Tree → LowerM (Option Expr × List Stmt)
  | ⟨kind, span, _, _, children⟩ =>
    match kind with
    | .elifClause => do
      let condition ← lift (required kind span "condition" (exprAt "condition" children))
      let body ← requiredM kind span "consequence" (blockAt frontEnd "consequence" children)
      pure (some condition, body)
    | .elseClause => do
      let body ← requiredM kind span "body" (blockAt frontEnd "body" children)
      pure (none, body)
    | kind => refuse (.unsupported kind.name span)

def definitionAt (frontEnd : FrontEnd) : List Tree → Option (LowerM FunctionDef)
  | [] => none
  | tree :: rest =>
    if tree.fills "definition" then some (lowerDefinition frontEnd tree)
    else definitionAt frontEnd rest

def lowerDefinition (frontEnd : FrontEnd) : Tree → LowerM FunctionDef
  | ⟨kind, span, _, _, children⟩ =>
    if kind = .functionDefinition then
      functionFrom kind span children (blockAt frontEnd "body" children)
    else refuse (.unsupported ("decorated " ++ kind.name) span)

def membersAt (frontEnd : FrontEnd) (owner : String) :
    List Tree → Option (LowerM (List FunctionDef))
  | [] => none
  | tree :: rest =>
    if tree.fills "body" then some (lowerMembers frontEnd owner tree)
    else membersAt frontEnd owner rest

def lowerMembers (frontEnd : FrontEnd) (owner : String) : Tree → LowerM (List FunctionDef)
  | ⟨_, _, _, _, children⟩ => lowerMemberList frontEnd owner children

def lowerMemberList (frontEnd : FrontEnd) (owner : String) :
    List Tree → LowerM (List FunctionDef)
  | [] => pure []
  | tree :: rest =>
    if tree.isToken then lowerMemberList frontEnd owner rest
    else if tree.isPragma then refuse (.unsupported "pragma in class body" tree.span)
    else if isClassLayout tree.kind then lowerMemberList frontEnd owner rest
    else do
      let method ← lowerMethod frontEnd tree
      let others ← lowerMemberList frontEnd owner rest
      pure ({ method with classOwner := some owner } :: others)

def lowerMethod (frontEnd : FrontEnd) : Tree → LowerM FunctionDef
  | ⟨kind, span, _, _, children⟩ =>
    match kind with
    | .functionDefinition => functionFrom kind span children (blockAt frontEnd "body" children)
    | .decoratedDefinition => decoratedFrom kind span children (definitionAt frontEnd children)
    | kind => refuse (.unsupported kind.name span)

end

def lowerRoot (frontEnd : FrontEnd) (tree : Tree) : LowerM (List Stmt) :=
  if tree.kind = .root then lowerStmts frontEnd tree.children else refuse (.ofTree tree)

end NumericPython.Lowering

namespace NumericPython

structure LoweredModule where
  body : List Stmt
  intrinsicImports : Table IntrinsicFunction

def LoweredModule.ofTree (frontEnd : FrontEnd) (tree : Tree) : Except LowerError LoweredModule :=
  match (Lowering.lowerRoot frontEnd tree).run .empty with
  | (.ok body, intrinsicImports) => .ok { body, intrinsicImports }
  | (.error cause, _) => .error cause

end NumericPython

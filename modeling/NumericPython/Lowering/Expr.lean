import NumericPython.Ast.Resolve
import NumericPython.Literal.Number
import NumericPython.Literal.Quoted
import NumericPython.Lowering.Error

set_option autoImplicit false

namespace NumericPython.Lowering

abbrev Lowered (α : Type) := Except LowerError α

def required {α : Type} (kind : Kind) (span : Span) (field : String) :
    Option (Lowered α) → Lowered α
  | some reading => reading
  | none => .error (.missingField kind span field)

def ofMalformed {α : Type} : Except Malformed α → Lowered α
  | .ok value => .ok value
  | .error cause => .error (.malformed cause)

def childAt (kind : Kind) (span : Span) (field : String) (children : List Tree) : Lowered Tree :=
  required kind span field ((children.find? (·.fills field)).map .ok)

def lowerInteger (negate : Bool) (text : String) (span : Span) : Lowered Expr :=
  match Literal.integer? negate text with
  | some e => .ok e
  | none => .error (.invalidLiteral text span)

def lowerFloat (negate : Bool) (text : String) (span : Span) : Lowered Expr :=
  match Literal.float? negate text with
  | some e => .ok e
  | none => .error (.invalidLiteral text span)

def lowerString (text : String) (span : Span) : Lowered Expr :=
  match Quoted.read text.toList with
  | .ok value => .ok (.string (String.ofList value))
  | .error .malformed => .error (.invalidLiteral text span)
  | .error (.marked letters) => .error (.unsupported ("string prefix `" ++ letters ++ "`") span)
  | .error .namedEscape => .error (.unsupported "named unicode escape" span)

mutual

def attributeParts : Tree → Lowered (List String)
  | ⟨kind, span, text, _, children⟩ =>
    match kind with
    | .attributeAccess => do
      let last ← childAt kind span "attribute" children
      let parts ← required kind span "object" (objectParts children)
      .ok (parts ++ [last.text])
    | .identifier => .ok [text]
    | kind => .error (.unsupported ("attribute of " ++ kind.name) span)

def objectParts : List Tree → Option (Lowered (List String))
  | [] => none
  | child :: rest => if child.fills "object" then some (attributeParts child) else objectParts rest

end

def lowerAttribute (tree : Tree) : Lowered DottedName := do
  let parts ← attributeParts tree
  ofMalformed (DottedName.ofParts parts)

def lowerCallee (tree : Tree) : Lowered Name :=
  match tree.kind with
  | .identifier => .ok (.symbol (.plain tree.text))
  | .attributeAccess => (lowerAttribute tree).map .dotted
  | kind => .error (.unsupported ("call of " ++ kind.name) tree.span)

def callExpr (callee : Name) (args : List Expr) : Expr :=
  match callee with
  | .symbol s =>
    if s.name = "range" then (Resolve.call? "range" args).getD (.call callee args)
    else .call callee args
  | .dotted _ => .call callee args

def lowerOperator (accepts : BinaryOperator → Bool) (operator : Tree) : Lowered BinaryOperator :=
  match BinaryOperator.ofText? operator.text with
  | some op =>
    if accepts op then .ok op else .error (.unknownOperator operator.text operator.span)
  | none => .error (.unknownOperator operator.text operator.span)

def binaryExpr (accepts : BinaryOperator → Bool) (kind : Kind) (span : Span)
    (children : List Tree) (left? right? : Option (Lowered Expr)) : Lowered Expr := do
  let operator ← childAt kind span "operator" children
  let op ← lowerOperator accepts operator
  let left ← required kind span "left" left?
  let right ← required kind span "right" right?
  .ok (.binary op left right)

def comparisonOperators (children : List Tree) : Lowered (List BinaryOperator) :=
  (children.filter (·.isToken)).mapM (lowerOperator BinaryOperator.isComparison)

def pairwise : Expr → List (BinaryOperator × Expr) → List Expr
  | _, [] => []
  | left, (op, right) :: rest => .binary op left right :: pairwise right rest

/-- A chain of comparisons holds when all of them do; the conjunction groups to the left. -/
def chain? (operands : List Expr) (operators : List BinaryOperator) : Option Expr :=
  match operands with
  | [] => none
  | first :: others =>
    if others.length = operators.length then
      match pairwise first (operators.zip others) with
      | [] => none
      | comparison :: rest => some (rest.foldl (.binary .and) comparison)
    else none

structure SliceParts where
  start : Option Expr
  stop : Option Expr
  step : Option Expr

namespace SliceParts

def empty : SliceParts := ⟨none, none, none⟩

def fill (parts : SliceParts) (colons : Nat) (e : Expr) : SliceParts :=
  match colons with
  | 0 => { parts with start := some e }
  | 1 => { parts with stop := some e }
  | _ => { parts with step := some e }

def toExpr (parts : SliceParts) : Expr :=
  .slice parts.start parts.stop parts.step

end SliceParts

mutual

def lowerExpr : Tree → Lowered Expr
  | ⟨kind, span, text, field, children⟩ =>
    match kind with
    | .identifier => .ok (.symbol (.plain text))
    | .integer => lowerInteger false text span
    | .float => lowerFloat false text span
    | .string => lowerString text span
    | .trueLiteral => .ok (.boolean true)
    | .falseLiteral => .ok (.boolean false)
    | .noneLiteral => .ok .nil
    | .attributeAccess => (lowerAttribute ⟨kind, span, text, field, children⟩).map .dotted
    | .call => do
      let function ← childAt kind span "function" children
      let callee ← lowerCallee function
      let args ← required kind span "arguments" (argumentsAt children)
      .ok (callExpr callee args)
    | .subscript => do
      let base ← required kind span "value" (exprAt "value" children)
      let indices ← lowerIndices children
      ofMalformed (Expr.subscript base indices)
    | .binaryOperator =>
      binaryExpr BinaryOperator.isArithmetic kind span children (exprAt "left" children)
        (exprAt "right" children)
    | .booleanOperator =>
      binaryExpr BinaryOperator.isBoolean kind span children (exprAt "left" children)
        (exprAt "right" children)
    | .comparisonOperator => do
      let operands ← lowerNamed children
      let operators ← comparisonOperators children
      match chain? operands operators with
      | some e => .ok e
      | none => .error (.unsupported kind.name span)
    | .unaryOperator => do
      let operator ← childAt kind span "operator" children
      -- A missing argument is reported before a wrong operator.
      let _ ← childAt kind span "argument" children
      if operator.text = "-" then required kind span "argument" (negatedArgument children)
      else .error (.unknownOperator operator.text operator.span)
    | .notOperator => do
      let operand ← required kind span "argument" (exprAt "argument" children)
      .ok (.unary .not operand)
    | .parenthesized =>
      match firstNamed children with
      | some inner => inner
      | none => .error (.unsupported kind.name span)
    | .list | .tuple | .expressionList => (lowerNamed children).map .tuple
    | kind => .error (.unsupported kind.name span)

def exprAt (field : String) : List Tree → Option (Lowered Expr)
  | [] => none
  | child :: rest => if child.fills field then some (lowerExpr child) else exprAt field rest

def lowerNamed : List Tree → Lowered (List Expr)
  | [] => .ok []
  | child :: rest =>
    if child.isToken then lowerNamed rest
    else do
      let e ← lowerExpr child
      let others ← lowerNamed rest
      .ok (e :: others)

def firstNamed : List Tree → Option (Lowered Expr)
  | [] => none
  | child :: rest => if child.isToken then firstNamed rest else some (lowerExpr child)

def argumentsAt : List Tree → Option (Lowered (List Expr))
  | [] => none
  | child :: rest =>
    if child.fills "arguments" then some (lowerArguments child) else argumentsAt rest

def lowerArguments : Tree → Lowered (List Expr)
  | ⟨kind, span, _, _, children⟩ =>
    if kind = .argumentList then lowerNamed children else .error (.unsupported kind.name span)

def lowerIndices : List Tree → Lowered (List Expr)
  | [] => .ok []
  | child :: rest =>
    if child.fills "subscript" then do
      let index ← if child.kind = .slice then lowerSlice child else lowerExpr child
      let others ← lowerIndices rest
      .ok (index :: others)
    else lowerIndices rest

def lowerSlice : Tree → Lowered Expr
  | ⟨kind, span, _, _, children⟩ =>
    (sliceParts (.unsupported kind.name span) 0 .empty children).map SliceParts.toExpr

def sliceParts (refusal : LowerError) (colons : Nat) (parts : SliceParts) :
    List Tree → Lowered SliceParts
  | [] => .ok parts
  | child :: rest =>
    if child.isToken then
      sliceParts refusal (if child.text = ":" then colons + 1 else colons) parts rest
    else if colons < 3 then do
      let e ← lowerExpr child
      sliceParts refusal colons (parts.fill colons e) rest
    else .error refusal

def negatedArgument : List Tree → Option (Lowered Expr)
  | [] => none
  | child :: rest =>
    if child.fills "argument" then
      some <|
        -- The sign of a number literal becomes part of it.
        match child.kind with
        | .integer => lowerInteger true child.text child.span
        | .float => lowerFloat true child.text child.span
        | _ => (lowerExpr child).map (.unary .neg)
    else negatedArgument rest

end

end NumericPython.Lowering

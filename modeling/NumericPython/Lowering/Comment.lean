import NumericPython.Ast.Stmt
import NumericPython.Lowering.Expr
import NumericPython.Text.Blank

set_option autoImplicit false

namespace NumericPython.Lowering

def commentText (text : String) : String :=
  match text.toList with
  | '#' :: cs => String.ofList (Text.trim cs)
  | cs => String.ofList (Text.trim cs)

/-- The span of a part of a comment, given relative to the comment. -/
def shiftInto (comment part : Span) : Span :=
  let start := comment.start + part.start
  ⟨start, start + part.length⟩

def lowerPragma (frontEnd : FrontEnd) (text : String) (span : Span) : Lowered Stmt :=
  match frontEnd.directive text with
  | .error cause => .error (.directive cause span)
  | .ok tree =>
    match tree.child? "family" with
    | none => .error (.ofTree tree)
    | some family =>
      match PragmaFamily.ofName? family.text with
      | none =>
        .error (.unsupported ("`" ++ family.text ++ "` directive") (shiftInto span family.span))
      | some known =>
        -- A front end may fill the field with other nodes, which are no clauses.
        let clauses := (tree.childrenBy "clause").filter (·.kind == .directiveClause)
        .ok (.pragma known (clauses.map Tree.text))

def lowerComment (frontEnd : FrontEnd) (comment : Tree) : Lowered Stmt :=
  if comment.isPragma then lowerPragma frontEnd comment.text comment.span
  else .ok (.comment (commentText comment.text))

end NumericPython.Lowering

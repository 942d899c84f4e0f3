import NumericPython.Ast.Node
import NumericPython.Lowering.Stmt

set_option autoImplicit false

namespace NumericPython.Lowering

inductive Piece where
  | expression (tree : Tree)
  | statement (tree : Tree)
  | statements (trees : List Tree)
  | root (tree : Tree)

def Piece.lower (frontEnd : FrontEnd) : Piece → LowerM Node
  | expression tree => lift ((lowerExpr tree).map Node.expr)
  | statement tree => Node.stmt <$> lowerStmt frontEnd tree
  | statements trees => Node.block <$> lowerStmts frontEnd trees
  | root tree => Node.block <$> lowerRoot frontEnd tree

/-- The result of each piece and the import table behind it. -/
def perform (frontEnd : FrontEnd) :
    List Piece → StateM ImportTable (List (Lowered Node × ImportTable))
  | [] => pure []
  | piece :: rest => do
    let result ← (piece.lower frontEnd).run
    let table ← get
    let others ← perform frontEnd rest
    pure ((result, table) :: others)

end NumericPython.Lowering

import NumericPython.Ast.Stmt
import NumericPython.Printing.Expr
import NumericPython.Printing.Line

set_option autoImplicit false

namespace NumericPython.Printing

def openText : Expr → Printed String
  -- Tuples of two or more items need no parentheses at an end of a statement.
  | .tuple (first :: second :: rest) => (exprTexts (first :: second :: rest)).map commaSeparated
  | e => exprText e

def targetText (target : ImportTarget) : String :=
  match target.asName with
  | some other => target.name.text ++ " as " ++ other
  | none => target.name.text

def importText (item : Import) : String :=
  let targets := commaSeparated (item.targets.map targetText)
  match item.source with
  | some source => "from " ++ source.text ++ " import " ++ targets
  | none => "import " ++ targets

def commentLine (text : String) : String :=
  if text.isEmpty then "#" else "# " ++ text

def pragmaText (family : PragmaFamily) (clauses : List String) : String :=
  Text.joinWith " " ("#$" :: family.name :: clauses)

def parameterText : Parameter → Printed String
  | .plain argument => .ok argument.name
  | .valued argument default => (exprText default).map fun text => argument.name ++ "=" ++ text

def decoratorText (decorator : String × List Expr) : Printed String :=
  match decorator.2 with
  | [] => .ok ("@" ++ decorator.1)
  | args => (exprTexts args).map fun texts => "@" ++ callText decorator.1 texts

def isLayout : Stmt → Bool
  -- Comments and blank lines do nothing when a body runs.
  | .comment _ | .emptyLine => true
  | _ => false

def bodyLines (level : Nat) (body : List Stmt) (lines : List Line) : List Line :=
  if body.all isLayout then lines ++ [.text level "pass"] else lines

mutual

def stmtLines (level : Nat) : Stmt → Printed (List Line)
  | .assign target value => do
    let targetText ← openText target
    let valueText ← openText value
    .ok [.text level (targetText ++ " = " ++ valueText)]
  | .augAssign target op value => do
    let targetText ← exprText target
    let valueText ← exprText value
    .ok [.text level (targetText ++ " " ++ op.text ++ "= " ++ valueText)]
  | .returnValue value => do
    let text ← openText value
    .ok [.text level ("return " ++ text)]
  | .print items => do
    let texts ← exprTexts items
    .ok [.text level (callText "print" texts)]
  | .comment text => .ok [.text level (commentLine text)]
  | .pragma family clauses => .ok [.text level (pragmaText family clauses)]
  | .emptyLine => .ok [.blank]
  | .pass => .ok [.text level "pass"]
  | .importNames item => .ok [.text level (importText item)]
  | .conditional first rest otherwise => do
    let firstLines ← branchLines level "if " first
    let restLines ← elifLines level rest
    let elseLines ← elseLines level otherwise
    .ok (firstLines ++ restLines ++ elseLines)
  | .always body => do
    let lines ← stmtsLines (level + 1) body
    .ok (.text level "if True:" :: bodyLines (level + 1) body lines)
  | .forLoop target iterable body => do
    let targetText ← openText target.toExpr
    let iterableText ← exprText iterable
    let lines ← stmtsLines (level + 1) body
    .ok (.text level ("for " ++ targetText ++ " in " ++ iterableText ++ ":") ::
      bodyLines (level + 1) body lines)
  | .whileLoop condition body => do
    let text ← exprText condition
    let lines ← stmtsLines (level + 1) body
    .ok (.text level ("while " ++ text ++ ":") :: bodyLines (level + 1) body lines)
  | .functionDef definition => functionLines level definition
  | .classDef name _ methods => do
    let groups ← methodLines (level + 1) methods
    -- Attributes have no lines of their own.
    let lines :=
      if methods.isEmpty then [.text (level + 1) "pass"] else Line.separated groups
    .ok (.text level ("class " ++ name ++ ":") :: lines)
  | .expression value => do
    let text ← exprText value
    .ok [.text level text]

def stmtsLines (level : Nat) : List Stmt → Printed (List Line)
  | [] => .ok []
  | s :: rest => do
    let lines ← stmtLines level s
    let others ← stmtsLines level rest
    .ok (lines ++ others)

def branchLines (level : Nat) (keyword : String) : Branch → Printed (List Line)
  | ⟨condition, body⟩ => do
    let text ← exprText condition
    let lines ← stmtsLines (level + 1) body
    .ok (.text level (keyword ++ text ++ ":") :: bodyLines (level + 1) body lines)

def elifLines (level : Nat) : List Branch → Printed (List Line)
  | [] => .ok []
  | branch :: rest => do
    let lines ← branchLines level "elif " branch
    let others ← elifLines level rest
    .ok (lines ++ others)

def elseLines (level : Nat) : Option (List Stmt) → Printed (List Line)
  | none => .ok []
  | some body => do
    let lines ← stmtsLines (level + 1) body
    .ok (.text level "else:" :: bodyLines (level + 1) body lines)

def functionLines (level : Nat) : FunctionDef → Printed (List Line)
  | ⟨name, arguments, _, body, _, _, _, _, _, _, decorators⟩ => do
    let decoratorTexts ← decorators.entries.mapM decoratorText
    let parameterTexts ← arguments.mapM parameterText
    let lines ← stmtsLines (level + 1) body
    .ok (decoratorTexts.map (.text level) ++
      .text level ("def " ++ callText name parameterTexts ++ ":") ::
        bodyLines (level + 1) body lines)

def methodLines (level : Nat) : List FunctionDef → Printed (List (List Line))
  | [] => .ok []
  | method :: rest => do
    let lines ← functionLines level method
    let others ← methodLines level rest
    .ok (lines :: others)

end

end NumericPython.Printing

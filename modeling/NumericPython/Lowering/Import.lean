import NumericPython.Ast.Stmt
import NumericPython.Lowering.Expr

set_option autoImplicit false

namespace NumericPython.Lowering

def dottedParts : List Tree → Lowered (List String)
  | [] => .ok []
  | child :: rest =>
    if child.isToken then dottedParts rest
    else if child.kind = .identifier then (dottedParts rest).map (child.text :: ·)
    else .error (.ofTree child)

def lowerDottedName (tree : Tree) : Lowered Name := do
  let parts ← dottedParts tree.children
  ofMalformed (Name.ofParts parts)

def lowerTarget (tree : Tree) : Lowered ImportTarget :=
  match tree.kind with
  | .dottedName => (lowerDottedName tree).map (⟨·, none⟩)
  | .aliasedImport => do
    let path ← childAt tree.kind tree.span "name" tree.children
    let name ← lowerDottedName path
    let asName ← childAt tree.kind tree.span "alias" tree.children
    .ok ⟨name, some asName.text⟩
  | _ => .error (.ofTree tree)

def lowerTargets (tree : Tree) : Lowered (List ImportTarget) :=
  (tree.childrenBy "name").mapM lowerTarget

def lowerImport (tree : Tree) : Lowered Stmt := do
  let targets ← lowerTargets tree
  let item ← ofMalformed (Import.ofTargets none targets)
  .ok (.importNames item)

def lowerImportFrom (tree : Tree) : Lowered (Name × List ImportTarget) := do
  let path ← childAt tree.kind tree.span "module_name" tree.children
  if path.kind = .dottedName then
    match tree.namedChildren.find? (·.field.isNone) with
    | some wildcard => .error (.ofTree wildcard)
    | none => do
      let source ← lowerDottedName path
      let targets ← lowerTargets tree
      .ok (source, targets)
  else .error (.ofTree path)

def intrinsicBindings (source : Option Name) (targets : List ImportTarget) :
    List (String × IntrinsicFunction) :=
  targets.filterMap fun target =>
    (Resolve.import? source target.name).map fun (_, function) => (target.binding, function)

end NumericPython.Lowering

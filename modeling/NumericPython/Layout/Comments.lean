import NumericPython.Tree.Basic

set_option autoImplicit false

/-!
Comments in the header of a compound statement move into one of its bodies: to the front of the next
body if there is one, else to the end of the last body before them. A comment without any body is
left out.
-/

namespace NumericPython.Layout

def modifyFirst {α : Type} (p : α → Bool) (f : α → α) : List α → List α
  | [] => []
  | x :: xs => if p x then f x :: xs else x :: modifyFirst p f xs

def isBodyBlock (tree : Tree) : Bool :=
  tree.fills "body" && tree.kind == .block

def hasBody (tree : Tree) : Bool :=
  tree.kind == .block ||
    ((tree.kind == .functionDefinition || tree.kind == .classDefinition) &&
      (tree.child? "body").isSome)

def modifyBody (f : List Tree → List Tree) (tree : Tree) : Tree :=
  if tree.kind == .block then
    { tree with children := f tree.children }
  else
    { tree with
      children := modifyFirst isBodyBlock (fun b => { b with children := f b.children })
        tree.children }

/-- Puts a comment after the layout at the front of a body that starts before it. -/
def insertComment (comment : Tree) : List Tree → List Tree
  | [] => [comment]
  | child :: rest =>
    if (child.kind == .blankLine || child.kind == .comment) && child.span.start < comment.span.start
    then child :: insertComment comment rest
    else comment :: child :: rest

def insertComments (comments : List Tree) (body : List Tree) : List Tree :=
  comments.foldl (fun statements comment => insertComment comment statements) body

def appendToLastBody (comments nodes : List Tree) : List Tree :=
  (modifyFirst hasBody (modifyBody (· ++ comments)) nodes.reverse).reverse

/-- Walks through the children of a compound statement. `pending` holds the comments seen since the
last body, `done` the nodes passed so far. -/
def hoistComments (pending done : List Tree) : List Tree → List Tree
  | [] => if pending.isEmpty then done else appendToLastBody pending done
  | child :: rest =>
    if child.kind == .comment then
      hoistComments (pending ++ [child]) done rest
    else if hasBody child then
      hoistComments [] (done ++ [modifyBody (insertComments pending) child]) rest
    else
      hoistComments pending (done ++ [child]) rest

end NumericPython.Layout

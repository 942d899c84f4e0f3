import NumericPython.Layout.BlankRows
import NumericPython.Layout.Comments
import NumericPython.Tree.Raw

set_option autoImplicit false

/-!
From the raw tree of a source text to the concrete tree. Blank rows become nodes, comments stay only
where a statement can stand, and leaves lose what is below them.
-/

namespace NumericPython

namespace Layout

def lastRow (source : Source) (tree : RawTree) : Nat :=
  -- A line break at the very end of the node does not lead to another row.
  let first := source.rowAt tree.start
  let last := source.rowAt tree.stop
  if source.startsRow tree.stop && first < last then last - 1 else last

/-- The children of a node of the given kind, laid out. `opener` is the row where the token that
opens the node ends. -/
def arrange (source : Source) (kind : Kind) (opener : Option Nat) (nodes : List Placed) :
    List Tree :=
  match kind with
  | .root => withBlankLines source (some source.textRows) (some 0) nodes
  | .block => withBlankLines source none (opener.map (· + 1)) nodes
  | kind =>
    if kind.isCompound then hoistComments [] [] (nodes.map Placed.tree)
    else nodes.map Placed.tree

end Layout

namespace RawTree

mutual

/-- The concrete tree of a node. `opener` is the last row of the nearest sibling before it that is
no comment. -/
def convert (source : Source) (opener : Option Nat) : RawTree → Tree
  | ⟨name, field, start, stop, isNamed, _, _, children⟩ =>
    let kind := if isNamed then Kind.ofGrammar name else .token
    { kind
      span := .ofRange start stop
      text := source.slice start stop
      field
      children :=
        -- The text of a leaf says all, so that the parts of a string are of no use.
        if kind.isLeaf then []
        else Layout.arrange source kind opener
          (convertAll source kind.keepsComments none children) }

def convertAll (source : Source) (keepsComments : Bool) (opener : Option Nat) :
    List RawTree → List Layout.Placed
  | [] => []
  | tree :: rest =>
    if tree.isComment then
      -- A comment after a colon leaves the rows in front of the block to the block.
      let others := convertAll source keepsComments opener rest
      if keepsComments then
        ⟨source.rowAt tree.start, Layout.lastRow source tree, convert source opener tree⟩ :: others
      else others
    else
      ⟨source.rowAt tree.start, Layout.lastRow source tree, convert source opener tree⟩ ::
        convertAll source keepsComments (some (source.rowAt tree.stop)) rest

end

def toTree (source : Source) (tree : RawTree) : Tree :=
  { convert source none tree with field := none }

end RawTree

end NumericPython

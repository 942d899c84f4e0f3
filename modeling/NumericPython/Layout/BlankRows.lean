import NumericPython.Text.Row
import NumericPython.Tree.Basic

set_option autoImplicit false

namespace NumericPython.Layout

structure Placed where
  firstRow : Nat
  lastRow : Nat
  tree : Tree

def blankLine (start : Nat) : Tree :=
  .leaf .blankLine (.emptyAt (clampOffset start)) "" none

def blankLines (source : Source) (first last : Nat) : List Tree :=
  (source.blankStarts first last).map blankLine

/-- The trees of a level with one blank line for each blank row that stands before one of them, from
row `next` on, and after the last of them up to row `finish`. -/
def withBlankLines (source : Source) (finish : Option Nat) : Option Nat → List Placed → List Tree
  | next, [] =>
    match next, finish with
    | some first, some last => blankLines source first last
    | _, _ => []
  | next, node :: rest =>
    (match next with
      | some first => blankLines source first node.firstRow
      | none => []) ++
    node.tree :: withBlankLines source finish (some (node.lastRow + 1)) rest

end NumericPython.Layout

import NumericPython.Tree.Raw

set_option autoImplicit false

/-!
Listings of raw trees: one line for each node, a node before its children. A line holds the depth
of the node, where it starts and stops, its flags, its field and its name, with a tab between them.
-/

namespace NumericPython

namespace Listing

abbrev Forest := List (Nat × RawTree)

def fieldOf? (text : String) : Option String :=
  if text.isEmpty then none else some text

def Forest.attach (depth : Nat) (node : List RawTree → RawTree) (forest : Forest) : Forest :=
  let isBelow (entry : Nat × RawTree) : Bool := depth < entry.1
  (depth, node ((forest.takeWhile isBelow).map Prod.snd)) :: forest.dropWhile isBelow

def attachLine? (line : String) (forest : Forest) : Option Forest :=
  match line.splitOn "\t" with
  | [depth, start, stop, flags, field, kind] => do
    let isSet (flag : Char) : Bool := flags.toList.contains flag
    let depth ← depth.toNat?
    let start ← start.toNat?
    let stop ← stop.toNat?
    let node (children : List RawTree) : RawTree :=
      { kind, field := fieldOf? field, start, stop, isNamed := isSet 'n', isError := isSet 'e'
        isMissing := isSet 'm', children }
    some (forest.attach depth node)
  | _ => none

end Listing

def RawTree.ofListing? (text : String) : Option RawTree :=
  let lines := (text.splitOn "\n").filter (!·.isEmpty)
  match lines.foldrM Listing.attachLine? [] with
  | some [(_, tree)] => some tree
  | _ => none

end NumericPython

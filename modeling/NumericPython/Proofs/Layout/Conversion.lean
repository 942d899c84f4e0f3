import NumericPython.Layout.Convert
import NumericPython.Proofs.Layout.Reading
import NumericPython.Proofs.Tree.Nesting

set_option autoImplicit false

namespace NumericPython

open NumericPython.Layout

namespace RawTree

variable {source : Source} {opener : Option Nat} {tree : RawTree} {keeps : Bool}

theorem convert_eq (opener : Option Nat) (tree : RawTree) :
    convert source opener tree =
      { kind := tree.treeKind
        span := .ofRange tree.start tree.stop
        text := source.slice tree.start tree.stop
        field := tree.field
        children :=
          if tree.treeKind.isLeaf then []
          else arrange source tree.treeKind opener
            (convertAll source tree.treeKind.keepsComments none tree.children) } := by
  obtain ⟨kind, field, start, stop, isNamed, isError, isMissing, children⟩ := tree
  rw [convert]
  rfl

theorem convert_kind : (convert source opener tree).kind = tree.treeKind := by
  rw [convert_eq]

theorem convert_field : (convert source opener tree).field = tree.field := by
  rw [convert_eq]

theorem convert_span : (convert source opener tree).span = .ofRange tree.start tree.stop := by
  rw [convert_eq]

theorem convert_text :
    (convert source opener tree).text = source.slice tree.start tree.stop := by
  rw [convert_eq]

theorem children_of_leaf (leaf : tree.treeKind.isLeaf = true) :
    (convert source opener tree).children = [] := by
  rw [convert_eq, leaf]
  rfl

theorem children_convert (inner : tree.treeKind.isLeaf = false) :
    (convert source opener tree).children = arrange source tree.treeKind opener
      (convertAll source tree.treeKind.keepsComments none tree.children) := by
  rw [convert_eq, inner]
  rfl

section Level

def placed (source : Source) (opener : Option Nat) (tree : RawTree) : Placed :=
  ⟨source.rowAt tree.start, lastRow source tree, convert source opener tree⟩

@[simp] theorem convertAll_nil : convertAll source keeps opener [] = [] := by
  rw [convertAll]

theorem convertAll_cons (source : Source) (keeps : Bool) (opener : Option Nat) (tree : RawTree)
    (rest : List RawTree) :
    convertAll source keeps opener (tree :: rest) =
      if tree.isComment then
        if keeps then tree.placed source opener :: convertAll source keeps opener rest
        else convertAll source keeps opener rest
      else tree.placed source opener ::
        convertAll source keeps (some (source.rowAt tree.stop)) rest := by
  rw [convertAll]
  rfl

theorem raw_of_mem_convertAll {trees : List RawTree} {node : Tree}
    (member : node ∈ (convertAll source keeps opener trees).map Placed.tree) :
    ∃ tree ∈ trees, ∃ opener', node = convert source opener' tree := by
  induction trees generalizing opener with
  | nil => simp at member
  | cons tree rest ih =>
      have later {opener : Option Nat}
          (member : node ∈ (convertAll source keeps opener rest).map Placed.tree) :
          ∃ other ∈ tree :: rest, ∃ opener', node = convert source opener' other := by
        obtain ⟨other, inside, found⟩ := ih member
        exact ⟨other, .tail _ inside, found⟩
      rw [convertAll_cons] at member
      split at member
      · split at member
        · rcases List.mem_cons.1 member with rfl | member
          · exact ⟨tree, .head _, opener, rfl⟩
          · exact later member
        · exact later member
      · rcases List.mem_cons.1 member with rfl | member
        · exact ⟨tree, .head _, opener, rfl⟩
        · exact later member

theorem convert_mem_convertAll {trees : List RawTree} (member : tree ∈ trees)
    (other : tree.isComment = false) {opener : Option Nat} :
    ∃ opener', convert source opener' tree ∈
      (convertAll source keeps opener trees).map Placed.tree := by
  induction trees generalizing opener with
  | nil => cases member
  | cons first rest ih =>
      rw [convertAll_cons]
      rcases List.mem_cons.1 member with rfl | member
      · exact ⟨opener, by simp [other, placed]⟩
      · split
        · obtain ⟨opener', inside⟩ := @ih member opener
          split
          · exact ⟨opener', .tail _ inside⟩
          · exact ⟨opener', inside⟩
        · obtain ⟨opener', inside⟩ := @ih member (some (source.rowAt first.stop))
          exact ⟨opener', .tail _ inside⟩

end Level

section Arrange

variable {kind : Kind}

theorem arrange_compound (compound : kind.isCompound = true) (opener : Option Nat)
    (nodes : List Placed) :
    arrange source kind opener nodes = hoistComments [] [] (nodes.map Placed.tree) := by
  cases kind <;> simp_all [arrange, Kind.isCompound]

theorem arrange_other (compound : kind.isCompound = false) (holds : kind.holdsStatements = false)
    (opener : Option Nat) (nodes : List Placed) :
    arrange source kind opener nodes = nodes.map Placed.tree := by
  cases kind <;> simp_all [arrange, Kind.isCompound, Kind.holdsStatements]

theorem not_holdsStatements_of_compound (compound : kind.isCompound = true) :
    kind.holdsStatements = false := by
  cases kind <;> simp_all [Kind.isCompound, Kind.holdsStatements]

theorem not_leaf_of_arranged (arranged : kind.isCompound = true ∨ kind.holdsStatements = true) :
    kind.isLeaf = false := by
  cases kind <;> simp_all [Kind.isCompound, Kind.holdsStatements, Kind.isLeaf]

end Arrange

end RawTree

end NumericPython

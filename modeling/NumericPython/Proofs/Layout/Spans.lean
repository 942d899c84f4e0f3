import NumericPython.Proofs.Layout.Faithful
import NumericPython.Proofs.Lowering.Understood

set_option autoImplicit false

namespace NumericPython

open NumericPython.Tree NumericPython.Layout

theorem Source.covers_blank {source : Source} {first last start : Nat}
    (member : start ∈ source.blankStarts first last) : source.Covers start start "" := by
  obtain ⟨i, -, -, found⟩ := source.start_of_mem_blankStarts member
  have split : ∃ front back, source.chars = front ++ back ∧ 0 + Text.byteSize front = start := by
    rcases List.mem_cons.1 (List.mem_of_getElem? found) with rfl | member
    · exact ⟨[], source.chars, rfl, rfl⟩
    · exact Row.split_of_mem_breaks member
  obtain ⟨front, back, chars, rfl⟩ := split
  exact ⟨front, back, by simpa using chars, by simp, by simp⟩

def Tree.Stands (source : Source) (tree : Tree) : Prop :=
  ∀ node, tree.Within node → source.Covers node.span.start.toNat node.span.stop.toNat node.text

section Stands

variable {source : Source} {tree : Tree}

theorem Tree.stands_iff :
    tree.Stands source ↔
      source.Covers tree.span.start.toNat tree.span.stop.toNat tree.text ∧
        ∀ child ∈ tree.children, child.Stands source := by
  constructor
  · intro stands
    refine ⟨stands tree (.self tree), fun child member node within => ?_⟩
    exact stands node (.under member within)
  · rintro ⟨covers, below⟩ node within
    cases within with
    | self => exact covers
    | under member within => exact below _ member node within

theorem Tree.Stands.withChildren {children : List Tree} (stands : tree.Stands source)
    (below : ∀ child ∈ children, child.Stands source) :
    ({ tree with children } : Tree).Stands source :=
  stands_iff.2 ⟨(stands_iff.1 stands).1, below⟩

end Stands

namespace Layout

variable {source : Source} {tree : Tree} {nodes : List Tree}

theorem forall_modifyFirst {α : Type} {holds : α → Prop} {p : α → Bool} {f : α → α} {xs : List α}
    (keeps : ∀ x, holds x → holds (f x)) (each : ∀ x ∈ xs, holds x) :
    ∀ x ∈ modifyFirst p f xs, holds x := by
  induction xs with
  | nil => exact each
  | cons x rest ih =>
      rw [List.forall_mem_cons] at each
      rw [modifyFirst]
      split
      · exact List.forall_mem_cons.2 ⟨keeps x each.1, each.2⟩
      · exact List.forall_mem_cons.2 ⟨each.1, ih each.2⟩

theorem stands_modifyBody {f : List Tree → List Tree} (stands : tree.Stands source)
    (keeps : ∀ body : List Tree, (∀ node ∈ body, node.Stands source) →
      ∀ node ∈ f body, node.Stands source) :
    (modifyBody f tree).Stands source := by
  have inside (node : Tree) (stands : node.Stands source) :
      ({ node with children := f node.children } : Tree).Stands source :=
    stands.withChildren (keeps node.children (stands_iff.1 stands).2)
  rw [modifyBody]
  split
  · exact inside tree stands
  · exact stands.withChildren (forall_modifyFirst inside (stands_iff.1 stands).2)

theorem Receives.stands {before : Tree → Tree → Prop} {comments : List Tree} {changed : Tree}
    (receives : Receives before comments tree changed)
    (commentsStand : ∀ comment ∈ comments, comment.Stands source) (stands : tree.Stands source) :
    changed.Stands source := by
  induction receives with
  | unchanged => exact stands
  | front _ _ among _ ih =>
      refine stands_modifyBody ih fun body bodyStands node member => ?_
      rcases mem_insertComments.1 member with moved | own
      · exact commentsStand node (among node moved)
      · exact bodyStands node own
  | back _ _ among ih =>
      refine stands_modifyBody ih fun body bodyStands => List.forall_mem_append.2 ⟨bodyStands, ?_⟩
      exact fun comment member => commentsStand comment (among comment member)

theorem stands_hoistComments (stand : ∀ node ∈ nodes, node.Stands source) :
    ∀ node ∈ hoistComments [] [] nodes, node.Stands source := by
  intro changed member
  have anyOrder : nodes.Pairwise fun _ _ => True := List.pairwise_of_forall fun _ _ => trivial
  obtain ⟨tree, kept, receives⟩ := exists_left (receives_level anyOrder) member
  exact receives.stands (fun comment moved => stand comment (List.mem_filter.1 moved).1)
    (stand tree (List.mem_filter.1 kept).1)

variable {placed : List Placed}

theorem stands_rowsBetween (size : Text.byteSize source.chars < UInt32.size)
    {first last : Option Nat} : ∀ node ∈ rowsBetween source first last, node.Stands source := by
  intro node member
  unfold rowsBetween at member
  split at member
  next first last =>
    obtain ⟨start, blank, rfl⟩ := List.mem_map.1 member
    have covers := Source.covers_blank blank
    have offset : (clampOffset start).toNat = start :=
      clampOffset_toNat (Nat.lt_of_le_of_lt covers.stop_le size)
    apply stands_iff.2
    constructor
    · simpa [blankLine, Tree.leaf, Span.emptyAt, offset] using covers
    · simp [blankLine, Tree.leaf]
  next => cases member

theorem stands_withBlankLines (size : Text.byteSize source.chars < UInt32.size)
    (stand : ∀ node ∈ placed, node.tree.Stands source) {finish next : Option Nat} :
    ∀ node ∈ withBlankLines source finish next placed, node.Stands source := by
  induction placed generalizing next with
  | nil =>
      rw [withBlankLines_nil]
      exact stands_rowsBetween size
  | cons node rest ih =>
      rw [List.forall_mem_cons] at stand
      rw [withBlankLines_cons, List.forall_mem_append, List.forall_mem_cons]
      exact ⟨stands_rowsBetween size, stand.1, ih stand.2⟩

theorem stands_arrange (size : Text.byteSize source.chars < UInt32.size)
    (stand : ∀ node ∈ placed, node.tree.Stands source) (kind : Kind) (opener : Option Nat) :
    ∀ node ∈ arrange source kind opener placed, node.Stands source := by
  have trees : ∀ node ∈ placed.map Placed.tree, node.Stands source := List.forall_mem_map.2 stand
  unfold arrange
  split
  · exact stands_withBlankLines size stand
  · exact stands_withBlankLines size stand
  · split
    · exact stands_hoistComments trees
    · exact trees

end Layout

namespace RawTree

variable {source : Source} {tree : RawTree}

theorem stands_convert (size : Text.byteSize source.chars < UInt32.size)
    (lies : ∀ node, tree.Within node → node.Lies source) (opener : Option Nat) :
    (convert source opener tree).Stands source := by
  induction tree using RawTree.induction generalizing opener with
  | step tree ih =>
      have shown : ShownBy source tree (convert source opener tree) :=
        shownBy_convert size (lies tree (.self tree))
      apply stands_iff.2
      constructor
      · rw [shown.start, shown.stop]
        exact shown.text
      · by_cases leaf : tree.treeKind.isLeaf = true
        · simp [children_of_leaf leaf]
        · rw [children_convert (by simpa using leaf)]
          apply stands_arrange size
          intro node member
          obtain ⟨child, inside, opener', same⟩ := raw_of_mem_convertAll (List.mem_map_of_mem member)
          rw [same]
          exact ih child inside (fun node within => lies node (.under inside within)) opener'

theorem stands_toTree (size : Text.byteSize source.chars < UInt32.size)
    (lies : ∀ node, tree.Within node → node.Lies source) : (tree.toTree source).Stands source := by
  have stands := stands_iff.1 (stands_convert size lies none)
  exact stands_iff.2 ⟨stands.1, stands.2⟩

end RawTree

end NumericPython

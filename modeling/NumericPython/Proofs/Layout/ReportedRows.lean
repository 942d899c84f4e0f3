import NumericPython.Proofs.Layout.BlankPlaces

set_option autoImplicit false

namespace NumericPython

open NumericPython.Tree NumericPython.Layout

namespace RawTree

variable {source : Source}

/-- No row from behind the node in front of a block of the level down to the row where the block starts
is blank. -/
def BlocksApart (source : Source) (level : RawTree) : Prop :=
  ∀ part ∈ parts source none level.children, part.raw.treeKind = .block →
    ∀ row ∈ part.opener, source.blankStarts (row + 1) (source.rowAt part.raw.start + 1) = []

section Nodes

variable {tree : RawTree} {opener : Option Nat}

theorem blankPlaces_of_root (root : tree.treeKind = .root) :
    (convert source opener tree).blankPlaces = blankPlacesAmong (withBlankLines source
      (some source.textRows) (some 0) (convertAll source true none tree.children)) := by
  rw [blankPlaces_eq, children_convert (by rw [root]; rfl), root]
  rfl

theorem blankPlaces_of_block (block : tree.treeKind = .block) :
    (convert source opener tree).blankPlaces = blankPlacesAmong (withBlankLines source none
      (opener.map (· + 1)) (convertAll source true none tree.children)) := by
  rw [blankPlaces_eq, children_convert (by rw [block]; rfl), block]
  rfl

theorem comment_of_mem_convertAll {keeps : Bool} {trees : List RawTree} {node : Tree}
    (member : node ∈ (convertAll source keeps opener trees).map Placed.tree)
    (comment : Layout.isComment node = true) : blankPlacesAmong [node] = [] := by
  obtain ⟨raw, -, opener', rfl⟩ := raw_of_mem_convertAll member
  rw [Layout.isComment, convert_kind, beq_iff_eq] at comment
  rw [blankPlacesAmong_other (by rw [convert_kind, comment]; decide), blankPlaces_eq,
    children_of_leaf (by rw [comment]; rfl)]
  rfl

theorem blankPlaces_of_nodes (leaf : tree.treeKind.isLeaf = false)
    (holds : tree.treeKind.holdsStatements = false) :
    (convert source opener tree).blankPlaces = blankPlacesAmong
      ((convertAll source tree.treeKind.keepsComments none tree.children).map Placed.tree) := by
  rw [blankPlaces_eq, children_convert leaf]
  by_cases compound : tree.treeKind.isCompound = true
  · rw [arrange_compound compound]
    exact @collect_hoistComments _ blankPlaceSurvey _ fun node member =>
      comment_of_mem_convertAll member
  · rw [Bool.not_eq_true] at compound
    rw [arrange_other compound holds]

theorem blankPlaces_of_leaf (leaf : tree.treeKind.isLeaf = true) :
    (convert source opener tree).blankPlaces = [] := by
  rw [blankPlaces_eq, children_of_leaf leaf]
  rfl

theorem holdsStatements_iff {kind : Kind} :
    kind.holdsStatements = true ↔ kind = .root ∨ kind = .block := by
  simp [Kind.holdsStatements]

theorem mem_blankPlaces (size : Text.byteSize source.chars < UInt32.size) {place : Nat}
    (member : place ∈ (convert source opener tree).blankPlaces) :
    source.BlankAt place ∨
      ∃ part ∈ parts source none tree.children, place ∈ (part.tree source).blankPlaces := by
  by_cases leaf : tree.treeKind.isLeaf = true
  · rw [blankPlaces_of_leaf leaf] at member
    cases member
  · rw [Bool.not_eq_true] at leaf
    by_cases holds : tree.treeKind.holdsStatements = true
    · rcases holdsStatements_iff.1 holds with root | block
      · rw [blankPlaces_of_root root] at member
        exact mem_level size member
      · rw [blankPlaces_of_block block] at member
        exact mem_level size member
    · rw [Bool.not_eq_true] at holds
      rw [blankPlaces_of_nodes leaf holds] at member
      exact .inr (mem_nodes member)

theorem blankAt_of_mem (size : Text.byteSize source.chars < UInt32.size) {place : Nat}
    (member : place ∈ (convert source opener tree).blankPlaces) : source.BlankAt place := by
  induction tree using RawTree.induction generalizing opener with
  | step tree ih =>
      rcases mem_blankPlaces size member with blank | ⟨part, inside, found⟩
      · exact blank
      · exact ih part.raw (raw_mem_of_part inside) found

theorem BlocksApart.rowsIn_part (size : Text.byteSize source.chars < UInt32.size)
    (apart : tree.BlocksApart source) {part : NodePart}
    (member : part ∈ parts source none tree.children)
    (rows : RowsIn source (part.floor source + 1) (source.rowAt part.raw.stop)
      (part.tree source).blankPlaces) :
    RowsIn source (source.rowAt part.raw.start + 1) (source.rowAt part.raw.stop)
      (part.tree source).blankPlaces := by
  refine ⟨rows.sorted, fun place found => ?_, rows.upper⟩
  have lower := rows.lower place found
  unfold NodePart.floor at lower
  split at lower
  next block =>
    rcases opener : part.opener with _ | row
    · rwa [opener, Option.getD_none] at lower
    · rw [opener, Option.getD_some] at lower
      by_contra early
      -- The row would be a blank one in front of the block.
      obtain ⟨row', inside, blank, rfl⟩ := blankAt_of_mem size found
      have counted : row'.start ∈
          source.blankStarts (row + 1) (source.rowAt part.raw.start + 1) :=
        source.mem_blankStarts inside blank lower (by omega)
      rw [apart part member block row opener] at counted
      cases counted
  next => exact lower

theorem rowsIn_convert (size : Text.byteSize source.chars < UInt32.size) (nested : tree.Nested)
    (notRoot : ∀ node, tree.Within node → node.treeKind ≠ .root)
    (apart : ∀ node, tree.Kept node → node.treeKind.holdsStatements = true →
      node.BlocksApart source) (follows : (NodePart.mk tree opener).Follows source) :
    RowsIn source ((NodePart.mk tree opener).floor source + 1) (source.rowAt tree.stop)
      (convert source opener tree).blankPlaces := by
  induction tree using RawTree.induction generalizing opener with
  | step tree ih =>
      by_cases leaf : tree.treeKind.isLeaf = true
      · rw [blankPlaces_of_leaf leaf]
        exact .nil
      · rw [Bool.not_eq_true] at leaf
        have siblings := nested.2 tree (.self tree)
        have inner : ∀ part ∈ parts source none tree.children,
            RowsIn source (part.floor source + 1) (source.rowAt part.raw.stop)
              (part.tree source).blankPlaces := by
          intro part member
          have child := raw_mem_of_part member
          exact ih part.raw child (nested.child child)
            (fun node within => notRoot node (.under child within))
            (fun node kept => apart node (.under leaf child kept))
            (follows_of_mem siblings (by simp) part member)
        by_cases block : tree.treeKind = .block
        · -- A block reports the rows among its statements, from the row behind its opener on.
          have rows := apart tree (.self tree) (by rw [block]; rfl)
          have reached : ∀ row ∈ opener.map (· + 1), row ≤ source.rowAt tree.start + 1 := by
            intro row same
            obtain ⟨row', known, rfl⟩ := Option.map_eq_some_iff.1 same
            exact Nat.succ_le_succ (follows row' known)
          have ends : ∀ row ∈ (none : Option Nat), row ≤ source.rowAt tree.stop := by simp
          have level := rowsIn_level size siblings
            (fun part member => rows.rowsIn_part size member (inner part member)) reached ends
            (Nat.le_refl _)
          rw [blankPlaces_of_block block]
          refine level.widen ?_ (Nat.le_refl _)
          rw [NodePart.floor, if_pos block]
          cases opener <;> exact Nat.le_refl _
        · have holds : tree.treeKind.holdsStatements = false := by
            simp [Kind.holdsStatements, notRoot tree (.self tree), block]
          rw [blankPlaces_of_nodes leaf holds, NodePart.floor, if_neg block]
          exact rowsIn_nodes siblings (by simp) inner _

theorem inner_rowsIn (size : Text.byteSize source.chars < UInt32.size) (nested : tree.Nested)
    (onlyRoot : ∀ child ∈ tree.children, ∀ node, child.Within node → node.treeKind ≠ .root)
    (leaf : tree.treeKind.isLeaf = false)
    (apart : ∀ node, tree.Kept node → node.treeKind.holdsStatements = true →
      node.BlocksApart source) :
    ∀ part ∈ parts source none tree.children, RowsIn source (part.floor source + 1)
      (source.rowAt part.raw.stop) (part.tree source).blankPlaces := by
  intro part member
  have child := raw_mem_of_part member
  exact rowsIn_convert size (nested.child child) (onlyRoot part.raw child)
    (fun node kept => apart node (.under leaf child kept))
    (follows_of_mem (nested.2 tree (.self tree)) (by simp) part member)

theorem sorted_convert (size : Text.byteSize source.chars < UInt32.size) (nested : tree.Nested)
    (onlyRoot : ∀ child ∈ tree.children, ∀ node, child.Within node → node.treeKind ≠ .root)
    (apart : ∀ node, tree.Kept node → node.treeKind.holdsStatements = true →
      node.BlocksApart source) :
    ((convert source none tree).blankPlaces.map source.rowAt).Pairwise (· < ·) := by
  by_cases root : tree.treeKind = .root
  · have inner := inner_rowsIn size nested onlyRoot (by rw [root]; rfl) apart
    have ends : ∀ row ∈ some source.textRows, row ≤ source.rowAt tree.stop + source.textRows := by
      simp
    have reached : ∀ row ∈ some 0, row ≤ source.rowAt tree.start + 1 := by simp
    have within := fun part member => (apart tree (.self tree) (by rw [root]; rfl)).rowsIn_part size
      member (inner part member)
    rw [blankPlaces_of_root root]
    exact (rowsIn_level size (nested.2 tree (.self tree)) within reached ends
      (Nat.le_add_right _ _)).sorted
  · have follows : (NodePart.mk tree none).Follows source := by simp [NodePart.Follows]
    refine (rowsIn_convert size nested (fun node within => ?_) apart follows).sorted
    cases within with
    | self => exact root
    | under member within => exact onlyRoot _ member node within

theorem Nested.bounds {node : RawTree} (nested : tree.Nested) (within : tree.Within node) :
    tree.start ≤ node.start ∧ node.start ≤ node.stop ∧ node.stop ≤ tree.stop := by
  induction within with
  | self tree => exact ⟨Nat.le_refl _, nested.1, Nat.le_refl _⟩
  | @under tree child node member within ih =>
      obtain ⟨start, -, stop⟩ := (nested.2 tree (.self tree)).inside child member
      obtain ⟨start', ordered, stop'⟩ := ih (nested.child member)
      exact ⟨Nat.le_trans start start', ordered, Nat.le_trans stop' stop⟩

theorem not_comment_of_kept {level : RawTree} (kept : tree.Kept level)
    (holds : level.treeKind.holdsStatements = true) : tree.isComment = false := by
  rw [← Bool.not_eq_true]
  intro comment
  have leaf := isLeaf_of_isComment comment
  cases kept with
  | self => simp [not_leaf_of_arranged (.inr holds)] at leaf
  | under inner _ _ => simp [inner] at leaf

theorem le_lastRow {child node : RawTree} {place : Nat} (ordered : node.start ≤ node.stop)
    (stop : node.stop ≤ child.stop) (inside : child.stop ≤ Text.byteSize source.chars)
    (solid : node.start = node.stop → source.startsRow node.start = false)
    (upper : source.rowAt place ≤ lastRow source node) :
    source.rowAt place ≤ lastRow source child := by
  have stopRow := source.rowAt_mono stop
  have bound := (lastRow_bounds source ordered).2.1
  rw [lastRow]
  split
  next feed =>
    simp only [Bool.and_eq_true, decide_eq_true_eq] at feed
    by_contra beyond
    -- Only a node that ends with its child, where a row starts, reaches the row behind it.
    have same : node.stop = child.stop := by
      rcases Nat.lt_or_ge node.stop child.stop with early | late
      · have := source.rowAt_lt_of_startsRow early inside feed.1
        omega
      · omega
    have empty : node.start = node.stop := by
      rcases Nat.lt_or_ge node.start node.stop with wide | late
      · have spans := source.rowAt_lt_of_startsRow wide (same ▸ inside) (same ▸ feed.1)
        have last : lastRow source node = source.rowAt node.stop - 1 := by
          rw [lastRow]
          simp [same ▸ feed.1, spans]
        rw [same] at last
        omega
      · omega
    have starts := solid empty
    rw [empty, same, feed.1] at starts
    cases starts
  next => omega

theorem mem_part_of_mem (size : Text.byteSize source.chars < UInt32.size) (nested : tree.Nested)
    (covered : tree.stop ≤ Text.byteSize source.chars)
    (onlyRoot : ∀ child ∈ tree.children, ∀ node, child.Within node → node.treeKind ≠ .root)
    (apart : ∀ node, tree.Kept node → node.treeKind.holdsStatements = true →
      node.BlocksApart source) {level : RawTree} (kept : tree.Kept level)
    (holds : level.treeKind.holdsStatements = true) {part : NodePart}
    (member : part ∈ parts source none level.children)
    (solid : part.raw.start = part.raw.stop → source.startsRow part.raw.start = false) {place : Nat}
    (found : place ∈ (convert source opener tree).blankPlaces)
    (lower : source.rowAt part.raw.start ≤ source.rowAt place)
    (upper : source.rowAt place ≤ lastRow source part.raw) :
    place ∈ (part.tree source).blankPlaces := by
  -- The row is followed down to the level: it lies in each node on the way, so each reports it.
  induction tree using RawTree.induction generalizing opener with
  | step tree ih =>
      have leaf : tree.treeKind.isLeaf = false := by
        cases kept with
        | self => exact not_leaf_of_arranged (.inr holds)
        | under inner _ _ => exact inner
      have siblings := nested.2 tree (.self tree)
      have inner := inner_rowsIn size nested onlyRoot leaf apart
      have level_found {part : NodePart} (rows : tree.treeKind.holdsStatements = true)
          (member : part ∈ parts source none tree.children)
          (lower : source.rowAt part.raw.start ≤ source.rowAt place)
          (upper : source.rowAt place ≤ lastRow source part.raw) :
          place ∈ (part.tree source).blankPlaces := by
        have within := fun part member =>
          (apart tree (.self tree) rows).rowsIn_part size member (inner part member)
        rcases holdsStatements_iff.1 rows with root | block
        · rw [blankPlaces_of_root root] at found
          exact mem_part_of_level size siblings within found member lower upper
        · rw [blankPlaces_of_block block] at found
          exact mem_part_of_level size siblings within found member lower upper
      cases kept with
      | self => exact level_found holds member lower upper
      | @under _ child _ _ inside kept =>
          obtain ⟨around, here, rfl⟩ := exists_part source inside none
          have other := not_comment_of_kept kept holds
          have child := raw_mem_of_part here
          obtain ⟨start, -, stop⟩ := (nested.child child).bounds kept.within
          obtain ⟨start', ordered, stop'⟩ := (((nested.child child).2 level kept.within)).inside
            part.raw (raw_mem_of_part member)
          have startRow := source.rowAt_mono (Nat.le_trans start start')
          have childStop : around.raw.stop ≤ tree.stop := (siblings.inside _ child).2.2
          have reported : place ∈ (around.tree source).blankPlaces := by
            by_cases rows : tree.treeKind.holdsStatements = true
            · refine level_found rows here (Nat.le_trans startRow lower) ?_
              exact le_lastRow ordered (Nat.le_trans stop' stop) (by omega) solid upper
            · rw [Bool.not_eq_true] at rows
              rw [blankPlaces_of_nodes leaf rows] at found
              refine mem_part_of_nodes siblings (by simp) inner found here other
                (Nat.le_trans startRow lower) ?_
              have := (lastRow_bounds source ordered).2.1
              have := source.rowAt_mono (Nat.le_trans stop' stop)
              omega
          exact ih around.raw child (nested.child child) (by omega)
            (fun below inside node within => onlyRoot _ child node (.under inside within))
            (fun node kept => apart node (.under leaf child kept)) kept reported

end Nodes

end RawTree

end NumericPython

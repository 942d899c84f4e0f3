import NumericPython.Proofs.Layout.ReportedRows
import NumericPython.Proofs.Tree.Induction

set_option autoImplicit false

namespace NumericPython

open NumericPython.Tree NumericPython.Layout

namespace RawTree

variable {source : Source}

/-- The nodes of a level from the first part on, with the blank rows between the parts. -/
inductive Gapped (source : Source) : List NodePart → List Tree → Prop
  | last {part : NodePart} {back : List Tree} (fillers : ∀ tree ∈ back, IsFiller tree) :
      Gapped source [part] (part.tree source :: back)
  | next {part other : NodePart} {rest : List NodePart} {nodes : List Tree}
      (others : Gapped source (other :: rest) nodes) :
      Gapped source (part :: other :: rest) (part.tree source ::
        (blankLines source (lastRow source part.raw + 1) (source.rowAt other.raw.start) ++ nodes))

/-- The nodes of a level, layout in front of the first part included. -/
def SetOut (source : Source) (parts : List NodePart) (nodes : List Tree) : Prop :=
  ∃ front rest, nodes = front ++ rest ∧ (∀ tree ∈ front, IsFiller tree) ∧
    (parts = [] ∧ rest = [] ∨ Gapped source parts rest)

theorem Gapped.head {part : NodePart} {rest : List NodePart} {nodes : List Tree}
    (gapped : Gapped source (part :: rest) nodes) : ∃ more, nodes = part.tree source :: more := by
  cases gapped with
  | last => exact ⟨_, rfl⟩
  | next => exact ⟨_, rfl⟩

theorem Gapped.tail {part : NodePart} {rest : List NodePart} {nodes : List Tree}
    (gapped : Gapped source (part :: rest) nodes) (some_other : rest ≠ []) :
    ∃ ahead more, nodes = ahead ++ more ∧ Gapped source rest more := by
  cases gapped with
  | last => exact absurd rfl some_other
  | next others => exact ⟨part.tree source :: blankLines source _ _, _, rfl, others⟩

theorem Gapped.append {parts : List NodePart} {nodes comments : List Tree}
    (gapped : Gapped source parts nodes) (fillers : ∀ tree ∈ comments, IsFiller tree) :
    Gapped source parts (nodes ++ comments) := by
  induction gapped with
  | last known =>
      refine .last fun tree member => ?_
      exact (List.mem_append.1 member).elim (known tree) (fillers tree)
  | next others ih =>
      rw [List.cons_append, List.append_assoc]
      exact .next ih

theorem Gapped.between {before after : List NodePart} {part other : NodePart} {nodes : List Tree}
    (gapped : Gapped source (before ++ part :: other :: after) nodes) :
    ∃ front back, nodes = front ++ part.tree source ::
      (blankLines source (lastRow source part.raw + 1) (source.rowAt other.raw.start) ++
        other.tree source :: back) := by
  induction before generalizing nodes with
  | nil =>
      cases gapped with
      | next others =>
          obtain ⟨back, rfl⟩ := others.head
          exact ⟨[], back, rfl⟩
  | cons first before ih =>
      obtain ⟨ahead, more, rfl, others⟩ := gapped.tail (by simp)
      obtain ⟨front, back, rfl⟩ := ih others
      exact ⟨ahead ++ front, back, by rw [List.append_assoc]⟩

theorem SetOut.between {before after : List NodePart} {part other : NodePart} {nodes : List Tree}
    (setOut : SetOut source (before ++ part :: other :: after) nodes) :
    ∃ front back, nodes = front ++ part.tree source ::
      (blankLines source (lastRow source part.raw + 1) (source.rowAt other.raw.start) ++
        other.tree source :: back) := by
  obtain ⟨layout, rest, rfl, -, level⟩ := setOut
  rcases level with ⟨none, -⟩ | gapped
  · simp at none
  · obtain ⟨front, back, rfl⟩ := gapped.between
    exact ⟨layout ++ front, back, by rw [List.append_assoc]⟩

section Hoisting

variable {parts : List NodePart} {comments nodes : List Tree}

theorem SetOut.insertComments (setOut : SetOut source parts nodes)
    (fillers : ∀ tree ∈ comments, IsFiller tree)
    (early : ∀ comment ∈ comments, ∀ part ∈ parts, comment.place ≤ (part.tree source).place) :
    SetOut source parts (insertComments comments nodes) := by
  obtain ⟨front, rest, rfl, layout, level⟩ := setOut
  have layout' : ∀ tree ∈ Layout.insertComments comments front, IsFiller tree := fun tree member =>
    (mem_insertComments.1 member).elim (fillers tree) (layout tree)
  rcases level with ⟨rfl, rfl⟩ | gapped
  · refine ⟨Layout.insertComments comments front, [], ?_, layout', .inl ⟨rfl, rfl⟩⟩
    rw [List.append_nil, List.append_nil]
  · cases parts with
    | nil => cases gapped
    | cons part parts =>
        obtain ⟨more, rfl⟩ := gapped.head
        refine ⟨_, _, insertComments_append fun comment member first head => ?_, layout', .inr gapped⟩
        cases head
        exact bars_of_place_le (early comment member part (.head _))

theorem SetOut.append (setOut : SetOut source parts nodes)
    (fillers : ∀ tree ∈ comments, IsFiller tree) : SetOut source parts (nodes ++ comments) := by
  obtain ⟨front, rest, rfl, layout, level⟩ := setOut
  rcases level with ⟨rfl, rfl⟩ | gapped
  · refine ⟨front ++ comments, [], by simp, fun tree member => ?_, .inl ⟨rfl, rfl⟩⟩
    exact (List.mem_append.1 member).elim (layout tree) (fillers tree)
  · exact ⟨front, rest ++ comments, List.append_assoc .., layout, .inr (gapped.append fillers)⟩

end Hoisting

/-- The tree holds the node of a level, laid out. -/
def Holds (source : Source) (level : RawTree) (tree : Tree) : Prop :=
  ∃ node, tree.Within node ∧ node.kind = level.treeKind ∧
    node.span = .ofRange level.start level.stop ∧
    SetOut source (parts source none level.children) node.children

section Bodies

variable {level : RawTree} {tree : Tree} {f : List Tree → List Tree}

theorem Holds.of_child {child : Tree} (holds : Holds source level child)
    (member : child ∈ tree.children) : Holds source level tree := by
  obtain ⟨node, within, rest⟩ := holds
  exact ⟨node, .under member within, rest⟩

theorem mem_modifyFirst {p : Tree → Bool} {g : Tree → Tree} {nodes : List Tree}
    (member : tree ∈ nodes) :
    tree ∈ modifyFirst p g nodes ∨ p tree = true ∧ g tree ∈ modifyFirst p g nodes := by
  induction nodes with
  | nil => cases member
  | cons first rest ih =>
      rw [modifyFirst]
      split
      next holds =>
        rcases List.mem_cons.1 member with rfl | member
        · exact .inr ⟨holds, .head _⟩
        · exact .inl (.tail _ member)
      next =>
        rcases List.mem_cons.1 member with rfl | member
        · exact .inl (.head _)
        · rcases ih member with same | ⟨holds, inside⟩
          · exact .inl (.tail _ same)
          · exact .inr ⟨holds, .tail _ inside⟩

section Changes

variable (grows : ∀ nodes, ∀ node ∈ nodes, node ∈ f nodes)
  (keeps : ∀ nodes, SetOut source (parts source none level.children) nodes →
    SetOut source (parts source none level.children) (f nodes))

include grows keeps

theorem Holds.changed (holds : Holds source level tree) :
    Holds source level { tree with children := f tree.children } := by
  obtain ⟨node, within, kind, span, setOut⟩ := holds
  cases within with
  | self => exact ⟨_, .self _, kind, span, keeps _ setOut⟩
  | under member within => exact ⟨node, .under (grows _ _ member) within, kind, span, setOut⟩

theorem Holds.modifyBody (holds : Holds source level tree) (body : hasBody tree = true)
    (statements : level.treeKind.holdsStatements = true) :
    Holds source level (modifyBody f tree) := by
  rw [Layout.modifyBody]
  split
  next => exact holds.changed grows keeps
  next block =>
    obtain ⟨node, within, kind, span, setOut⟩ := holds
    cases within with
    | self =>
        -- A definition is no level itself.
        simp only [hasBody, Bool.or_eq_true, Bool.and_eq_true, beq_iff_eq] at body block
        rw [kind] at body block
        rcases holdsStatements_iff.1 statements with root | isBlock
        · simp [root] at body
        · exact absurd isBlock block
    | @under _ child _ member within =>
        have inner : Holds source level child := ⟨node, within, kind, span, setOut⟩
        rcases mem_modifyFirst (p := isBodyBlock)
          (g := fun b => { b with children := f b.children }) member with same | ⟨-, changed⟩
        · exact inner.of_child same
        · exact (inner.changed grows keeps).of_child changed

end Changes

theorem Holds.receives {comments : List Tree} {changed : Tree} (holds : Holds source level tree)
    (receives : Receives (fun a b => a.place ≤ b.place) comments tree changed)
    (statements : level.treeKind.holdsStatements = true)
    (fillers : ∀ comment ∈ comments, IsFiller comment)
    (early : ∀ part ∈ parts source none level.children, tree.place ≤ (part.tree source).place) :
    Holds source level changed := by
  -- Comments come in front of its first node or behind its last.
  induction receives with
  | unchanged => exact holds
  | front _ body among before ih =>
      refine ih.modifyBody ?_ ?_ body statements
      · exact fun _ _ inside => mem_insertComments.2 (.inr inside)
      · intro nodes setOut
        apply setOut.insertComments fun comment member => fillers comment (among comment member)
        exact fun comment member part own => Nat.le_trans (before comment member) (early part own)
  | back _ body among ih =>
      refine ih.modifyBody ?_ ?_ body statements
      · exact fun _ _ member => List.mem_append_left _ member
      · exact fun _ setOut => setOut.append fun comment member => fillers comment (among comment member)

theorem holds_hoistComments (statements : level.treeKind.holdsStatements = true)
    {nodes : List Tree}
    (leaves : ∀ node ∈ nodes, Layout.isComment node = true → node.children = [])
    (ordered : nodes.Pairwise fun a b => a.place ≤ b.place) (holds : Holds source level tree)
    (member : tree ∈ nodes) (other : Layout.isComment tree = false)
    (early : ∀ part ∈ parts source none level.children, tree.place ≤ (part.tree source).place) :
    ∃ tree ∈ hoistComments [] [] nodes, Holds source level tree := by
  have kept : tree ∈ nodes.filter (!Layout.isComment ·) :=
    List.mem_filter.2 ⟨member, by simp [other]⟩
  obtain ⟨changed, inside, receives⟩ := exists_right (receives_level ordered) kept
  exact ⟨changed, inside, holds.receives receives statements (fillers_of_leaves leaves) early⟩

end Bodies

section Conversion

variable {trees : List RawTree} {opener : Option Nat}

theorem gapped_withBlankLines (finish : Option Nat) (tree : RawTree) (rest : List RawTree) :
    Gapped source (parts source opener (tree :: rest))
      (convert source opener tree :: withBlankLines source finish
        (some (lastRow source tree + 1)) (convertAll source true
          (if tree.isComment then opener else some (source.rowAt tree.stop)) rest)) := by
  induction rest generalizing tree opener with
  | nil =>
      rw [convertAll, withBlankLines_nil]
      exact .last fun _ member => (isBlankLine_rowsBetween member).filler
  | cons other rest ih =>
      rw [convertAll_level, withBlankLines_cons]
      exact .next (ih other)

theorem setOut_withBlankLines (finish next : Option Nat) (trees : List RawTree) :
    SetOut source (parts source none trees)
      (withBlankLines source finish next (convertAll source true none trees)) := by
  cases trees with
  | nil =>
      rw [convertAll, withBlankLines_nil]
      refine ⟨_, [], (List.append_nil _).symm, ?_, .inl ⟨rfl, rfl⟩⟩
      exact fun _ member => (isBlankLine_rowsBetween member).filler
  | cons tree rest =>
      rw [convertAll_level, withBlankLines_cons]
      refine ⟨_, _, rfl, ?_, .inr (gapped_withBlankLines finish tree rest)⟩
      exact fun _ member => (isBlankLine_rowsBetween member).filler

theorem place_convert_le {first second : RawTree} (start : first.start ≤ second.start)
    (opener opener' : Option Nat) :
    (convert source opener first).place ≤ (convert source opener' second).place := by
  rw [convert_eq, convert_eq]
  change (clampOffset first.start).toNat ≤ (clampOffset second.start).toNat
  rw [clampOffset_toNat_eq, clampOffset_toNat_eq]
  omega

theorem ordered_convertAll {low high : Nat} (siblings : Siblings low high trees) (keeps : Bool) :
    ((convertAll source keeps opener trees).map Placed.tree).Pairwise
      fun a b => a.place ≤ b.place := by
  induction trees generalizing low opener with
  | nil => exact .nil
  | cons tree rest ih =>
      obtain ⟨start, ordered, others⟩ := siblings
      have first (opener opener' : Option Nat) :
          ∀ node ∈ (convertAll source keeps opener' rest).map Placed.tree,
            (convert source opener tree).place ≤ node.place := by
        intro node member
        obtain ⟨raw, inside, opener'', rfl⟩ := raw_of_mem_convertAll member
        exact place_convert_le (Nat.le_trans ordered (others.inside raw inside).1) _ _
      rw [convertAll_cons]
      split
      · split
        · exact List.pairwise_cons.2 ⟨first opener opener, ih others⟩
        · exact ih others
      · exact List.pairwise_cons.2 ⟨first opener _, ih others⟩

theorem holds_convert {tree level : RawTree} (nested : tree.Nested) (kept : tree.Kept level)
    (statements : level.treeKind.holdsStatements = true) (opener : Option Nat) :
    Holds source level (convert source opener tree) := by
  induction kept generalizing opener with
  | self tree =>
      refine ⟨_, .self _, convert_kind, by rw [convert_eq], ?_⟩
      rw [children_convert (not_leaf_of_arranged (.inr statements))]
      rcases holdsStatements_iff.1 statements with root | block
      · rw [root]
        exact setOut_withBlankLines _ _ _
      · rw [block]
        exact setOut_withBlankLines _ _ _
  | @under tree child level leaf member kept ih =>
      have inner := nested.child member
      have other := not_comment_of_kept kept statements
      obtain ⟨opener', inside⟩ := @convert_mem_convertAll source child
        tree.treeKind.keepsComments tree.children member other none
      have below := ih inner statements opener'
      have children := @children_convert source opener tree leaf
      by_cases compound : tree.treeKind.isCompound = true
      · -- The level is below a node whose comments move.
        rw [arrange_compound compound] at children
        have leaves : ∀ node ∈ (convertAll source tree.treeKind.keepsComments none
            tree.children).map Placed.tree, Layout.isComment node = true → node.children = [] := by
          intro node known comment
          obtain ⟨raw, -, opener, rfl⟩ := raw_of_mem_convertAll known
          rw [Layout.isComment, convert_kind, beq_iff_eq] at comment
          exact children_of_leaf (by rw [comment]; rfl)
        -- What the level owns starts no earlier than the child it is below.
        have early : ∀ part ∈ parts source none level.children,
            (convert source opener' child).place ≤ (part.tree source).place := by
          intro part own
          have start := ((inner.2 level kept.within).inside part.raw (raw_mem_of_part own)).1
          exact place_convert_le (Nat.le_trans (inner.bounds kept.within).1 start) _ _
        have noComment : Layout.isComment (convert source opener' child) = false := by
          rw [Layout.isComment, convert_kind]
          simpa using treeKind_ne_comment other
        have siblings := nested.2 tree (.self tree)
        obtain ⟨node, hoisted, holds⟩ := holds_hoistComments statements leaves
          (ordered_convertAll siblings _) below inside noComment early
        exact holds.of_child (by rwa [children])
      · -- Below any other node nothing moves: the child stays among the children.
        rw [Bool.not_eq_true] at compound
        refine below.of_child ?_
        rw [children]
        by_cases rows : tree.treeKind.holdsStatements = true
        · obtain ⟨node, known, same⟩ := List.mem_map.1 inside
          rcases holdsStatements_iff.1 rows with root | block
          · rw [root] at known ⊢
            rw [← same]
            exact mem_withBlankLines_of_mem known
          · rw [block] at known ⊢
            rw [← same]
            exact mem_withBlankLines_of_mem known
        · rw [Bool.not_eq_true] at rows
          rwa [arrange_other compound rows]

theorem holds_toTree {tree level : RawTree} (nested : tree.Nested) (kept : tree.Kept level)
    (statements : level.treeKind.holdsStatements = true) :
    Holds source level (tree.toTree source) := by
  obtain ⟨node, within, kind, span, setOut⟩ := holds_convert nested kept statements none
  cases within with
  | self => exact ⟨tree.toTree source, .self _, kind, span, setOut⟩
  | under member within => exact ⟨node, .under member within, kind, span, setOut⟩

end Conversion

end RawTree

open RawTree in
/-- Blank lines stand at the starts of blank rows, and neighbours in a level of the source have one for
each blank row between them and nothing else, wherever comments move. If blocks are apart from what
stands in front of them in a level, no row is reported twice, and a row inside a child of a level is
reported in this child, unless it is an empty one at the start of a row. -/
theorem blank_rows_reported_once (source : Source) (tree : RawTree)
    (size : Text.byteSize source.chars < UInt32.size)
    (covered : tree.stop ≤ Text.byteSize source.chars) (nested : tree.Nested)
    (onlyRoot : ∀ child ∈ tree.children, ∀ node, child.Within node → node.treeKind ≠ .root) :
    (∀ place ∈ (tree.toTree source).blankPlaces, source.BlankAt place) ∧
    (∀ level, tree.Kept level → level.treeKind.holdsStatements = true →
      ∃ node, (tree.toTree source).Within node ∧ node.kind = level.treeKind ∧
        node.span = .ofRange level.start level.stop ∧
        ∀ before part other after,
          parts source none level.children = before ++ part :: other :: after →
            ∃ front back, node.children = front ++ part.tree source ::
              (blankLines source (lastRow source part.raw + 1) (source.rowAt other.raw.start) ++
                other.tree source :: back)) ∧
    ((∀ level, tree.Kept level → level.treeKind.holdsStatements = true → level.BlocksApart source) →
      ((tree.toTree source).blankPlaces.map source.rowAt).Nodup ∧
      ∀ level, tree.Kept level → level.treeKind.holdsStatements = true →
        ∀ part ∈ parts source none level.children,
          (part.raw.start = part.raw.stop → source.startsRow part.raw.start = false) →
          ∀ place ∈ (tree.toTree source).blankPlaces,
            source.rowAt part.raw.start ≤ source.rowAt place →
            source.rowAt place ≤ lastRow source part.raw →
              place ∈ (part.tree source).blankPlaces) := by
  have places : (tree.toTree source).blankPlaces = (convert source none tree).blankPlaces := by
    rw [toTree, blankPlaces_eq, blankPlaces_eq]
  rw [places]
  refine ⟨fun place => blankAt_of_mem size, fun level kept statements => ?_, fun apart => ⟨?_, ?_⟩⟩
  · obtain ⟨node, within, kind, span, setOut⟩ := holds_toTree nested kept statements
    exact ⟨node, within, kind, span, fun before part other after same => by
      rw [same] at setOut
      exact setOut.between⟩
  · exact (sorted_convert size nested onlyRoot apart).imp Nat.ne_of_lt
  · intro level kept statements part member solid place found
    exact mem_part_of_mem size nested covered onlyRoot apart kept statements member solid found

namespace RawTree

instance {source : Source} : DecidablePred (BlocksApart source) := fun level =>
  inferInstanceAs (Decidable (∀ part ∈ parts source none level.children,
    part.raw.treeKind = .block → ∀ row ∈ part.opener,
      source.blankStarts (row + 1) (source.rowAt part.raw.start + 1) = []))

def statement (start stop : Nat) : RawTree :=
  named "expression_statement" none start stop [named "identifier" none start stop []]

def spacedBody : RawTree :=
  named "block" "consequence" 11 20 [statement 11 12, statement 19 20]

def spacedBlock : RawTree :=
  named "module" none 0 24
    [named "if_statement" none 0 20
      [token "if" 0 2, named "identifier" "condition" 3 4 [], token ":" 4 5, spacedBody],
     statement 22 23]

def spacedBlockSource : Source :=
  .ofString "if a:\n\n    b\n\n\n    c\n\nd\n"

end RawTree

open RawTree in
theorem spaced_block_rows_reported_once :
    (∀ place ∈ (spacedBlock.toTree spacedBlockSource).blankPlaces,
      spacedBlockSource.BlankAt place) ∧
    (∃ node, (spacedBlock.toTree spacedBlockSource).Within node ∧ node.kind = .block ∧
      ∃ front back, node.children = front ++ convert spacedBlockSource none (statement 11 12) ::
        (blankLines spacedBlockSource 3 5 ++
          convert spacedBlockSource (some 2) (statement 19 20) :: back)) ∧
    ((spacedBlock.toTree spacedBlockSource).blankPlaces.map spacedBlockSource.rowAt).Nodup ∧
    ∀ part ∈ parts spacedBlockSource none spacedBlock.children,
      ∀ place ∈ (spacedBlock.toTree spacedBlockSource).blankPlaces,
        spacedBlockSource.rowAt part.raw.start ≤ spacedBlockSource.rowAt place →
        spacedBlockSource.rowAt place ≤ lastRow spacedBlockSource part.raw →
          place ∈ (part.tree spacedBlockSource).blankPlaces := by
  obtain ⟨blank, gaps, once⟩ := blank_rows_reported_once spacedBlockSource spacedBlock
    (by decide +kernel) (by decide +kernel) (by decide +kernel) (by decide +kernel)
  have apart : ∀ node, spacedBlock.Within node → node.treeKind.holdsStatements = true →
      node.BlocksApart spacedBlockSource := by
    decide +kernel
  obtain ⟨distinct, inside⟩ := once fun level kept => apart level kept.within
  have solid : ∀ part ∈ parts spacedBlockSource none spacedBlock.children,
      part.raw.start ≠ part.raw.stop := by
    decide +kernel
  refine ⟨blank, ?_, distinct, fun part member => ?_⟩
  · have kept : spacedBlock.Kept spacedBody :=
      .under (by decide) (.head _)
        (.under (by decide) (.tail _ (.tail _ (.tail _ (.head _)))) (.self _))
    obtain ⟨node, within, kind, -, between⟩ := gaps spacedBody kept (by decide)
    exact ⟨node, within, kind, between [] ⟨statement 11 12, none⟩ ⟨statement 19 20, some 2⟩ [] rfl⟩
  · exact inside spacedBlock (.self _) (by decide) part member
      fun empty => absurd empty (solid part member)

namespace RawTree

def commentBehindBody : RawTree :=
  named "module" none 0 29
    [named "if_statement" none 0 28
      [token "if" 0 2, named "identifier" "condition" 3 4 [], token ":" 4 5,
       suite "consequence" 10 11, named "comment" none 13 16 [],
       named "else_clause" "alternative" 17 28
         [token "else" 17 21, token ":" 21 22, suite "body" 27 28]]]

def commentBehindBodySource : Source :=
  .ofString "if a:\n    b\n\n# c\nelse:\n    d\n"

def bareBlock : RawTree :=
  named "module" none 0 5 [statement 0 1, suite "body" 3 4]

def emptyBody : RawTree :=
  named "block" "consequence" 2 2 [statement 2 2]

def emptyStatement : RawTree :=
  named "module" none 0 5
    [named "if_statement" none 0 2 [named "identifier" none 0 1 [], emptyBody], statement 3 4]

def twoStatementsSource : Source :=
  .ofString "a\n\nb\n"

end RawTree

open RawTree in
/-- The comment moves into a body, behind a row that no level reports; the block reports the row in
front of it once more; and the row that the empty node stands on is reported by the module. -/
theorem levels_disagree_on_rows :
    (commentBehindBody.Nested ∧ commentBehindBodySource.blankStarts 2 3 = [12] ∧
      ∃ block ∈ (commentBehindBody.toTree commentBehindBodySource).children.flatMap Tree.children,
        block.kind = .block ∧
          block.children.map (fun child => (child.kind, commentBehindBodySource.rowAt child.place)) =
            [(.expressionStatement, 1), (.comment, 3)]) ∧
    (bareBlock.Nested ∧ ¬((bareBlock.toTree twoStatementsSource).blankPlaces.map
      twoStatementsSource.rowAt).Nodup) ∧
    emptyStatement.Nested ∧ ∃ part ∈ parts twoStatementsSource none emptyBody.children,
      ∃ place ∈ (emptyStatement.toTree twoStatementsSource).blankPlaces,
        twoStatementsSource.rowAt part.raw.start ≤ twoStatementsSource.rowAt place ∧
        twoStatementsSource.rowAt place ≤ lastRow twoStatementsSource part.raw ∧
        place ∉ (part.tree twoStatementsSource).blankPlaces := by
  refine ⟨⟨?_, ?_, ?_⟩, ⟨?_, ?_⟩, ?_, ?_⟩ <;> decide +kernel

end NumericPython

import NumericPython.Proofs.Layout.BlankRows
import NumericPython.Proofs.Layout.Conversion

set_option autoImplicit false

namespace NumericPython

open NumericPython.Tree NumericPython.Layout

namespace RawTree

variable (source : Source)

/-- A node keeps the places of what is below it: a module or a block counts no row twice, and a
compound statement has no comment that would pass a statement. -/
def KeepsPlaces (tree : RawTree) : Prop :=
  let nodes := convertAll source tree.treeKind.keepsComments none tree.children
  (tree.treeKind.holdsStatements = true →
    RowsOnce (withBlankLines source none none nodes)) ∧
  (tree.treeKind.isCompound = true →
    ¬CarriesForward (nodes.map Placed.tree) ∧ ¬CarriesBack (nodes.map Placed.tree))

/-- What is read in a node lies in the text of the node. The rows in front of a block belong to the
block, down to the offset where the node before it stops. -/
def Reads (tree : RawTree) : Prop :=
  ∀ offset : Option Nat, (∀ q, offset = some q → q ≤ tree.start) →
    (tree.treeKind = .block →
      Between (offset.getD tree.start) tree.stop
        (readings true (convert source (offset.map source.rowAt) tree).children) ∧
      Settled tree.start (convert source (offset.map source.rowAt) tree).children) ∧
    (tree.treeKind ≠ .block →
      Between tree.start tree.stop
        ((convert source (offset.map source.rowAt) tree).reading false))

structure Inner (tree : RawTree) : Prop where
  small : tree.stop < UInt32.size
  notRoot : tree.treeKind ≠ .root
  reads : tree.Reads source

variable {source}

theorem place_convert {opener : Option Nat} {tree : RawTree} (small : tree.start < UInt32.size) :
    (convert source opener tree).place = tree.start := by
  rw [convert_eq, place]
  exact clampOffset_toNat small

theorem reading_of_leaf {opener : Option Nat} {tree : RawTree}
    (leaf : tree.treeKind.isLeaf = true) : (convert source opener tree).reading false = [] := by
  rw [reading_inner, children_of_leaf leaf, readings_nil]

theorem Inner.between {tree : RawTree} {offset : Option Nat} {low : Nat}
    (inner : tree.Inner source) (start : low ≤ tree.start)
    (openers : ∀ q, offset = some q → q ≤ low) :
    Between (offset.getD low) tree.stop
      ((convert source (offset.map source.rowAt) tree).reading false) := by
  have early : ∀ q, offset = some q → q ≤ tree.start :=
    fun q same => Nat.le_trans (openers q same) start
  obtain ⟨block, other⟩ := inner.reads offset early
  by_cases kind : tree.treeKind = .block
  · rw [reading_inner, convert_kind, kind]
    refine (block kind).1.widen ?_ (Nat.le_refl _)
    cases offset with
    | none => exact start
    | some q => exact Nat.le_refl q
  · refine (other kind).widen ?_ (Nat.le_refl _)
    cases offset with
    | none => exact start
    | some q => exact early q rfl

theorem mem_reading_true {node tree : Tree} (read : node ∈ tree.reading true) :
    node = tree ∨ node ∈ tree.reading false := by
  rw [reading_eq, ← reading_inner, List.mem_append] at read
  refine read.imp_left fun read => ?_
  split at read
  · exact List.mem_singleton.1 read
  · cases read

theorem Inner.sits {tree : RawTree} {offset : Option Nat} {low : Nat} (inner : tree.Inner source)
    (start : low ≤ tree.start) (bound : tree.start ≤ tree.stop)
    (openers : ∀ q, offset = some q → q ≤ low) :
    Sits source low tree.stop (tree.placed source (offset.map source.rowAt)) := by
  have small := inner.small
  have place : (convert source (offset.map source.rowAt) tree).place = tree.start :=
    place_convert (Nat.lt_of_le_of_lt bound small)
  refine ⟨?_, ?_, small, ?_, Clear.after tree, fun x read => ?_, fun other x read => ?_⟩
  · exact Nat.le_trans start (Nat.le_of_eq place.symm)
  · exact Nat.le_trans (Nat.le_of_eq place) bound
  · rw [placed, place]
  · rcases mem_reading_true read with rfl | read
    · exact Nat.le_trans (Nat.le_of_eq place) bound
    · exact (inner.between start openers x read).2
  · have kind : tree.treeKind ≠ .block := by rwa [placed, convert_kind] at other
    rcases mem_reading_true read with rfl | read
    · exact Nat.le_refl _
    · have early : ∀ q, offset = some q → q ≤ tree.start :=
        fun q same => Nat.le_trans (openers q same) start
      rw [placed, place]
      exact ((inner.reads offset early).2 kind x read).1

section Level

variable {trees : List RawTree} {low high : Nat} {offset : Option Nat} {keeps : Bool}

theorem spaced_convertAll (siblings : Siblings low high trees)
    (inner : ∀ tree ∈ trees, tree.Inner source) (openers : ∀ q, offset = some q → q ≤ low) :
    Spaced source high low (convertAll source keeps (offset.map source.rowAt) trees) := by
  induction trees generalizing low offset with
  | nil => exact .nil siblings
  | cons tree rest ih =>
      simp only [List.mem_cons, forall_eq_or_imp] at inner
      obtain ⟨start, bound, others⟩ := siblings
      have openers' : ∀ q, offset = some q → q ≤ tree.stop := fun q same => by
        have := openers q same
        omega
      rw [convertAll_cons]
      split
      · split
        · exact .cons (inner.1.sits start bound openers) (ih others inner.2 openers')
        · exact ih (others.widen (by omega)) inner.2 openers
      · have later : Spaced source high tree.stop
            (convertAll source keeps ((some tree.stop).map source.rowAt) rest) :=
          ih others inner.2 fun q same => by cases same; exact Nat.le_refl _
        exact .cons (inner.1.sits start bound openers) later

theorem mem_convertAll {node : Placed} (siblings : Siblings low high trees)
    (openers : ∀ q, offset = some q → q ≤ low)
    (member : node ∈ convertAll source keeps (offset.map source.rowAt) trees) :
    ∃ tree ∈ trees, ∃ offset' : Option Nat,
      node = tree.placed source (offset'.map source.rowAt) ∧
      (∀ q, offset' = some q → q ≤ tree.start) ∧ offset.getD low ≤ offset'.getD tree.start := by
  induction trees generalizing low offset with
  | nil => cases member
  | cons tree rest ih =>
      obtain ⟨start, bound, others⟩ := siblings
      have first : (∀ q, offset = some q → q ≤ tree.start) ∧
          offset.getD low ≤ offset.getD tree.start := by
        refine ⟨fun q same => Nat.le_trans (openers q same) start, ?_⟩
        cases offset with
        | none => exact start
        | some q => exact Nat.le_refl q
      -- A comment that is dropped leaves the offset behind it where it was.
      have skip : node ∈ convertAll source keeps (offset.map source.rowAt) rest →
          ∃ tree' ∈ tree :: rest, ∃ offset' : Option Nat,
            node = tree'.placed source (offset'.map source.rowAt) ∧
            (∀ q, offset' = some q → q ≤ tree'.start) ∧
            offset.getD low ≤ offset'.getD tree'.start := by
        intro member
        obtain ⟨tree', inside, found⟩ := ih (others.widen (Nat.le_trans start bound)) openers member
        exact ⟨tree', .tail _ inside, found⟩
      rw [convertAll_cons] at member
      split at member
      · split at member
        · rcases List.mem_cons.1 member with rfl | member
          · exact ⟨tree, .head _, offset, rfl, first⟩
          · exact skip member
        · exact skip member
      · rcases List.mem_cons.1 member with rfl | member
        · exact ⟨tree, .head _, offset, rfl, first⟩
        · have later : node ∈ convertAll source keeps ((some tree.stop).map source.rowAt) rest :=
            member
          obtain ⟨tree', inside, offset', same, early, reach⟩ :=
            ih others (fun q same => by cases same; exact Nat.le_refl _) later
          refine ⟨tree', .tail _ inside, offset', same, early, Nat.le_trans ?_ reach⟩
          cases offset with
          | none => exact Nat.le_trans start bound
          | some q => exact Nat.le_trans (openers q rfl) (Nat.le_trans start bound)

theorem reads_convertAll (siblings : Siblings low high trees)
    (inner : ∀ tree ∈ trees, tree.Inner source) (openers : ∀ q, offset = some q → q ≤ low) :
    ∀ node ∈ convertAll source keeps (offset.map source.rowAt) trees,
      Between low high [node.tree] ∧ Between (offset.getD low) high (node.tree.reading false) := by
  intro node member
  obtain ⟨tree, inside, offset', rfl, early, reach⟩ := mem_convertAll siblings openers member
  obtain ⟨start, bound, stop⟩ := siblings.inside tree inside
  have small := (inner tree inside).small
  constructor
  · have place : (tree.placed source (offset'.map source.rowAt)).tree.place = tree.start :=
      place_convert (Nat.lt_of_le_of_lt bound small)
    intro x same
    rw [List.mem_singleton.1 same, place]
    omega
  · exact ((inner tree inside).between (Nat.le_refl _) early).widen reach stop

theorem leads_convertAll (siblings : Siblings low high trees)
    (inner : ∀ tree ∈ trees, tree.Inner source) :
    Leads source (convertAll source true none trees) := by
  cases trees with
  | nil => exact ⟨by simp [convertAll], by simp [convertAll]⟩
  | cons tree rest =>
      obtain ⟨start, bound, others⟩ := siblings
      have whole : Siblings tree.start high (tree :: rest) := ⟨Nat.le_refl _, bound, others⟩
      have none_early : ∀ q : Nat, (none : Option Nat) = some q → q ≤ tree.start := by simp
      have first : (convertAll source true none (tree :: rest)).head? =
          some (tree.placed source none) := by
        rw [convertAll_cons]
        split <;> rfl
      have place : (convert source none tree).place = tree.start :=
        place_convert (Nat.lt_of_le_of_lt bound (inner tree (.head _)).small)
      constructor
      · intro node same
        rw [first, Option.mem_some] at same
        rw [← same, placed, place]
      · intro node same block member kind x read
        rw [first, Option.mem_some] at same
        rw [← same, placed, place]
        obtain ⟨self, below⟩ :=
          @reads_convertAll source _ _ high none true whole inner none_early block member
        rcases mem_reading_true read with rfl | read
        · exact (self _ (.head _)).1
        · exact (below x read).1

theorem laid_convertAll {opener : Nat} (siblings : Siblings low high trees)
    (inner : ∀ tree ∈ trees, tree.Inner source) (openers : ∀ q, offset = some q → q ≤ low)
    (reach : ∀ q, offset = some q → opener ≤ q) (bound : opener ≤ low) :
    Laid opener low
      ((convertAll source keeps (offset.map source.rowAt) trees).map Placed.tree) := by
  induction trees generalizing low offset opener with
  | nil => exact .nil
  | cons tree rest ih =>
      simp only [List.mem_cons, forall_eq_or_imp] at inner
      obtain ⟨start, stop, others⟩ := siblings
      have small : tree.start < UInt32.size := Nat.lt_of_le_of_lt stop inner.1.small
      have place : (convert source (offset.map source.rowAt) tree).place = tree.start :=
        place_convert small
      have kind : (convert source (offset.map source.rowAt) tree).kind = tree.treeKind :=
        convert_kind
      have openers' : ∀ q, offset = some q → q ≤ tree.stop := fun q same => by
        have := openers q same
        omega
      rw [convertAll_cons]
      split
      next isComment =>
        have leaf := isLeaf_of_isComment isComment
        split
        · -- A kept comment: a comment of the layout, or a token that is read as nothing.
          have later := ih others inner.2 openers' reach (by omega)
          rcases treeKind_of_isComment isComment with comment | token
          · refine .comment ?_ (children_of_leaf leaf) (by rwa [placed, place])
              (by rwa [placed, place]) later
            simp [Layout.isComment, placed, kind, comment]
          · refine .silent ?_ ?_ (reading_of_leaf leaf) (Nat.le_trans start stop) later
            · simp [Layout.isComment, placed, kind, token]
            · simp [hasBody, placed, kind, token]
        · -- A comment that is dropped.
          exact ih (others.widen (by omega)) inner.2 openers reach bound
      next other =>
        have after : Laid tree.stop tree.stop
            ((convertAll source keeps ((some tree.stop).map source.rowAt) rest).map Placed.tree) :=
          ih others inner.2 (fun q same => by cases same; exact Nat.le_refl _)
            (fun q same => by cases same; exact Nat.le_refl _) (Nat.le_refl _)
        have early : ∀ q, offset = some q → q ≤ tree.start :=
          fun q same => Nat.le_trans (openers q same) start
        refine .node ?_ (by rwa [placed, place]) (by rwa [placed, place]) ?_ (fun body => ?_) after
        · simpa [Layout.isComment, placed, kind] using treeKind_ne_comment (by simpa using other)
        · refine (inner.1.between (Nat.le_refl _) early).widen ?_ (Nat.le_refl _)
          cases offset with
          | none => exact Nat.le_trans bound start
          | some q => exact reach q rfl
        · rw [placed, place]
          by_cases block : tree.treeKind = .block
          · have settled := ((inner.1.reads offset early).1 block).2
            simpa [bodyOf, afterBody, kind, block] using settled
          · exact settled_bodyOf body fun x read => ((inner.1.reads offset early).2 block x read).1

end Level

theorem between_convert {tree : RawTree} {opener : Option Nat} (nested : tree.Nested)
    (inner : ∀ child ∈ tree.children, child.Inner source)
    (holds : tree.treeKind.holdsStatements = false) :
    Between tree.start tree.stop ((convert source opener tree).reading false) := by
  by_cases leaf : tree.treeKind.isLeaf = true
  · rw [reading_of_leaf leaf]
    exact between_nil _ _
  · rw [Bool.not_eq_true] at leaf
    have siblings := nested.2 tree (.self tree)
    have nodes := @reads_convertAll source tree.children tree.start tree.stop none
      tree.treeKind.keepsComments siblings inner (by simp)
    rw [reading_inner, convert_kind, holds, children_convert leaf]
    by_cases compound : tree.treeKind.isCompound = true
    · rw [arrange_compound compound]
      intro x read
      have laid := @laid_convertAll source tree.children tree.start tree.stop none
        tree.treeKind.keepsComments tree.start siblings inner (by simp) (by simp) (Nat.le_refl _)
      rcases mem_readings_hoistComments laid.leaves read with own | read
      · obtain ⟨node, known, rfl⟩ := List.mem_map.1 own
        exact (nodes node known).1 _ (.head _)
      · obtain ⟨child, member, read⟩ := mem_readings.1 read
        obtain ⟨node, known, rfl⟩ := List.mem_map.1 member
        exact (nodes node known).2 x read
    · rw [Bool.not_eq_true] at compound
      rw [arrange_other compound holds]
      intro x read
      obtain ⟨child, member, read⟩ := mem_readings.1 read
      obtain ⟨node, known, rfl⟩ := List.mem_map.1 member
      exact (nodes node known).2 x read

theorem reads_of_inner {tree : RawTree} (nested : tree.Nested) (small : tree.stop < UInt32.size)
    (inner : ∀ child ∈ tree.children, child.Inner source) (notRoot : tree.treeKind ≠ .root) :
    tree.Reads source := by
  intro offset early
  constructor
  · intro block
    have siblings := nested.2 tree (.self tree)
    have keeps : tree.treeKind.keepsComments = true := by rw [block]; rfl
    have spaced : Spaced source tree.stop tree.start
        (convertAll source true none tree.children) :=
      @spaced_convertAll source tree.children tree.start tree.stop none true siblings inner
        (by simp)
    have leads := leads_convertAll siblings inner
    have start : tree.start < UInt32.size := Nat.lt_of_le_of_lt nested.1 small
    rw [children_convert (by rw [block]; rfl), keeps, block]
    refine ⟨between_withBlankLines spaced leads start ?_ ?_,
      settled_withBlankLines spaced leads start⟩
    · intro row same
      cases offset with
      | none => cases same
      | some q =>
          cases same
          exact Clear.of_rowAt_lt (Nat.lt_succ_self _)
    · cases offset with
      | none => exact Nat.le_refl _
      | some q => exact early q rfl
  · intro block
    refine between_convert nested inner ?_
    simp [Kind.holdsStatements, notRoot, block]

theorem inner_of_nested (tree : RawTree) (nested : tree.Nested) (small : tree.stop < UInt32.size)
    (notRoot : ∀ node, tree.Within node → node.treeKind ≠ .root) : tree.Inner source := by
  induction tree using RawTree.induction with
  | step tree ih =>
      have inside := (nested.2 tree (.self tree)).inside
      have inner : ∀ child ∈ tree.children, child.Inner source := by
        intro child member
        refine ih child member (nested.child member) ?_ fun node within =>
          notRoot node (.under member within)
        have := inside child member
        omega
      have kind := notRoot tree (.self tree)
      exact ⟨small, kind, reads_of_inner nested small inner kind⟩

theorem each_convertAll {p : RawTree → Prop} {keeps : Bool} {opener : Option Nat}
    {trees : List RawTree} (leaf : ∀ tree : RawTree, tree.treeKind.isLeaf = true → p tree)
    (each : ∀ tree ∈ trees, ∀ opener, InOrder ((convert source opener tree).reading false) ↔
      ∀ node, tree.Kept node → p node) :
    (∀ node ∈ convertAll source keeps opener trees, InOrder (node.tree.reading false)) ↔
      ∀ tree ∈ trees, ∀ node, tree.Kept node → p node := by
  induction trees generalizing opener with
  | nil => simp [convertAll]
  | cons tree rest ih =>
      simp only [List.mem_cons, forall_eq_or_imp] at each
      have rest_each (opener : Option Nat) :
          (∀ node ∈ convertAll source keeps opener rest, InOrder (node.tree.reading false)) ↔
            ∀ tree ∈ rest, ∀ node, tree.Kept node → p node := ih each.2
      rw [convertAll_cons]
      simp only [List.mem_cons, forall_eq_or_imp]
      split
      next isComment =>
        have isLeaf := isLeaf_of_isComment isComment
        have kept : ∀ node, tree.Kept node → p node :=
          kept_iff.2 ⟨leaf tree isLeaf, fun inner => by simp [isLeaf] at inner⟩
        split
        · simp only [List.mem_cons, forall_eq_or_imp, rest_each]
          exact and_congr_left fun _ => each.1 opener
        · rw [rest_each]
          exact ⟨fun all => ⟨kept, all⟩, fun all => all.2⟩
      next other =>
        simp only [List.mem_cons, forall_eq_or_imp, rest_each]
        exact and_congr_left fun _ => each.1 opener

theorem keepsPlaces_of_leaf {tree : RawTree} (leaf : tree.treeKind.isLeaf = true) :
    tree.KeepsPlaces source := by
  constructor
  · intro holds
    simp [not_leaf_of_arranged (.inr holds)] at leaf
  · intro compound
    simp [not_leaf_of_arranged (.inl compound)] at leaf

theorem inOrder_convert_level {tree : RawTree} {opener : Option Nat} (nested : tree.Nested)
    (inner : ∀ child ∈ tree.children, child.Inner source)
    (leaf : tree.treeKind.isLeaf = false) :
    InOrder ((convert source opener tree).reading false) ↔
      (∀ node ∈ convertAll source tree.treeKind.keepsComments none tree.children,
        InOrder (node.tree.reading false)) ∧ tree.KeepsPlaces source := by
  have siblings := nested.2 tree (.self tree)
  have mapped (nodes : List Placed) :
      (∀ tree ∈ nodes.map Placed.tree, InOrder (tree.reading false)) ↔
        ∀ node ∈ nodes, InOrder (node.tree.reading false) := by
    simp
  have laid := @laid_convertAll source tree.children tree.start tree.stop none
    tree.treeKind.keepsComments tree.start siblings inner (by simp) (by simp) (Nat.le_refl _)
  rw [reading_inner, convert_kind, children_convert leaf, KeepsPlaces]
  by_cases compound : tree.treeKind.isCompound = true
  · -- The comments of a compound statement move.
    have holds := not_holdsStatements_of_compound compound
    rw [holds, arrange_compound compound]
    have iff := inOrder_hoistComments_iff laid
    rw [Option.map_none, mapped] at iff
    simpa [compound] using iff
  · rw [Bool.not_eq_true] at compound
    by_cases holds : tree.treeKind.holdsStatements = true
    · -- Blank lines are put between the nodes of a level.
      have leads := leads_convertAll siblings inner
      have spaced := @spaced_convertAll source tree.children 0 tree.stop none true
        (siblings.widen (Nat.zero_le _)) inner (by simp)
      have clear (next : Option Nat) : ClearFrom source next 0 := fun row _ => Clear.zero row
      have level (finish next : Option Nat) (ends : AtEnd source finish) :=
        inOrder_withBlankLines_iff spaced leads ends (clear next) (by decide)
      have kinds : tree.treeKind = .root ∨ tree.treeKind = .block := by
        simpa [Kind.holdsStatements] using holds
      rcases kinds with kind | kind
      · have root := level (some source.textRows) (some 0) (.inr rfl)
        simpa [kind, Kind.holdsStatements, Kind.isCompound, Kind.keepsComments, arrange] using root
      · have block := level none (opener.map (· + 1)) (.inl rfl)
        simpa [kind, Kind.holdsStatements, Kind.isCompound, Kind.keepsComments, arrange] using block
    · -- All other nodes keep their children as they stand.
      rw [Bool.not_eq_true] at holds
      have each := (laid.each_inOrder (Nat.le_refl _)).1
      rw [Option.map_none, mapped] at each
      rw [holds, arrange_other compound holds, each]
      simp [compound]

theorem inOrder_convert_iff (tree : RawTree) (nested : tree.Nested)
    (small : tree.stop < UInt32.size)
    (notRoot : ∀ child ∈ tree.children, ∀ node, child.Within node → node.treeKind ≠ .root)
    (opener : Option Nat) :
    InOrder ((convert source opener tree).reading false) ↔
      ∀ node, tree.Kept node → node.KeepsPlaces source := by
  induction tree using RawTree.induction generalizing opener with
  | step tree ih =>
      have inside := (nested.2 tree (.self tree)).inside
      have stops : ∀ child ∈ tree.children, child.stop < UInt32.size := by
        intro child member
        have := inside child member
        omega
      have inner : ∀ child ∈ tree.children, child.Inner source := fun child member =>
        inner_of_nested child (nested.child member) (stops child member) (notRoot child member)
      have each : ∀ child ∈ tree.children, ∀ opener,
          InOrder ((convert source opener child).reading false) ↔
            ∀ node, child.Kept node → node.KeepsPlaces source := fun child member =>
        ih child member (nested.child member) (stops child member) fun below inside node within =>
          notRoot child member node (.under inside within)
      by_cases leaf : tree.treeKind.isLeaf = true
      · rw [reading_of_leaf leaf, kept_iff]
        have self : tree.KeepsPlaces source := keepsPlaces_of_leaf leaf
        simp [InOrder, leaf, self]
      · rw [Bool.not_eq_true] at leaf
        rw [inOrder_convert_level nested inner leaf,
          each_convertAll (fun _ => keepsPlaces_of_leaf) each, kept_iff, and_comm]
        simp [leaf]

end RawTree

/-- The concrete tree of a source text reads in the order of the source exactly if no comment in the
header of a compound statement moves past a statement, and no block that stands by itself counts
rows that were counted in front of it. -/
theorem tree_reads_in_source_order_iff (source : Source) (tree : RawTree)
    (size : Text.byteSize source.chars < UInt32.size)
    (covered : tree.stop ≤ Text.byteSize source.chars) (nested : tree.Nested)
    (onlyRoot : ∀ child ∈ tree.children, ∀ node, child.Within node → node.treeKind ≠ .root) :
    InOrder ((tree.toTree source).reading false) ↔
      ∀ node, tree.Kept node → node.KeepsPlaces source := by
  have small : tree.stop < UInt32.size := Nat.lt_of_le_of_lt covered size
  rw [← RawTree.inOrder_convert_iff tree nested small onlyRoot none, RawTree.toTree, reading_inner,
    reading_inner]

namespace RawTree

def token (text : String) (start stop : Nat) : RawTree :=
  ⟨text, none, start, stop, false, false, false, []⟩

def named (kind : String) (field : Option String) (start stop : Nat) (children : List RawTree) :
    RawTree :=
  ⟨kind, field, start, stop, true, false, false, children⟩

def suite (field : String) (start stop : Nat) : RawTree :=
  named "block" field start stop
    [named "expression_statement" none start stop [named "identifier" none start stop []]]

def commentBehindElif : RawTree :=
  named "module" none 0 42
    [named "if_statement" none 0 41
      [token "if" 0 2, named "identifier" "condition" 3 4 [], token ":" 4 5,
       suite "consequence" 10 11,
       named "elif_clause" "alternative" 12 25
         [token "elif" 12 16, named "identifier" "condition" 17 18 [], token ":" 18 19,
          suite "consequence" 24 25],
       named "comment" none 26 29 [],
       named "else_clause" "alternative" 30 41
         [token "else" 30 34, token ":" 34 35, suite "body" 40 41]]]

def commentBehindElifSource : Source :=
  .ofString "if a:\n    b\nelif c:\n    d\n# e\nelse:\n    f\n"

end RawTree

open RawTree in
/-- The comment goes to the end of the first block, past the statement of the elif clause. -/
theorem comment_behind_elif_passes_statement :
    ¬InOrder ((commentBehindElif.toTree commentBehindElifSource).reading false) ∧
      ¬∀ node, commentBehindElif.Kept node → node.KeepsPlaces commentBehindElifSource := by
  have order : ¬InOrder ((commentBehindElif.toTree commentBehindElifSource).reading false) := by
    decide +kernel
  refine ⟨order, fun keeps => order ?_⟩
  exact (tree_reads_in_source_order_iff commentBehindElifSource commentBehindElif
    (by decide +kernel) (by decide +kernel) (by decide +kernel) (by decide +kernel)).2 keeps

end NumericPython

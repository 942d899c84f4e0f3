import NumericPython.Proofs.Layout.Contents
import NumericPython.Proofs.Layout.SourceOrder
import NumericPython.Proofs.Text.Slices
import Mathlib.Data.List.Perm.Basic

set_option autoImplicit false

namespace NumericPython

open NumericPython.Tree NumericPython.Layout

namespace RawTree

mutual

/-- The node without the comments below it and without what is below a leaf. -/
def trimmed : RawTree → RawTree
  | ⟨kind, field, start, stop, isNamed, isError, isMissing, children⟩ =>
    ⟨kind, field, start, stop, isNamed, isError, isMissing,
      if (if isNamed then Kind.ofGrammar kind else .token).isLeaf then [] else trimmedAll children⟩

def trimmedAll : List RawTree → List RawTree
  | [] => []
  | tree :: rest => if tree.isComment then trimmedAll rest else trimmed tree :: trimmedAll rest

end

mutual

/-- The comments below a node whose parent is a module, a block or a compound statement. -/
def standingComments : RawTree → List RawTree
  | ⟨kind, _, _, _, isNamed, _, _, children⟩ =>
    let own := if isNamed then Kind.ofGrammar kind else .token
    if own.isLeaf then [] else standingAmong own.keepsComments children

def standingAmong (keeps : Bool) : List RawTree → List RawTree
  | [] => []
  | tree :: rest =>
    (if tree.isComment && keeps then [tree] else []) ++
      (standingComments tree ++ standingAmong keeps rest)

end

/-- A concrete node shows a raw one: it has its kind, its field, its place and its text. -/
structure ShownBy (source : Source) (raw : RawTree) (tree : Tree) : Prop where
  kind : tree.kind = raw.treeKind
  field : tree.field = raw.field
  start : tree.span.start.toNat = raw.start
  stop : tree.span.stop.toNat = raw.stop
  text : source.Covers raw.start raw.stop tree.text

mutual

/-- Two trees agree node by node. -/
def Mirrors (source : Source) : RawTree → Tree → Prop
  | ⟨kind, field, start, stop, isNamed, isError, isMissing, children⟩, tree =>
    ShownBy source ⟨kind, field, start, stop, isNamed, isError, isMissing, children⟩ tree ∧
      MirrorsAll source children tree.children

def MirrorsAll (source : Source) : List RawTree → List Tree → Prop
  | [], trees => trees = []
  | raw :: rest, trees =>
    ∃ tree others, trees = tree :: others ∧ Mirrors source raw tree ∧ MirrorsAll source rest others

end

def Lies (source : Source) (tree : RawTree) : Prop :=
  -- The node covers whole characters of the source.
  tree.start ≤ tree.stop ∧ tree.stop ≤ Text.byteSize source.chars ∧
    Text.isBoundary tree.start source.chars = true ∧ Text.isBoundary tree.stop source.chars = true

def fillsBody (tree : RawTree) : Bool :=
  tree.field == some "body"

def isFullDefinition (tree : RawTree) : Bool :=
  (tree.treeKind == .functionDefinition || tree.treeKind == .classDefinition) &&
    tree.children.any fillsBody

/-- A compound statement has a block among its children, a decorated definition at least the
definition. -/
def HoldsBlock (tree : RawTree) : Prop :=
  tree.treeKind.isCompound = true →
    tree.children.any (·.treeKind == .block) = true ∨
      (tree.treeKind = .decoratedDefinition ∧ tree.children.any isFullDefinition = true)

structure WellFormed (source : Source) (tree : RawTree) : Prop where
  lies : ∀ node, tree.Within node → node.Lies source
  blocks : ∀ node, tree.Within node → node.HoldsBlock
  bodies : ∀ node, tree.Within node → node.fillsBody = true → node.treeKind = .block
  comments : ∀ node, tree.Within node → node.isComment = true → node.isNamed = true

section Nodes

variable {source : Source} {tree : RawTree} {opener : Option Nat}

theorem WellFormed.child {child : RawTree} (formed : tree.WellFormed source)
    (member : child ∈ tree.children) : child.WellFormed source where
  lies node within := formed.lies node (.under member within)
  blocks node within := formed.blocks node (.under member within)
  bodies node within := formed.bodies node (.under member within)
  comments node within := formed.comments node (.under member within)

theorem treeKind_ne_blankLine (tree : RawTree) : tree.treeKind ≠ .blankLine := by
  have none_blank : ∀ kind ∈ Kind.ofGrammarNamed, kind ≠ .blankLine := by decide
  rw [treeKind]
  split
  · unfold Kind.ofGrammar
    split
    · simp
    · simp
    · simp
    · rcases found : Kind.ofGrammarNamed.find? (·.name == tree.kind) with _ | kind
      · rw [found, Option.getD_none]
        simp
      · rw [found, Option.getD_some]
        exact none_blank kind (List.mem_of_find?_eq_some found)
  · simp

theorem treeKind_comment (named : tree.isComment = true → tree.isNamed = true) :
    tree.treeKind = .comment ↔ tree.isComment = true := by
  constructor
  · intro kind
    rcases comment : tree.isComment with _ | _
    · exact absurd kind (treeKind_ne_comment comment)
    · rfl
  · intro comment
    rw [treeKind, named comment, if_pos rfl]
    have name : tree.kind = "comment" := eq_of_beq comment
    rw [name]
    decide

theorem shownBy_convert (size : Text.byteSize source.chars < UInt32.size)
    (lies : tree.Lies source) : ShownBy source tree (convert source opener tree) := by
  obtain ⟨le, inside, first, second⟩ := lies
  rw [convert_eq]
  constructor
  · rfl
  · rfl
  · exact clampOffset_toNat (by omega)
  · exact clampOffset_toNat (by omega)
  · exact Source.covers_slice le first second

theorem trimmed_eq (tree : RawTree) :
    tree.trimmed = { tree with
      children := if tree.treeKind.isLeaf then [] else trimmedAll tree.children } := by
  cases tree
  rw [trimmed]
  rfl

theorem standingComments_eq (tree : RawTree) :
    tree.standingComments =
      if tree.treeKind.isLeaf then []
      else standingAmong tree.treeKind.keepsComments tree.children := by
  cases tree
  rw [standingComments]
  rfl

theorem mirrors_iff {raw : RawTree} {tree : Tree} :
    Mirrors source raw tree ↔
      ShownBy source raw tree ∧ MirrorsAll source raw.children tree.children := by
  cases raw
  rw [Mirrors]

end Nodes

section Nodes

variable {source : Source} {tree : RawTree} {opener : Option Nat} {keeps : Bool}

theorem withoutLayouts_arrange (kind : Kind) (nodes : List Placed) :
    withoutLayouts (arrange source kind opener nodes) = withoutLayouts (nodes.map Placed.tree) := by
  by_cases compound : kind.isCompound = true
  · rw [arrange_compound compound, withoutLayouts_hoistComments]
  · cases kind with
    | root => exact (contents_withBlankLines ..).1
    | block => exact (contents_withBlankLines ..).1
    | _ => simp_all [arrange, Kind.isCompound]

theorem commentsAmong_arrange {kind : Kind} (simple : kind.isCompound = false)
    (nodes : List Placed) :
    commentsAmong (arrange source kind opener nodes) = commentsAmong (nodes.map Placed.tree) := by
  cases kind with
  | root => exact (contents_withBlankLines ..).2
  | block => exact (contents_withBlankLines ..).2
  | _ => simp_all [arrange, Kind.isCompound]

theorem mirrorsAll_convertAll {trees : List RawTree}
    (named : ∀ tree ∈ trees, tree.isComment = true → tree.isNamed = true)
    (each : ∀ tree ∈ trees, ∀ opener,
      Mirrors source tree.trimmed (convert source opener tree).withoutLayout) :
    MirrorsAll source (trimmedAll trees)
      (withoutLayouts ((convertAll source keeps opener trees).map Placed.tree)) := by
  induction trees generalizing opener with
  | nil =>
      rw [trimmedAll, MirrorsAll]
      rfl
  | cons tree rest ih =>
      simp only [List.mem_cons, forall_eq_or_imp] at named each
      have kind (opener : Option Nat) : (convert source opener tree).kind = tree.treeKind :=
        convert_kind
      rw [convertAll_cons, trimmedAll]
      split
      next comment =>
        have isComment : (convert source opener tree).kind = .comment := by
          rw [kind, treeKind_comment named.1]
          exact comment
        split
        · rw [List.map_cons, withoutLayouts_cons,
            withoutLayouts_comment (by simpa [Layout.isComment, placed] using isComment)]
          exact ih named.2 each.2
        · exact ih named.2 each.2
      next other =>
        have kept : (convert source opener tree).isLayout = false := by
          have noBlank := treeKind_ne_blankLine tree
          have noComment := treeKind_ne_comment (by simpa using other)
          simp [Tree.isLayout, kind, noBlank, noComment]
        rw [List.map_cons, withoutLayouts_cons, placed, withoutLayouts_other kept, MirrorsAll]
        exact ⟨_, _, rfl, each.1 opener, ih named.2 each.2⟩

theorem mirrors_convert (size : Text.byteSize source.chars < UInt32.size)
    (formed : tree.WellFormed source) (opener : Option Nat) :
    Mirrors source tree.trimmed (convert source opener tree).withoutLayout := by
  induction tree using RawTree.induction generalizing opener with
  | step tree ih =>
      have shown : ShownBy source tree (convert source opener tree) :=
        shownBy_convert size (formed.lies tree (.self tree))
      have below : MirrorsAll source (trimmedAll tree.children)
          (withoutLayouts ((convertAll source tree.treeKind.keepsComments none
            tree.children).map Placed.tree)) := by
        apply mirrorsAll_convertAll
        · exact fun child member => formed.comments child (.under member (.self child))
        · exact fun child member => ih child member (formed.child member)
      rw [mirrors_iff, trimmed_eq, withoutLayout_eq]
      constructor
      · exact ⟨shown.kind, shown.field, shown.start, shown.stop, shown.text⟩
      · by_cases leaf : tree.treeKind.isLeaf = true
        · simp only [leaf, if_true, children_of_leaf leaf]
          rw [MirrorsAll]
          rfl
        · rw [Bool.not_eq_true] at leaf
          simp only [leaf, children_convert leaf, withoutLayouts_arrange]
          exact below

def rawSlot (tree : RawTree) : Kind × Option String :=
  (tree.treeKind, tree.field)

theorem slot_convert (tree : RawTree) (opener : Option Nat) :
    slot (convert source opener tree) = rawSlot tree := by
  rw [slot, rawSlot, convert_eq]

theorem slots_convertAll {trees : List RawTree}
    (named : ∀ tree ∈ trees, tree.isComment = true → tree.isNamed = true) :
    (((convertAll source keeps opener trees).map Placed.tree).filter
        (!Layout.isComment ·)).map slot =
      (trees.filter (!·.isComment)).map rawSlot := by
  induction trees generalizing opener with
  | nil => rfl
  | cons tree rest ih =>
      simp only [List.mem_cons, forall_eq_or_imp] at named
      have same (opener : Option Nat) :
          Layout.isComment (convert source opener tree) = tree.isComment := by
        rw [Layout.isComment, convert_kind, Bool.eq_iff_iff, beq_iff_eq, treeKind_comment named.1]
      rw [convertAll_cons]
      split
      next comment =>
        split
        · simp [placed, same, comment, ih named.2]
        · simp [comment, ih named.2]
      next other =>
        rw [Bool.not_eq_true] at other
        simp [placed, same, other, ih named.2, slot_convert]

end Nodes

section Bodies

variable {source : Source} {tree : RawTree} {opener : Option Nat}

theorem not_comment_of_block (block : tree.treeKind = .block) : tree.isComment = false := by
  rcases comment : tree.isComment with _ | _
  · rfl
  · have leaf := isLeaf_of_isComment comment
    rw [block] at leaf
    cases leaf

theorem slots_convert (formed : tree.WellFormed source)
    (compound : tree.treeKind.isCompound = true) :
    (convert source opener tree).children.map slot =
      (tree.children.filter (!·.isComment)).map rawSlot := by
  have leaf := not_leaf_of_arranged (.inl compound)
  rw [children_convert leaf, arrange_compound compound, slots_hoistComments]
  exact slots_convertAll fun child member => formed.comments child (.under member (.self child))

theorem isDefinition_compound {kind : Kind}
    (definition : kind = .functionDefinition ∨ kind = .classDefinition) :
    kind.isCompound = true := by
  rcases definition with rfl | rfl <;> rfl

theorem hasBodyBlock_convert (formed : tree.WellFormed source)
    (holds : hasBody (convert source opener tree) = true) :
    hasBodyBlock (convert source opener tree) = true := by
  simp only [hasBody, convert_kind, Bool.or_eq_true, Bool.and_eq_true, beq_iff_eq] at holds
  rcases holds with block | ⟨definition, body⟩
  · simp [hasBodyBlock, convert_kind, block]
  · obtain ⟨child, found⟩ := Option.isSome_iff_exists.1 body
    have fills : child.field = some "body" := by
      simpa [Tree.fills] using List.find?_some found
    have member : slot child ∈ (tree.children.filter (!·.isComment)).map rawSlot := by
      rw [← slots_convert formed (isDefinition_compound definition)]
      exact List.mem_map_of_mem (List.mem_of_find?_eq_some found)
    obtain ⟨raw, inside, same⟩ := List.mem_map.1 member
    simp only [rawSlot, slot, Prod.mk.injEq] at same
    have block := formed.bodies raw (.under (List.mem_filter.1 inside).1 (.self raw))
      (by simp [fillsBody, same.2, fills])
    have isBody : isBodyBlock child = true := by
      simp [isBodyBlock, Tree.fills, fills, ← same.1, block]
    rw [hasBodyBlock, Bool.or_eq_true, List.any_eq_true]
    exact .inr ⟨child, List.mem_of_find?_eq_some found, isBody⟩

theorem hasBody_convert_of_definition (formed : tree.WellFormed source)
    (full : tree.isFullDefinition = true) : hasBody (convert source opener tree) = true := by
  simp only [isFullDefinition, Bool.and_eq_true, Bool.or_eq_true, beq_iff_eq,
    List.any_eq_true] at full
  obtain ⟨definition, raw, member, fills⟩ := full
  have block := formed.bodies raw (.under member (.self raw)) fills
  have shows : rawSlot raw ∈ (convert source opener tree).children.map slot := by
    rw [slots_convert formed (isDefinition_compound definition)]
    exact List.mem_map_of_mem (List.mem_filter.2 ⟨member, by simp [not_comment_of_block block]⟩)
  obtain ⟨child, inside, same⟩ := List.mem_map.1 shows
  simp only [rawSlot, slot, Prod.mk.injEq] at same
  have found : ((convert source opener tree).child? "body").isSome = true := by
    rw [Tree.child?, List.find?_isSome]
    refine ⟨child, inside, ?_⟩
    simpa [Tree.fills, same.2, fillsBody] using fills
  simpa [hasBody, convert_kind, found] using .inr definition

theorem some_body_convertAll {keeps : Bool} (formed : tree.WellFormed source)
    (compound : tree.treeKind.isCompound = true) :
    ((convertAll source keeps opener tree.children).map Placed.tree).any hasBody = true := by
  rw [List.any_eq_true]
  rcases formed.blocks tree (.self tree) compound with block | ⟨_, definition⟩
  · obtain ⟨child, member, block⟩ := List.any_eq_true.1 block
    have kind : child.treeKind = .block := eq_of_beq block
    obtain ⟨opener', inside⟩ := convert_mem_convertAll member (not_comment_of_block kind)
    exact ⟨_, inside, by simp [hasBody, convert_kind, kind]⟩
  · obtain ⟨child, member, full⟩ := List.any_eq_true.1 definition
    have other : child.isComment = false := by
      rcases comment : child.isComment with _ | _
      · rfl
      · have leaf := isLeaf_of_isComment comment
        simp only [isFullDefinition, Bool.and_eq_true, Bool.or_eq_true, beq_iff_eq] at full
        rcases full.1 with kind | kind <;> (rw [kind] at leaf; cases leaf)
    obtain ⟨opener', inside⟩ := convert_mem_convertAll member other
    exact ⟨_, inside, hasBody_convert_of_definition (formed.child member) full⟩

theorem bodiesOpen_convertAll {keeps : Bool} (formed : tree.WellFormed source) :
    BodiesOpen ((convertAll source keeps opener tree.children).map Placed.tree) := by
  intro node member holds
  obtain ⟨child, inside, opener', rfl⟩ := raw_of_mem_convertAll member
  exact hasBodyBlock_convert (formed.child inside) holds

end Bodies

section Comments

variable {source : Source} {tree : RawTree} {opener : Option Nat} {keeps : Bool}

theorem convert_leaf_opener (leaf : tree.treeKind.isLeaf = true) :
    convert source opener tree = convert source none tree := by
  rw [convert_eq, convert_eq, leaf]
  rfl

theorem comments_of_leaf (leaf : tree.treeKind.isLeaf = true) :
    (convert source opener tree).commentsBelow = [] ∧ tree.standingComments = [] := by
  rw [commentsBelow_eq, children_of_leaf leaf, standingComments_eq, leaf]
  exact ⟨rfl, rfl⟩

theorem commentsAmong_convertAll {trees : List RawTree}
    (named : ∀ tree ∈ trees, tree.isComment = true → tree.isNamed = true)
    (each : ∀ tree ∈ trees, ∀ opener, ((convert source opener tree).commentsBelow).Perm
      (tree.standingComments.map (convert source none))) :
    (commentsAmong ((convertAll source keeps opener trees).map Placed.tree)).Perm
      ((standingAmong keeps trees).map (convert source none)) := by
  induction trees generalizing opener with
  | nil => exact .refl _
  | cons tree rest ih =>
      simp only [List.mem_cons, forall_eq_or_imp] at named each
      have kind (opener : Option Nat) : (convert source opener tree).kind = tree.treeKind :=
        convert_kind
      rw [convertAll_cons, standingAmong]
      split
      next comment =>
        have leaf := isLeaf_of_isComment comment
        have isComment : tree.treeKind = .comment := (treeKind_comment named.1).2 comment
        obtain ⟨below, standing⟩ := @comments_of_leaf source tree none leaf
        cases keeps with
        | true =>
            rw [placed, convert_leaf_opener leaf]
            simpa [commentsAmong, kind, isComment, comment, below, standing] using ih named.2 each.2
        | false => simpa [comment, standing] using ih named.2 each.2
      next other =>
        have noComment := treeKind_ne_comment (by simpa using other)
        have later := (each.1 opener).append
          (@ih (some (source.rowAt tree.stop)) named.2 each.2)
        simpa [commentsAmong, placed, kind, noComment, other] using later

theorem comments_convert (formed : tree.WellFormed source) (opener : Option Nat) :
    ((convert source opener tree).commentsBelow).Perm
      (tree.standingComments.map (convert source none)) := by
  induction tree using RawTree.induction generalizing opener with
  | step tree ih =>
      by_cases leaf : tree.treeKind.isLeaf = true
      · obtain ⟨below, standing⟩ := @comments_of_leaf source tree opener leaf
        rw [below, standing]
        exact .refl _
      · rw [Bool.not_eq_true] at leaf
        have among := @commentsAmong_convertAll source none tree.treeKind.keepsComments
          tree.children (fun child member => formed.comments child (.under member (.self child)))
          fun child member => ih child member (formed.child member)
        rw [commentsBelow_eq, children_convert leaf, standingComments_eq, leaf]
        refine .trans ?_ among
        by_cases compound : tree.treeKind.isCompound = true
        · rw [arrange_compound compound]
          exact commentsAmong_hoistComments (bodiesOpen_convertAll formed)
            (some_body_convertAll formed compound)
        · rw [Bool.not_eq_true] at compound
          exact .of_eq (commentsAmong_arrange compound _)

theorem mem_standingAmong {raw : RawTree} {keeps : Bool} {trees : List RawTree} :
    raw ∈ standingAmong keeps trees ↔
      (keeps = true ∧ raw ∈ trees ∧ raw.isComment = true) ∨
        ∃ child ∈ trees, raw ∈ child.standingComments := by
  induction trees with
  | nil => simp [standingAmong]
  | cons child rest ih =>
      have own : raw ∈ (if child.isComment && keeps then [child] else []) ↔
          keeps = true ∧ raw = child ∧ raw.isComment = true := by
        split
        next both =>
          rw [Bool.and_eq_true] at both
          simp only [List.mem_singleton, both.2, true_and, iff_self_and]
          rintro rfl
          exact both.1
        next other =>
          simp only [List.not_mem_nil, false_iff]
          rintro ⟨keeps, rfl, comment⟩
          exact other (by rw [comment, keeps]; rfl)
      simp only [standingAmong, List.mem_append, own, ih, List.mem_cons, or_and_right, and_or_left,
        exists_or, exists_eq_left, or_assoc, or_left_comm]

/-- The comments that stand are those whose parent is a module, a block or a compound statement. -/
theorem mem_standingComments_iff {raw : RawTree} :
    raw ∈ tree.standingComments ↔
      ∃ parent, tree.Kept parent ∧
        parent.treeKind ∈ [.root, .block, .ifStatement, .elifClause, .elseClause, .forStatement,
          .whileStatement, .functionDefinition, .classDefinition, .decoratedDefinition] ∧
        raw ∈ parent.children ∧ raw.isComment = true := by
  simp only [← Kind.keepsComments_iff]
  induction tree using RawTree.induction with
  | step tree ih =>
      rw [standingComments_eq]
      constructor
      · intro standing
        split at standing
        · cases standing
        rename_i inner
        rw [Bool.not_eq_true] at inner
        rcases mem_standingAmong.1 standing with ⟨keeps, member, comment⟩ | ⟨child, among, standing⟩
        · exact ⟨tree, .self tree, keeps, member, comment⟩
        · obtain ⟨parent, kept, holds⟩ := (ih child among).1 standing
          exact ⟨parent, .under inner among kept, holds⟩
      · rintro ⟨parent, kept, keeps, member, comment⟩
        cases kept with
        | self =>
            rw [Kind.not_leaf_of_keepsComments keeps, if_neg Bool.false_ne_true]
            exact mem_standingAmong.2 (.inl ⟨keeps, member, comment⟩)
        | @under _ child _ inner among kept =>
            rw [inner, if_neg Bool.false_ne_true]
            refine mem_standingAmong.2 (.inr ⟨child, among, ?_⟩)
            exact (ih child among).2 ⟨parent, kept, keeps, member, comment⟩

end Comments

end RawTree

/-- Laying out a source text loses nothing, doubles nothing and adds nothing but blank lines. -/
theorem conversion_keeps_contents (source : Source) (tree : RawTree)
    (size : Text.byteSize source.chars < UInt32.size) (formed : tree.WellFormed source) :
    RawTree.Mirrors source { tree.trimmed with field := none } (tree.toTree source).withoutLayout ∧
      (∃ kept, kept.Perm tree.standingComments ∧
        List.Forall₂ (fun comment raw => RawTree.ShownBy source raw comment ∧ comment.children = [])
          (tree.toTree source).commentsBelow kept) ∧
      ∀ raw, raw ∈ tree.standingComments ↔
        ∃ parent, tree.Kept parent ∧
          parent.treeKind ∈ [.root, .block, .ifStatement, .elifClause, .elseClause, .forStatement,
            .whileStatement, .functionDefinition, .classDefinition, .decoratedDefinition] ∧
          raw ∈ parent.children ∧ raw.isComment = true := by
  refine ⟨?_, ?_, fun raw => RawTree.mem_standingComments_iff⟩
  · have mirrors := RawTree.mirrors_convert size formed none
    rw [RawTree.mirrors_iff, withoutLayout_eq] at mirrors
    rw [RawTree.mirrors_iff, withoutLayout_eq]
    obtain ⟨shown, below⟩ := mirrors
    exact ⟨⟨shown.kind, rfl, shown.start, shown.stop, shown.text⟩, below⟩
  · have moved := RawTree.comments_convert formed none
    have shown : List.Forall₂ (fun comment raw => RawTree.ShownBy source raw comment ∧
        comment.children = []) (tree.standingComments.map (RawTree.convert source none))
        tree.standingComments := by
      rw [List.forall₂_map_left_iff, List.forall₂_same]
      intro raw standing
      obtain ⟨parent, kept, -, member, comment⟩ := RawTree.mem_standingComments_iff.1 standing
      have within := kept.within.trans (.under member (.self raw))
      exact ⟨RawTree.shownBy_convert size (formed.lies raw within),
        RawTree.children_of_leaf (RawTree.isLeaf_of_isComment comment)⟩
    obtain ⟨kept, matched, perm⟩ := List.perm_comp_forall₂ moved shown
    rw [commentsBelow_eq] at matched
    rw [RawTree.toTree, commentsBelow_eq]
    exact ⟨kept, perm, matched⟩

namespace RawTree

instance {source : Source} : DecidablePred (Lies source) := fun tree =>
  inferInstanceAs (Decidable (tree.start ≤ tree.stop ∧ tree.stop ≤ Text.byteSize source.chars ∧
    Text.isBoundary tree.start source.chars = true ∧
    Text.isBoundary tree.stop source.chars = true))

instance : DecidablePred HoldsBlock := fun tree =>
  inferInstanceAs (Decidable (tree.treeKind.isCompound = true → _))

def commentedFunction : RawTree :=
  named "module" none 0 56
    [named "decorated_definition" none 0 55
      [named "decorator" none 0 2 [token "@" 0 1, named "identifier" none 1 2 []],
       named "comment" none 3 6 [],
       named "function_definition" "definition" 7 55
        [token "def" 7 10, named "identifier" "name" 11 12 [],
         named "parameters" "parameters" 12 14 [token "(" 12 13, token ")" 13 14],
         token ":" 14 15, named "comment" none 17 20 [], named "comment" none 26 29 [],
         named "block" "body" 34 55
          [named "expression_statement" none 34 55
            [named "assignment" none 34 55
              [named "identifier" "left" 34 35 [], token "=" 36 37,
               named "tuple" "right" 38 55
                [token "(" 38 39, named "integer" none 39 40 [], token "," 40 41,
                 named "comment" none 43 46 [],
                 named "string" none 51 54
                  [token "string_start" 51 52, token "string_content" 52 53,
                   token "string_end" 53 54],
                 token ")" 54 55]]]]]]]

def commentedFunctionSource : Source :=
  .ofString "@d\n# e\ndef f():  # g\n\n    # h\n    x = (1,  # i\n    \"s\")\n"

end RawTree

open RawTree in
theorem commented_function_keeps_contents :
    commentedFunction.standingComments.map RawTree.start = [3, 17, 26] ∧
      Mirrors commentedFunctionSource { commentedFunction.trimmed with field := none }
        (commentedFunction.toTree commentedFunctionSource).withoutLayout ∧
      ∃ kept, kept.Perm commentedFunction.standingComments ∧
        List.Forall₂ (fun comment raw => ShownBy commentedFunctionSource raw comment ∧
          comment.children = [])
          (commentedFunction.toTree commentedFunctionSource).commentsBelow kept := by
  have formed : commentedFunction.WellFormed commentedFunctionSource := by
    constructor <;> decide +kernel
  obtain ⟨mirrors, comments, -⟩ := conversion_keeps_contents commentedFunctionSource
    commentedFunction (by decide +kernel) formed
  exact ⟨by decide +kernel, mirrors, comments⟩

end NumericPython

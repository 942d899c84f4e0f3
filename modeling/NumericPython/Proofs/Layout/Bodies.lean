import NumericPython.Proofs.Grammar.Reading
import NumericPython.Proofs.Layout.Hoisting

set_option autoImplicit false

namespace NumericPython

namespace RawTree

variable {source : Source} {opener : Option Nat} {tree : RawTree}

def convertKept (source : Source) (opener : Option Nat) (children : List RawTree) : List Tree :=
  (convertAll source true opener children).map Layout.Placed.tree

def openerBehind (source : Source) (opener : Option Nat) (children : List RawTree) : Option Nat :=
  children.foldl (fun opener tree =>
    if tree.isComment then opener else some (source.rowAt tree.stop)) opener

theorem openerBehind_cons (rest : List RawTree) :
    openerBehind source opener (tree :: rest) = openerBehind source
      (if tree.isComment then opener else some (source.rowAt tree.stop)) rest := rfl

theorem convertAll_append (keeps : Bool) (first second : List RawTree) :
    convertAll source keeps opener (first ++ second) =
      convertAll source keeps opener first ++
        convertAll source keeps (openerBehind source opener first) second := by
  induction first generalizing opener with
  | nil => rfl
  | cons tree rest ih =>
      rw [List.cons_append, convertAll_cons, convertAll_cons, openerBehind_cons]
      by_cases comment : tree.isComment = true
      · simp only [comment, if_true, ih]
        split <;> simp
      · simp [comment, ih]

@[simp] theorem convertKept_nil : convertKept source opener [] = [] := rfl

theorem convertKept_append (first second : List RawTree) :
    convertKept source opener (first ++ second) =
      convertKept source opener first ++
        convertKept source (openerBehind source opener first) second := by
  rw [convertKept, convertAll_append, List.map_append]
  rfl

theorem convertKept_comment (comment : tree.isComment = true) (rest : List RawTree) :
    convertKept source opener (tree :: rest) =
      convert source opener tree :: convertKept source opener rest := by
  rw [convertKept, convertAll_cons]
  simp [comment, convertKept, placed]

theorem convertKept_other (notComment : tree.isComment = false) (rest : List RawTree) :
    convertKept source opener (tree :: rest) =
      convert source opener tree :: convertKept source (some (source.rowAt tree.stop)) rest := by
  rw [convertKept, convertAll_cons]
  simp [notComment, convertKept, placed]

theorem convertKept_eq {children : List RawTree}
    (notComment : ∀ tree ∈ children, tree.isComment = false) :
    convertKept source opener children = convertParts source opener children := by
  induction children generalizing opener with
  | nil => simp
  | cons tree rest ih =>
      have here := notComment tree (.head _)
      rw [convertKept_other here, convertParts_cons here,
        ih fun other member => notComment other (.tail _ member)]

theorem openerBehind_comments {children : List RawTree}
    (comments : ∀ tree ∈ children, tree.isComment = true) :
    openerBehind source opener children = opener := by
  induction children generalizing opener with
  | nil => rfl
  | cons tree rest ih =>
      rw [openerBehind_cons, if_pos (comments tree (.head _))]
      exact ih fun other member => comments other (.tail _ member)

theorem openerBehind_concat (notComment : tree.isComment = false) (children : List RawTree) :
    openerBehind source opener (children ++ [tree]) = some (source.rowAt tree.stop) := by
  simp [openerBehind, notComment]

theorem mem_convertKept {children : List RawTree} {converted : Tree}
    (member : converted ∈ convertKept source opener children) :
    ∃ child ∈ children, ∃ opener, converted = convert source opener child :=
  raw_of_mem_convertAll member

end RawTree

namespace Layout

open RawTree Grammar

variable {source : Source} {opener : Option Nat}

theorem convert_compound {name : String} {kind : Kind} {children : List RawTree}
    {field : Option String} (sorted : Kind.ofGrammar name = kind)
    (compound : kind.isCompound = true) :
    ∃ span text, convert source opener { node name children with field := field } =
      ⟨kind, span, text, field, hoistComments [] [] (convertKept source none children)⟩ := by
  have keeps : kind.keepsComments = true := by
    cases kind <;> first | rfl | cases compound
  obtain ⟨span, text, converted⟩ := @convert_arranged source opener name kind children field sorted
    (not_leaf_of_arranged (.inl compound))
  rw [arrange_compound compound, keeps] at converted
  exact ⟨span, text, converted⟩

theorem convert_block {children : List RawTree} {field : Option String} :
    ∃ span text, convert source opener { node "block" children with field := field } =
      ⟨.block, span, text, field, withBlankLines source none (opener.map (· + 1))
        (convertAll source true none children)⟩ :=
  convert_arranged rfl rfl

def IsBare (tree : Tree) : Prop :=
  -- No comment goes into the tree.
  isComment tree = false ∧ hasBody tree = false

theorem hoistComments_bare {trees : List Tree} (bare : ∀ tree ∈ trees, IsBare tree)
    (done rest : List Tree) :
    hoistComments [] done (trees ++ rest) = hoistComments [] (done ++ trees) rest := by
  have comments : trees.filter isComment = [] :=
    List.filter_eq_nil_iff.2 fun tree member => by simp [(bare tree member).1]
  have others : trees.filter (!isComment ·) = trees :=
    List.filter_eq_self.2 fun tree member => by simp [(bare tree member).1]
  rw [hoistComments_header fun tree member => (bare tree member).2, comments, others]
  rfl

theorem hasBody_of_comment {tree : Tree} (comment : isComment tree = true) :
    hasBody tree = false := by
  refine Bool.eq_false_iff.2 fun body => ?_
  rw [ne_comment_of_hasBody body] at comment
  cases comment

theorem hoistComments_clause {header comments others : List Tree} {block : Tree}
    (bare : ∀ tree ∈ header, IsBare tree) (areComments : ∀ tree ∈ comments, isComment tree = true)
    (isBlock : block.kind = .block) (bare' : ∀ tree ∈ others, IsBare tree) :
    hoistComments [] [] (header ++ (comments ++ block :: others)) =
      header ++ { block with children := insertComments comments block.children } :: others := by
  have kept : comments.filter isComment = comments := List.filter_eq_self.2 areComments
  have dropped : comments.filter (!isComment ·) = [] :=
    List.filter_eq_nil_iff.2 fun tree member => by simp [areComments tree member]
  have body : hasBody block = true := by simp [hasBody, isBlock]
  have modified : modifyBody (insertComments comments) block =
      { block with children := insertComments comments block.children } := by
    simp [modifyBody, isBlock]
  rw [hoistComments_bare bare, hoistComments_header fun tree member =>
    hasBody_of_comment (areComments tree member), kept, dropped, hoistComments_body body]
  have ends := hoistComments_bare bare' ([] ++ header ++ [] ++ [modifyBody (insertComments comments) block]) []
  rw [List.append_nil] at ends
  simp only [List.nil_append, List.append_nil] at ends ⊢
  rw [ends, hoistComments_nil, modified]
  simp

theorem hoistComments_plain {trees : List Tree} (plain : ∀ tree ∈ trees, isComment tree = false)
    (done : List Tree) : hoistComments [] done trees = done ++ trees := by
  induction trees generalizing done with
  | nil => simp [hoistComments_nil]
  | cons tree rest ih =>
      have later := ih fun other member => plain other (.tail _ member)
      by_cases body : hasBody tree = true
      · have same : modifyBody (insertComments []) tree = tree := modifyBody_id tree
        rw [hoistComments_body body, later, same]
        simp
      · have here := @hoistComments_bare [tree]
          (by simpa [IsBare, plain tree (.head _)] using body) done rest
        rw [List.singleton_append] at here
        rw [here, later]
        simp

def IsInert (tree : RawTree) : Prop :=
  -- No comment moves into the node.
  tree.isComment = false ∧
    tree.treeKind ∉ [.comment, .block, .functionDefinition, .classDefinition]

theorem isBare_convert {tree : RawTree} (inert : IsInert tree) (opener : Option Nat) :
    IsBare (convert source opener tree) := by
  have others := inert.2
  simp only [List.mem_cons, List.not_mem_nil, or_false, not_or] at others
  constructor
  · simp [isComment, convert_kind, others]
  · simp [hasBody, convert_kind, others]

theorem bare_of_inert {trees : List RawTree} (inert : ∀ tree ∈ trees, IsInert tree) :
    ∀ tree ∈ convertKept source opener trees, IsBare tree := by
  intro tree member
  obtain ⟨child, inside, opener', rfl⟩ := mem_convertKept member
  exact isBare_convert (inert child inside) opener'

theorem convert_clause {name bodyField : String} {kind : Kind} {field : Option String}
    {header comments trees others : List RawTree} (sorted : Kind.ofGrammar name = kind)
    (compound : kind.isCompound = true) (inert : ∀ tree ∈ header, IsInert tree)
    (areComments : ∀ tree ∈ comments, tree.isComment = true ∧ tree.treeKind = .comment)
    (inert' : ∀ tree ∈ others, IsInert tree) (next : Option Nat)
    (opens : openerBehind source none header = next) :
    ∃ span text span' text' opener', convert source opener { node name (header ++
        (comments ++ (node "block" trees).inField bodyField :: others)) with field := field } =
      ⟨kind, span, text, field, convertParts source none header ++
        ⟨.block, span', text', some bodyField, insertComments (convertKept source next comments)
          (withBlankLines source none (next.map (· + 1)) (convertAll source true none trees))⟩ ::
          convertParts source opener' others⟩ := by
  obtain ⟨span, text, converted⟩ := @convert_compound source opener name kind
    (header ++ (comments ++ (node "block" trees).inField bodyField :: others)) field sorted compound
  obtain ⟨span', text', block⟩ := @convert_block source next trees (some bodyField)
  refine ⟨span, text, span', text', some (source.rowAt (node "block" trees).stop), ?_⟩
  have commentTrees : ∀ tree ∈ convertKept source next comments, isComment tree = true := by
    intro tree member
    obtain ⟨child, inside, opener', rfl⟩ := mem_convertKept member
    simp [isComment, convert_kind, (areComments child inside).2]
  have blockTree : convert source next ((node "block" trees).inField bodyField) = _ := block
  rw [converted, convertKept_append, convertKept_append, opens,
    openerBehind_comments fun tree member => (areComments tree member).1,
    convertKept_other (show ((node "block" trees).inField bodyField).isComment = false from rfl),
    blockTree,
    hoistComments_clause (bare_of_inert inert) commentTrees rfl (bare_of_inert inert'),
    convertKept_eq fun tree member => (inert tree member).1,
    convertKept_eq fun tree member => (inert' tree member).1]
  rfl

end Layout

end NumericPython

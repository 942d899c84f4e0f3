import NumericPython.Proofs.Lowering.Yields
import NumericPython.Proofs.Tree.Induction

set_option autoImplicit false

namespace NumericPython

namespace Kind

def isUnknown : Kind → Bool
  | unknown _ => true
  | _ => false

/-- The children that the rule for a kind looks at. -/
inductive Scope where
  | every
  | first
  | decorators
  | fields (names : List String)

def scope : Kind → Scope
  | root | block | expressionStatement | comparisonOperator | argumentList | list | tuple
  | expressionList | slice | parameters | dottedName => .every
  | returnStatement | decorator | parenthesized => .first
  | decoratedDefinition => .decorators
  | assignment => .fields ["type", "left", "right"]
  | augmentedAssignment | binaryOperator | booleanOperator => .fields ["left", "right"]
  | printStatement | unaryOperator | notOperator => .fields ["argument"]
  | importStatement => .fields ["name"]
  | importFromStatement => .fields ["module_name", "name"]
  | aliasedImport => .fields ["name", "alias"]
  | ifStatement => .fields ["condition", "consequence", "alternative"]
  | elifClause => .fields ["condition", "consequence"]
  | elseClause => .fields ["body"]
  | forStatement => .fields ["alternative", "left", "right", "body"]
  | whileStatement => .fields ["alternative", "condition", "body"]
  | functionDefinition =>
    .fields ["name", "return_type", "type_parameters", "parameters", "body"]
  | classDefinition => .fields ["superclasses", "name", "body"]
  | defaultParameter => .fields ["name", "value"]
  | call => .fields ["function", "arguments"]
  | attributeAccess => .fields ["attribute", "object"]
  | subscript => .fields ["value", "subscript"]
  | _ => .fields []

def otherFields : Kind → List String
  -- The grammar has these fields beside those in the scope of the rule.
  | augmentedAssignment | binaryOperator | booleanOperator | unaryOperator => ["operator"]
  | comparisonOperator => ["operators"]
  | decoratedDefinition => ["definition"]
  | classDefinition => ["type_parameters"]
  | _ => []

def grammarFields (kind : Kind) : List String :=
  match kind.scope with
  | .fields names => names ++ kind.otherFields
  | _ => kind.otherFields

def repeated : Kind → List String
  -- Several children of one node may fill these fields.
  | printStatement => ["argument"]
  | importStatement | importFromStatement => ["name"]
  | ifStatement => ["alternative"]
  | subscript => ["subscript"]
  | comparisonOperator => ["operators"]
  | _ => []

end Kind

namespace Tree

/-- The parameters of a function and the path of an import under another name may have any kind:
their rules look at the children only. -/
def Relabelled (parent child : Tree) : Prop :=
  (parent.kind = .functionDefinition ∧ child.field = some "parameters" ∧
      child.kind ≠ .parameters) ∨
    (parent.kind = .aliasedImport ∧ child.field = some "name" ∧ child.kind ≠ .dottedName)

def LooksAt (parent child : Tree) : Prop :=
  match parent.kind.scope with
  | .every => child.isToken = false
  | .first => parent.namedChildren.head? = some child
  | .decorators => child.kind = .decorator ∨ child.fills "definition" = true
  | .fields names => (∃ name ∈ names, child.fills name = true) ∧ ¬ Relabelled parent child

/-- Every node that is reached through the children that rules look at has a known kind. -/
inductive Understood : Tree → Prop
  | intro {tree : Tree} (known : tree.kind.isUnknown = false)
      (seen : ∀ child ∈ tree.children, tree.LooksAt child → Understood child) : Understood tree

/-- What the grammar grants of a node: which kinds its names and bodies have, which nodes have no
children, and which fields the children fill how often. -/
structure Regular (tree : Tree) : Prop where
  names : ∀ child ∈ tree.children, (tree.kind, child.field) ∈
      [(Kind.functionDefinition, some "name"), (.classDefinition, some "name"),
        (.aliasedImport, some "alias"), (.attributeAccess, some "attribute")] →
      child.kind = .identifier
  bodies : ∀ child ∈ tree.children, child.field ∈ [some "body", some "consequence"] →
    child.kind = .block
  leaves : tree.kind.isLeaf = true → tree.kind ≠ .token → tree.children = []
  single : ∀ child ∈ tree.children, ∀ field ∈ child.field, field ∉ tree.kind.repeated →
    (tree.childrenBy field).length ≤ 1
  fields : ∀ child ∈ tree.children, ∀ field ∈ child.field, field ∈ tree.kind.grammarFields

instance (tree : Tree) : Decidable tree.Regular :=
  decidable_of_iff
    ((∀ child ∈ tree.children, (tree.kind, child.field) ∈
        [(Kind.functionDefinition, some "name"), (.classDefinition, some "name"),
          (.aliasedImport, some "alias"), (.attributeAccess, some "attribute")] →
        child.kind = .identifier) ∧
      (∀ child ∈ tree.children, child.field ∈ [some "body", some "consequence"] →
        child.kind = .block) ∧
      (tree.kind.isLeaf = true → tree.kind ≠ .token → tree.children.isEmpty = true) ∧
      (∀ child ∈ tree.children, ∀ field ∈ child.field, field ∉ tree.kind.repeated →
        (tree.childrenBy field).length ≤ 1) ∧
      ∀ child ∈ tree.children, ∀ field ∈ child.field, field ∈ tree.kind.grammarFields)
    ⟨fun ⟨names, bodies, leaves, single, fields⟩ =>
        ⟨names, bodies, by simpa using leaves, single, fields⟩,
      fun ⟨names, bodies, leaves, single, fields⟩ =>
        ⟨names, bodies, by simpa using leaves, single, fields⟩⟩

mutual

def all (p : Tree → Bool) : Tree → Bool
  | ⟨kind, span, text, field, children⟩ =>
    p ⟨kind, span, text, field, children⟩ && allOf p children

def allOf (p : Tree → Bool) : List Tree → Bool
  | [] => true
  | tree :: rest => tree.all p && allOf p rest

end

theorem allOf_iff {p : Tree → Bool} {trees : List Tree} :
    allOf p trees = true ↔ ∀ tree ∈ trees, tree.all p = true := by
  induction trees with
  | nil => simp [allOf]
  | cons tree rest ih => simp [allOf, ih]

theorem all_iff {p : Tree → Bool} {tree : Tree} :
    tree.all p = true ↔ ∀ node, tree.Within node → p node = true := by
  induction tree using Tree.induction with
  | step tree ih =>
      have split : tree.all p = (p tree && allOf p tree.children) := by
        cases tree
        rw [all]
      rw [split, Bool.and_eq_true, allOf_iff]
      constructor
      · rintro ⟨self, below⟩ node within
        cases within with
        | self => exact self
        | under member within => exact (ih _ member).1 (below _ member) node within
      · exact fun every => ⟨every tree (.self tree), fun child member =>
          (ih child member).2 fun node within => every node (.under member within)⟩

def AllRegular (tree : Tree) : Prop :=
  ∀ node, tree.Within node → node.kind.isUnknown = false → node.Regular

instance (tree : Tree) : Decidable tree.AllRegular :=
  decidable_of_iff
    (tree.all (fun node => decide (node.kind.isUnknown = false → node.Regular)) = true)
    (by simp only [all_iff, decide_eq_true_eq, AllRegular])

theorem AllRegular.self {tree : Tree} (regular : tree.AllRegular)
    (known : tree.kind.isUnknown = false) : tree.Regular :=
  regular tree (.self tree) known

theorem AllRegular.child {tree child : Tree} (regular : tree.AllRegular)
    (member : child ∈ tree.children) : child.AllRegular :=
  fun node within => regular node (.under member within)

theorem fills_iff {child : Tree} {field : String} :
    child.fills field = true ↔ child.field = some field := by
  simp [fills]

theorem Regular.alone {tree : Tree} (regular : tree.Regular) {field : String}
    (once : field ∉ tree.kind.repeated) {first second : Tree} (left : first ∈ tree.children)
    (leftFills : first.fills field = true) (right : second ∈ tree.children)
    (rightFills : second.fills field = true) : first = second := by
  have few := regular.single first left field (fills_iff.1 leftFills) once
  have one : first ∈ tree.childrenBy field := List.mem_filter.2 ⟨left, leftFills⟩
  have other : second ∈ tree.childrenBy field := List.mem_filter.2 ⟨right, rightFills⟩
  match all : tree.childrenBy field, few with
  | [], _ =>
    rw [all] at one
    cases one
  | [only], _ =>
    rw [all, List.mem_singleton] at one other
    rw [one, other]

variable {tree : Tree}

def FieldUnderstood (children : List Tree) (field : String) : Prop :=
  ∀ child ∈ children, child.fills field = true → Understood child

def NamedUnderstood (children : List Tree) : Prop :=
  ∀ child ∈ children, child.isToken = false → Understood child

theorem namedUnderstood_iff {children : List Tree} :
    NamedUnderstood children ↔ ∀ child ∈ children.filter (!·.isToken), Understood child := by
  simp [NamedUnderstood, List.mem_filter]

theorem fieldUnderstood_iff {children : List Tree} {field : String} :
    FieldUnderstood children field ↔
      ∀ child ∈ children.filter (·.fills field), Understood child := by
  simp [FieldUnderstood, List.mem_filter]

theorem Regular.fieldUnderstood {field : String} {child : Tree} (regular : tree.Regular)
    (once : field ∉ tree.kind.repeated)
    (found : tree.children.find? (·.fills field) = some child) (understood : Understood child) :
    FieldUnderstood tree.children field := by
  intro other member fills
  have childFills := List.find?_some found
  rw [regular.alone once member fills (List.mem_of_find?_eq_some found) childFills]
  exact understood

theorem understood_fields {names : List String} (known : tree.kind.isUnknown = false)
    (scope : tree.kind.scope = .fields names)
    (read : ∀ name ∈ names, FieldUnderstood tree.children name) : Understood tree := by
  refine .intro known ?_
  intro child member looked
  rw [LooksAt, scope] at looked
  obtain ⟨⟨name, listed, fills⟩, _⟩ := looked
  exact read name listed child member fills

theorem understood_every (known : tree.kind.isUnknown = false) (scope : tree.kind.scope = .every)
    (read : NamedUnderstood tree.children) : Understood tree := by
  refine .intro known ?_
  intro child member looked
  rw [LooksAt, scope] at looked
  exact read child member looked

theorem understood_leaf (known : tree.kind.isUnknown = false)
    (scope : tree.kind.scope = .fields []) : Understood tree :=
  understood_fields known scope (by simp)

theorem understood_of_leaf {kind : Kind} (isKind : tree.kind = kind)
    (known : kind.isUnknown = false) (scope : kind.scope = .fields []) : Understood tree :=
  understood_leaf (by rw [isKind, known]) (by rw [isKind, scope])

end Tree

namespace Lowering

open NumericPython.Tree

variable {α : Type} {tree : Tree} {children : List Tree}

section Fields

theorem ensures_field {kind : Kind} {span : Span} {field : String} {reading : Tree → Lowered α}
    (regular : tree.Regular) (once : field ∉ tree.kind.repeated)
    (reads : ∀ child ∈ tree.children, Ensures (fun _ => Understood child) (reading child)) :
    Ensures (fun _ => FieldUnderstood tree.children field)
      (required kind span field ((tree.children.find? (·.fills field)).map reading)) := by
  cases found : tree.children.find? (·.fills field) with
  | none => exact ensures_error _
  | some child =>
      exact (reads child (List.mem_of_find?_eq_some found)).weaken fun _ =>
        regular.fieldUnderstood once found

theorem ensures_childAt {kind : Kind} {span : Span} {field : String} (regular : tree.Regular)
    (once : field ∉ tree.kind.repeated) :
    Ensures (fun found => found ∈ tree.children ∧ found.fills field = true ∧
        ∀ child ∈ tree.children, child.fills field = true → child = found)
      (childAt kind span field tree.children) := by
  unfold childAt
  cases found : tree.children.find? (·.fills field) with
  | none => exact ensures_error _
  | some child =>
      have member := List.mem_of_find?_eq_some found
      have fills := List.find?_some found
      exact ensures_ok ⟨member, fills, fun other otherMember otherFills =>
        regular.alone once otherMember otherFills member fills⟩

end Fields

structure ReadsUnderstood (tree : Tree) : Prop where
  expr : Ensures (fun _ => Understood tree) (lowerExpr tree)
  slice : tree.kind = .slice → Ensures (fun _ => Understood tree) (lowerSlice tree)
  arguments : Ensures (fun _ => Understood tree) (lowerArguments tree)
  parts : Ensures (fun _ => Understood tree) (attributeParts tree)

section Children

theorem lowerNamed_understood (inner : ∀ child ∈ children, ReadsUnderstood child) :
    Ensures (fun _ => NamedUnderstood children) (lowerNamed children) := by
  rw [lowerNamed_eq, namedUnderstood_iff]
  exact ensures_each fun child member => (inner child (List.mem_of_mem_filter member)).expr

theorem firstNamed_understood (inner : ∀ child ∈ children, ReadsUnderstood child) :
    ∀ reading ∈ firstNamed children,
      Ensures (fun _ => ∀ child, (children.filter (!·.isToken)).head? = some child →
        Understood child) reading := by
  rw [firstNamed_eq, List.head?_filter]
  intro reading found
  obtain ⟨child, first, rfl⟩ := Option.map_eq_some_iff.1 found
  rw [first]
  refine (inner child (List.mem_of_find?_eq_some first)).expr.weaken fun _ understood _ same => ?_
  exact Option.some.inj same ▸ understood

theorem lowerIndices_understood (inner : ∀ child ∈ children, ReadsUnderstood child) :
    Ensures (fun _ => FieldUnderstood children "subscript") (lowerIndices children) := by
  rw [lowerIndices_eq, fieldUnderstood_iff]
  refine ensures_each fun child member => ?_
  have reads := inner child (List.mem_of_mem_filter member)
  unfold lowerIndex
  split
  next slice => exact reads.slice slice
  next => exact reads.expr

theorem sliceParts_understood (inner : ∀ child ∈ children, ReadsUnderstood child)
    (refusal : LowerError) (colons : Nat) (parts : SliceParts) :
    Ensures (fun _ => NamedUnderstood children) (sliceParts refusal colons parts children) := by
  induction children generalizing colons parts with
  | nil => exact ensures_ok (by simp [NamedUnderstood])
  | cons child rest ih =>
      have others := fun c member => inner c (List.mem_cons_of_mem child member)
      rw [sliceParts]
      by_cases token : child.isToken = true
      · rw [if_pos token]
        refine (ih others _ _).weaken fun _ all => ?_
        exact List.forall_mem_cons.2 ⟨by simp [token], all⟩
      · rw [if_neg token]
        by_cases few : colons < 3
        · rw [if_pos few]
          refine ensures_bind (inner child (List.mem_cons_self ..)).expr fun e first => ?_
          refine (ih others _ _).weaken fun _ all => ?_
          exact List.forall_mem_cons.2 ⟨fun _ => first, all⟩
        · rw [if_neg few]
          exact ensures_error _

end Children

section Rules

variable (regular : tree.Regular) (inner : ∀ child ∈ tree.children, ReadsUnderstood child)

include regular inner

theorem exprAt_understood {kind : Kind} {span : Span} {field : String}
    (once : field ∉ tree.kind.repeated) :
    Ensures (fun _ => FieldUnderstood tree.children field)
      (required kind span field (exprAt field tree.children)) := by
  rw [exprAt_eq]
  exact ensures_field regular once fun child member => (inner child member).expr

theorem argumentsAt_understood {kind : Kind} {span : Span}
    (once : "arguments" ∉ tree.kind.repeated) :
    Ensures (fun _ => FieldUnderstood tree.children "arguments")
      (required kind span "arguments" (argumentsAt tree.children)) := by
  rw [argumentsAt_eq]
  exact ensures_field regular once fun child member => (inner child member).arguments

end Rules

theorem callee_understood {callee : Tree}
    (parts : Ensures (fun _ => Understood callee) (attributeParts callee)) :
    Ensures (fun _ => Understood callee) (lowerCallee callee) := by
  unfold lowerCallee
  split
  next isName =>
    exact ensures_ok (understood_of_leaf isName rfl rfl)
  next isAttribute =>
    refine ensures_map (ensures_bind parts fun _ understood => ?_) fun _ => id
    exact (ensures_true _).weaken fun _ _ => understood
  next => exact ensures_error _

theorem negatedArgument_understood {kind : Kind} {span : Span} (regular : tree.Regular)
    (once : "argument" ∉ tree.kind.repeated)
    (inner : ∀ child ∈ tree.children, ReadsUnderstood child) :
    Ensures (fun _ => FieldUnderstood tree.children "argument")
      (required kind span "argument" (negatedArgument tree.children)) := by
  rw [negatedArgument_eq]
  refine ensures_field regular once fun child member => ?_
  unfold lowerNegated
  split
  next isInteger =>
    have leaf : Understood child := understood_of_leaf isInteger rfl rfl
    exact (ensures_true _).weaken fun _ _ => leaf
  next isFloat =>
    have leaf : Understood child := understood_of_leaf isFloat rfl rfl
    exact (ensures_true _).weaken fun _ _ => leaf
  next => exact ensures_map (inner child member).expr fun _ => id

theorem binaryExpr_understood {accepts : BinaryOperator → Bool} {kind : Kind} {span : Span}
    (regular : tree.Regular) (inner : ∀ child ∈ tree.children, ReadsUnderstood child)
    (known : tree.kind.isUnknown = false) (scope : tree.kind.scope = .fields ["left", "right"])
    (once : tree.kind.repeated = []) :
    Ensures (fun _ => Understood tree) (binaryExpr accepts kind span tree.children
      (exprAt "left" tree.children) (exprAt "right" tree.children)) := by
  refine ensures_bind (ensures_true _) fun operator _ => ?_
  refine ensures_bind (ensures_true _) fun op _ => ?_
  refine ensures_bind (exprAt_understood regular inner (by simp [once])) fun _ left => ?_
  refine ensures_bind (exprAt_understood regular inner (by simp [once])) fun _ right => ?_
  exact ensures_ok (understood_fields known scope (by simp [left, right]))

theorem attributeParts_understood (regular : tree.AllRegular)
    (inner : ∀ child ∈ tree.children, ReadsUnderstood child) :
    Ensures (fun _ => Understood tree) (attributeParts tree) := by
  obtain ⟨kind, span, text, field, children⟩ := tree
  unfold attributeParts
  split
  · have here := regular.self rfl
    refine ensures_bind (ensures_true _) fun _ _ => ?_
    rw [objectParts_eq]
    refine ensures_bind (ensures_field here (by simp [Kind.repeated]) fun child member =>
      (inner child member).parts) fun _ object => ?_
    have name : FieldUnderstood children "attribute" := by
      intro child member fills
      have isName := here.names child member (by simp [fills_iff.1 fills])
      exact understood_of_leaf isName rfl rfl
    exact ensures_ok (understood_fields rfl rfl (by simpa using ⟨name, object⟩))
  · exact ensures_ok (understood_leaf rfl rfl)
  · exact ensures_error _

theorem lowerExpr_understood (regular : tree.AllRegular)
    (inner : ∀ child ∈ tree.children, ReadsUnderstood child) :
    Ensures (fun _ => Understood tree) (lowerExpr tree) := by
  obtain ⟨kind, span, text, field, children⟩ := tree
  unfold lowerExpr
  split
  · exact ensures_ok (understood_leaf rfl rfl)
  · exact (ensures_true _).weaken fun _ _ => understood_leaf rfl rfl
  · exact (ensures_true _).weaken fun _ _ => understood_leaf rfl rfl
  · exact (ensures_true _).weaken fun _ _ => understood_leaf rfl rfl
  · exact ensures_ok (understood_leaf rfl rfl)
  · exact ensures_ok (understood_leaf rfl rfl)
  · exact ensures_ok (understood_leaf rfl rfl)
  · -- attributes
    refine ensures_map (ensures_bind (attributeParts_understood regular inner)
      fun _ understood => ?_) fun _ => id
    exact (ensures_true _).weaken fun _ _ => understood
  · -- calls
    have here := regular.self rfl
    refine ensures_bind (ensures_childAt here (by simp [Kind.repeated])) fun function found => ?_
    obtain ⟨member, _, only⟩ := found
    refine ensures_bind (callee_understood (inner function member).parts)
      fun callee named => ?_
    refine ensures_bind (argumentsAt_understood here inner (by simp [Kind.repeated])) fun args all => ?_
    -- The callee is the only node in its field.
    have named : FieldUnderstood children "function" := by
      intro child childMember fills
      rw [only child childMember fills]
      exact named
    exact ensures_ok (understood_fields rfl rfl (by simpa using ⟨named, all⟩))
  · -- subscripts
    have here := regular.self rfl
    refine ensures_bind (exprAt_understood here inner (by simp [Kind.repeated])) fun _ base => ?_
    refine ensures_bind (lowerIndices_understood inner) fun _ indices => ?_
    exact (ensures_true _).weaken fun _ _ =>
      understood_fields rfl rfl (by simpa using ⟨base, indices⟩)
  · exact binaryExpr_understood (regular.self rfl) inner rfl rfl rfl
  · exact binaryExpr_understood (regular.self rfl) inner rfl rfl rfl
  · -- comparisons
    refine ensures_bind (lowerNamed_understood inner) fun _ operands => ?_
    exact (ensures_true _).weaken fun _ _ => understood_every rfl rfl operands
  · -- signs
    refine ensures_bind (ensures_true _) fun operator _ => ?_
    refine ensures_bind (ensures_true _) fun _ _ => ?_
    split
    · refine (negatedArgument_understood (regular.self rfl) (by simp [Kind.repeated]) inner).weaken
        fun _ argument => ?_
      exact understood_fields rfl rfl (by simpa using argument)
    · exact ensures_error _
  · -- negations
    refine ensures_bind (exprAt_understood (regular.self rfl) inner (by simp [Kind.repeated]))
      fun _ argument => ensures_ok ?_
    exact understood_fields rfl rfl (by simpa using argument)
  · -- a node that is read for one of its children alone
    split
    · next reading found =>
      refine (firstNamed_understood inner reading found).weaken fun _ first => .intro rfl ?_
      exact fun child _ looked => first child looked
    · exact ensures_error _
  · exact ensures_map (lowerNamed_understood inner) fun _ all => understood_every rfl rfl all
  · exact ensures_map (lowerNamed_understood inner) fun _ all => understood_every rfl rfl all
  · exact ensures_map (lowerNamed_understood inner) fun _ all => understood_every rfl rfl all
  · exact ensures_error _

theorem reads_understood (tree : Tree) (regular : tree.AllRegular) : ReadsUnderstood tree := by
  induction tree using Tree.induction with
  | step tree ih =>
      have inner : ∀ child ∈ tree.children, ReadsUnderstood child :=
        fun child member => ih child member (regular.child member)
      refine ⟨lowerExpr_understood regular inner, ?_, ?_, attributeParts_understood regular inner⟩
      · obtain ⟨kind, span, text, field, children⟩ := tree
        intro isSlice
        cases isSlice
        rw [lowerSlice]
        exact ensures_map (sliceParts_understood inner _ 0 _)
          fun _ all => understood_every rfl rfl all
      · obtain ⟨kind, span, text, field, children⟩ := tree
        unfold lowerArguments
        split
        next isArguments =>
          cases isArguments
          exact (lowerNamed_understood inner).weaken fun _ all => understood_every rfl rfl all
        next => exact ensures_error _

end Lowering

end NumericPython

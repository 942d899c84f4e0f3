import NumericPython.Directive
import NumericPython.Lowering.Stmt
import NumericPython.Proofs.Lowering.Understood

set_option autoImplicit false

namespace NumericPython

namespace Lowering

open NumericPython.Tree

variable {tree : Tree} {children : List Tree}

section Simple

theorem rejectField_understood (construct field : String) (children : List Tree) :
    Ensures (fun _ => FieldUnderstood children field) (rejectField construct field children) := by
  unfold rejectField
  cases found : children.find? (·.fills field) with
  | some child => exact ensures_error _
  | none =>
      refine ensures_ok fun child member fills => ?_
      exact absurd fills (List.find?_eq_none.1 found child member)

theorem exprAt_field {kind : Kind} {span : Span} {field : String} (regular : tree.AllRegular)
    (known : tree.kind.isUnknown = false) (once : field ∉ tree.kind.repeated) :
    Ensures (fun _ => FieldUnderstood tree.children field)
      (required kind span field (exprAt field tree.children)) :=
  exprAt_understood (regular.self known)
    (fun child member => reads_understood child (regular.child member)) once

theorem argumentsAt_field {kind : Kind} {span : Span} (regular : tree.AllRegular)
    (known : tree.kind.isUnknown = false) (once : "arguments" ∉ tree.kind.repeated) :
    Ensures (fun _ => FieldUnderstood tree.children "arguments")
      (required kind span "arguments" (argumentsAt tree.children)) :=
  argumentsAt_understood (regular.self known)
    (fun child member => reads_understood child (regular.child member)) once

theorem lowerAssignment_understood (regular : tree.AllRegular) (isKind : tree.kind = .assignment) :
    Ensures (fun _ => Understood tree) (lowerAssignment tree.kind tree.span tree.children) := by
  have known : tree.kind.isUnknown = false := by rw [isKind]; rfl
  refine ensures_bind (rejectField_understood _ _ _) fun _ typed => ?_
  refine ensures_bind (exprAt_field regular known (by simp [isKind, Kind.repeated])) fun _ left => ?_
  refine ensures_bind (exprAt_field regular known (by simp [isKind, Kind.repeated])) fun _ right => ?_
  exact ensures_ok (understood_fields known (by rw [isKind]; rfl)
    (by simpa using ⟨typed, left, right⟩))

theorem lowerAugmented_understood (regular : tree.AllRegular)
    (isKind : tree.kind = .augmentedAssignment) :
    Ensures (fun _ => Understood tree) (lowerAugmented tree.kind tree.span tree.children) := by
  have known : tree.kind.isUnknown = false := by rw [isKind]; rfl
  refine ensures_bind (ensures_true _) fun _ _ => ?_
  refine ensures_bind (ensures_true _) fun _ _ => ?_
  refine ensures_bind (exprAt_field regular known (by simp [isKind, Kind.repeated])) fun _ left => ?_
  refine ensures_bind (exprAt_field regular known (by simp [isKind, Kind.repeated])) fun _ right => ?_
  exact ensures_ok (understood_fields known (by rw [isKind]; rfl) (by simpa using ⟨left, right⟩))

theorem printCall_understood (regular : tree.AllRegular) (isPrint : isPrintCall tree = true) :
    Ensures (fun _ => Understood tree)
      (required tree.kind tree.span "arguments" (argumentsAt tree.children)) := by
  simp only [isPrintCall, Bool.and_eq_true, beq_iff_eq, Option.any_eq_true] at isPrint
  obtain ⟨isKind, callee, found, isName, -⟩ := isPrint
  have known : tree.kind.isUnknown = false := by rw [isKind]; rfl
  have once : tree.kind.repeated = [] := by rw [isKind]; rfl
  have function : FieldUnderstood tree.children "function" :=
    (regular.self known).fieldUnderstood (by simp [once]) found (understood_of_leaf isName rfl rfl)
  refine (argumentsAt_field regular known (by simp [once])).weaken fun _ arguments => ?_
  exact understood_fields known (by rw [isKind]; rfl) (by simpa using ⟨function, arguments⟩)

theorem lowerExpressionStatement_understood (regular : ∀ child ∈ children, child.AllRegular) :
    Ensures (fun _ => NamedUnderstood children) (lowerExpressionStatement children) := by
  unfold lowerExpressionStatement
  split
  next child only =>
    have member : child ∈ children := (List.mem_filter.1 (only ▸ List.mem_singleton_self child)).1
    have inner := regular child member
    have all (understood : Understood child) : NamedUnderstood children := by
      intro other otherMember named
      have kept : other ∈ children.filter (!·.isToken) :=
        List.mem_filter.2 ⟨otherMember, by simp [named]⟩
      rw [only, List.mem_singleton] at kept
      rw [kept]
      exact understood
    by_cases isAssignment : child.kind = .assignment
    · rw [if_pos isAssignment]
      exact (lowerAssignment_understood inner isAssignment).weaken fun _ => all
    rw [if_neg isAssignment]
    by_cases isAugmented : child.kind = .augmentedAssignment
    · rw [if_pos isAugmented]
      exact (lowerAugmented_understood inner isAugmented).weaken fun _ => all
    rw [if_neg isAugmented]
    by_cases isPrint : isPrintCall child = true
    · rw [if_pos isPrint]
      exact ensures_map (printCall_understood inner isPrint) fun _ => all
    rw [if_neg isPrint]
    exact ensures_map (reads_understood child inner).expr fun _ => all
  next =>
    exact ensures_map (lowerNamed_understood fun child member =>
      reads_understood child (regular child member)) fun _ => id

theorem firstNamed_none (none : firstNamed children = none) :
    children.filter (!·.isToken) = [] := by
  rw [firstNamed_eq, Option.map_eq_none_iff, List.find?_eq_none] at none
  exact List.filter_eq_nil_iff.2 none

theorem lowerReturn_understood (regular : tree.AllRegular) (isKind : tree.kind = .returnStatement) :
    Ensures (fun _ => Understood tree) (lowerReturn tree.children) := by
  have known : tree.kind.isUnknown = false := by rw [isKind]; rfl
  have looked {child : Tree} (looks : tree.LooksAt child) :
      (tree.children.filter (!·.isToken)).head? = some child := by
    rw [LooksAt, isKind] at looks
    exact looks
  unfold lowerReturn
  split
  next reading found =>
    have reads := firstNamed_understood (fun child member =>
      reads_understood child (regular.child member)) reading found
    exact ensures_map reads fun _ first => .intro known fun child _ looks =>
      first child (looked looks)
  next none =>
    refine ensures_ok (.intro known fun child _ looks => ?_)
    rw [firstNamed_none none] at looked
    cases looked looks

theorem printItems_understood (regular : ∀ child ∈ children, child.AllRegular) :
    Ensures (fun _ => FieldUnderstood children "argument") (printItems children) := by
  rw [printItems_eq]
  have named : ∀ child ∈ children.filter (!·.isToken),
      Ensures (fun _ => Understood child) (printItem child) := by
    intro child member
    unfold printItem
    split
    · exact (reads_understood child (regular child (List.mem_of_mem_filter member))).expr
    · exact ensures_error _
  refine (ensures_each named).weaken fun _ all child member _ => ?_
  by_cases token : child.isToken = true
  · exact understood_of_leaf (by simpa [isToken] using token) rfl rfl
  · exact all child (List.mem_filter.2 ⟨member, by simpa using token⟩)

theorem dottedParts_understood (children : List Tree) :
    Ensures (fun _ => NamedUnderstood children) (dottedParts children) := by
  rw [dottedParts_eq, namedUnderstood_iff]
  refine ensures_each fun child _ => ?_
  unfold dottedPart
  split
  next isName => exact ensures_ok (understood_of_leaf isName rfl rfl)
  next => exact ensures_error _

theorem lowerDottedName_understood (tree : Tree) :
    Ensures (fun _ => tree.kind = .dottedName → Understood tree) (lowerDottedName tree) := by
  refine ensures_bind (dottedParts_understood tree.children) fun _ all => ?_
  refine (ensures_true _).weaken fun _ _ isKind => ?_
  exact understood_every (by rw [isKind]; rfl) (by rw [isKind]; rfl) all

theorem lowerTarget_understood (regular : tree.AllRegular) :
    Ensures (fun _ => Understood tree) (lowerTarget tree) := by
  unfold lowerTarget
  split
  next isKind => exact ensures_map (lowerDottedName_understood tree) fun _ all => all isKind
  next isKind =>
    have known : tree.kind.isUnknown = false := by rw [isKind]; rfl
    have once : tree.kind.repeated = [] := by rw [isKind]; rfl
    have here := regular.self known
    refine ensures_bind (ensures_childAt here (by simp [once])) fun path found => ?_
    refine ensures_bind (lowerDottedName_understood path) fun _ understood => ?_
    refine (ensures_true _).weaken fun _ _ => .intro known fun child member looks => ?_
    rw [LooksAt, isKind] at looks
    obtain ⟨⟨name, listed, fills⟩, named⟩ := looks
    simp only [List.mem_cons, List.not_mem_nil, or_false] at listed
    rcases listed with rfl | rfl
    · have same := found.2.2 child member fills
      rw [same] at named fills ⊢
      by_cases isPath : path.kind = .dottedName
      · exact understood isPath
      · exact absurd (.inr ⟨isKind, fills_iff.1 fills, isPath⟩) named
    · have isName := here.names child member (by simp [isKind, fills_iff.1 fills])
      exact understood_of_leaf isName rfl rfl
  next => exact ensures_error _

theorem lowerTargets_understood (regular : tree.AllRegular) :
    Ensures (fun _ => FieldUnderstood tree.children "name") (lowerTargets tree) := by
  have each : ∀ target ∈ tree.childrenBy "name", Ensures (fun _ => Understood target)
      (lowerTarget target) := fun target member =>
    lowerTarget_understood (regular.child (List.mem_filter.1 member).1)
  exact (ensures_each each).weaken fun _ => fieldUnderstood_iff.2

theorem lowerImportFrom_understood (regular : tree.AllRegular)
    (isKind : tree.kind = .importFromStatement) :
    Ensures (fun _ => Understood tree) (lowerImportFrom tree) := by
  have known : tree.kind.isUnknown = false := by rw [isKind]; rfl
  have once : "module_name" ∉ tree.kind.repeated := by simp [isKind, Kind.repeated]
  refine ensures_bind (ensures_childAt (regular.self known) once) fun path found => ?_
  by_cases isPath : path.kind = .dottedName
  · rw [if_pos isPath]
    split
    · exact ensures_error _
    · refine ensures_bind (lowerDottedName_understood path) fun _ source => ?_
      refine ensures_bind (lowerTargets_understood regular) fun _ targets => ensures_ok ?_
      have paths : FieldUnderstood tree.children "module_name" := by
        intro child member fills
        rw [found.2.2 child member fills]
        exact source isPath
      exact understood_fields known (by rw [isKind]; rfl) (by simpa using ⟨paths, targets⟩)
  · rw [if_neg isPath]
    exact ensures_error _

theorem lowerParameter_understood (regular : tree.AllRegular) :
    Ensures (fun _ => Understood tree) (lowerParameter tree) := by
  unfold lowerParameter
  split
  next isName => exact ensures_ok (understood_of_leaf isName rfl rfl)
  next isKind =>
    have known : tree.kind.isUnknown = false := by rw [isKind]; rfl
    have once : tree.kind.repeated = [] := by rw [isKind]; rfl
    refine ensures_bind (ensures_childAt (regular.self known) (by simp [once])) fun name found => ?_
    by_cases isName : name.kind = .identifier
    · rw [if_pos isName]
      refine ensures_bind (exprAt_field regular known (by simp [once])) fun _ value => ?_
      have names : FieldUnderstood tree.children "name" := by
        intro child member fills
        rw [found.2.2 child member fills]
        exact understood_of_leaf isName rfl rfl
      exact ensures_ok (understood_fields known (by rw [isKind]; rfl)
        (by simpa using ⟨names, value⟩))
    · rw [if_neg isName]
      exact ensures_error _
  next => exact ensures_error _

theorem lowerParameters_understood (regular : ∀ child ∈ children, child.AllRegular) :
    Ensures (fun _ => NamedUnderstood children) (lowerParameters children) := by
  rw [namedUnderstood_iff]
  exact ensures_each fun child member =>
    lowerParameter_understood (regular child (List.mem_of_mem_filter member))

theorem lowerDecorator_understood (regular : tree.AllRegular) (isKind : tree.kind = .decorator) :
    Ensures (fun _ => Understood tree) (lowerDecorator tree) := by
  have known : tree.kind.isUnknown = false := by rw [isKind]; rfl
  unfold lowerDecorator
  split
  next => exact ensures_error _
  next e rest named =>
    have member : e ∈ tree.children := by
      have listed : e ∈ tree.namedChildren := named ▸ List.mem_cons_self ..
      exact (List.mem_filter.1 listed).1
    have inner := regular.child member
    -- The translation looks at the first named child only.
    have understood (first : Understood e) : Understood tree := by
      refine .intro known fun child _ looks => ?_
      rw [LooksAt, isKind] at looks
      have head : tree.namedChildren.head? = some child := looks
      have same : e = child := by simpa [named] using head
      exact same ▸ first
    have parts := (reads_understood e inner).parts
    by_cases isCall : e.kind = .call
    · rw [if_pos isCall]
      have callKnown : e.kind.isUnknown = false := by rw [isCall]; rfl
      have once : e.kind.repeated = [] := by rw [isCall]; rfl
      refine ensures_bind (ensures_childAt (inner.self callKnown) (by simp [once]))
        fun function found => ?_
      obtain ⟨functionMember, _, only⟩ := found
      have functionParts := (reads_understood function (inner.child functionMember)).parts
      refine ensures_bind (callee_understood functionParts) fun _ callee => ?_
      refine ensures_bind (argumentsAt_field inner callKnown (by simp [once])) fun _ arguments => ?_
      have functions : FieldUnderstood e.children "function" := by
        intro child childMember fills
        rw [only child childMember fills]
        exact callee
      exact ensures_ok (understood (understood_fields callKnown (by rw [isCall]; rfl)
        (by simpa using ⟨functions, arguments⟩)))
    · rw [if_neg isCall]
      exact ensures_map (callee_understood parts) fun _ => understood

theorem lowerDecorators_understood (regular : ∀ child ∈ children, child.AllRegular) :
    Ensures (fun _ => ∀ child ∈ children, child.kind = .decorator → Understood child)
      (lowerDecorators children) := by
  have each : ∀ child ∈ children.filter (·.kind == .decorator),
      Ensures (fun _ => Understood child) (lowerDecorator child) := by
    intro child member
    obtain ⟨inside, isKind⟩ := List.mem_filter.1 member
    exact lowerDecorator_understood (regular child inside) (by simpa using isKind)
  refine ensures_bind (ensures_each each) fun _ all => ensures_ok ?_
  intro child member isKind
  exact all child (List.mem_filter.2 ⟨member, by simp [isKind]⟩)

theorem lowerHeader_understood (regular : tree.AllRegular)
    (isKind : tree.kind = .functionDefinition) :
    Ensures (fun _ => ∀ name ∈ ["name", "return_type", "type_parameters", "parameters"],
        ∀ child ∈ tree.children, child.fills name = true → ¬ Relabelled tree child →
          Understood child)
      (lowerHeader tree.kind tree.span tree.children) := by
  have known : tree.kind.isUnknown = false := by rw [isKind]; rfl
  have once : tree.kind.repeated = [] := by rw [isKind]; rfl
  have here := regular.self known
  refine ensures_bind (ensures_true _) fun _ _ => ?_
  refine ensures_bind (rejectField_understood _ _ _) fun _ results => ?_
  refine ensures_bind (rejectField_understood _ _ _) fun _ typeParameters => ?_
  refine ensures_bind (ensures_true _) fun _ _ => ?_
  refine ensures_bind (ensures_childAt here (by simp [once])) fun parameters found => ?_
  obtain ⟨member, fills, only⟩ := found
  have inner := regular.child member
  refine ensures_bind (lowerParameters_understood fun child => inner.child) fun _ all => ?_
  refine ensures_ok ?_
  simp only [List.forall_mem_cons]
  refine ⟨fun child childMember childFills _ => ?_, fun child childMember childFills _ =>
    results child childMember childFills, fun child childMember childFills _ =>
    typeParameters child childMember childFills, fun child childMember childFills named => ?_,
    by simp⟩
  · have isName := here.names child childMember (by simp [isKind, fills_iff.1 childFills])
    exact understood_of_leaf isName rfl rfl
  · have same := only child childMember childFills
    rw [same] at named ⊢
    by_cases isParameters : parameters.kind = .parameters
    · exact understood_every (by rw [isParameters]; rfl) (by rw [isParameters]; rfl) all
    · exact absurd (.inl ⟨isKind, fills_iff.1 fills, isParameters⟩) named

end Simple

structure StatesUnderstood (frontEnd : FrontEnd) (tree : Tree) : Prop where
  stmt : Yields (fun _ => Understood tree) (lowerStmt frontEnd tree)
  block : Yields (fun _ => Understood tree) (lowerBlock frontEnd tree)
  alternative : Yields (fun _ => Understood tree) (lowerAlternative frontEnd tree)
  definition : Yields (fun _ => Understood tree) (lowerDefinition frontEnd tree)
  members (owner : String) : tree.kind = .block →
    Yields (fun _ => Understood tree) (lowerMembers frontEnd owner tree)
  method : Yields (fun _ => Understood tree) (lowerMethod frontEnd tree)

section Children

variable {frontEnd : FrontEnd}

theorem yields_field {α : Type} {kind : Kind} {span : Span} {field : String}
    {action : Tree → LowerM α} (regular : tree.Regular) (once : field ∉ tree.kind.repeated)
    (acts : ∀ child ∈ tree.children, child.fills field = true →
      Yields (fun _ => Understood child) (action child)) :
    Yields (fun _ => FieldUnderstood tree.children field)
      (requiredM kind span field ((tree.children.find? (·.fills field)).map action)) := by
  cases found : tree.children.find? (·.fills field) with
  | none => exact yields_refuse _
  | some child =>
      have fills := List.find?_some found
      have understood := acts child (List.mem_of_find?_eq_some found) fills
      exact understood.weaken fun _ => regular.fieldUnderstood once found

theorem lowerStmts_understood (inner : ∀ child ∈ children, StatesUnderstood frontEnd child) :
    Yields (fun _ => NamedUnderstood children) (lowerStmts frontEnd children) := by
  rw [lowerStmts_eq, namedUnderstood_iff]
  exact yields_each fun child member => (inner child (List.mem_of_mem_filter member)).stmt

theorem lowerAlternatives_understood
    (inner : ∀ child ∈ children, StatesUnderstood frontEnd child) :
    Yields (fun _ => FieldUnderstood children "alternative")
      (lowerAlternatives frontEnd children) := by
  rw [lowerAlternatives_eq, fieldUnderstood_iff]
  exact yields_each fun child member => (inner child (List.mem_of_mem_filter member)).alternative

theorem understood_of_layout {child : Tree} (layout : isClassLayout child.kind = true) :
    Understood child := by
  simp only [isClassLayout, Bool.or_eq_true, beq_iff_eq] at layout
  rcases layout with (isKind | isKind) | isKind <;> exact understood_of_leaf isKind rfl rfl

theorem lowerMemberList_understood (owner : String)
    (inner : ∀ child ∈ children, StatesUnderstood frontEnd child) :
    Yields (fun _ => NamedUnderstood children) (lowerMemberList frontEnd owner children) := by
  rw [lowerMemberList_eq]
  have members : ∀ child ∈ children.filter isMember,
      Yields (fun _ => Understood child) (lowerMember frontEnd owner child) := by
    intro child member
    unfold lowerMember
    split
    · exact yields_refuse _
    · refine yields_bind (inner child (List.mem_of_mem_filter member)).method fun _ understood => ?_
      exact yields_pure understood
  refine (yields_each members).weaken fun _ all child member named => ?_
  by_cases layout : isClassLayout child.kind = true
  · exact understood_of_layout layout
  · exact all child (List.mem_filter.2 ⟨member, by simp [isMember, named, layout]⟩)

theorem blockAt_understood {kind : Kind} {span : Span} {field : String}
    (inner : ∀ child ∈ tree.children, StatesUnderstood frontEnd child) (regular : tree.Regular)
    (once : field ∉ tree.kind.repeated) :
    Yields (fun _ => FieldUnderstood tree.children field)
      (requiredM kind span field (blockAt frontEnd field tree.children)) := by
  rw [blockAt_eq]
  exact yields_field regular once fun child member _ => (inner child member).block

theorem functionFrom_understood (regular : tree.AllRegular)
    (isKind : tree.kind = .functionDefinition)
    (inner : ∀ child ∈ tree.children, StatesUnderstood frontEnd child) :
    Yields (fun _ => Understood tree) (functionFrom tree.kind tree.span tree.children
      (blockAt frontEnd "body" tree.children)) := by
  have known : tree.kind.isUnknown = false := by rw [isKind]; rfl
  have once : tree.kind.repeated = [] := by rw [isKind]; rfl
  refine yields_bind (yields_lift (lowerHeader_understood regular isKind)) fun _ header => ?_
  refine yields_bind (blockAt_understood inner (regular.self known) (by simp [once]))
    fun _ body => yields_pure (.intro known ?_)
  intro child member looks
  rw [LooksAt, isKind] at looks
  obtain ⟨⟨name, listed, fills⟩, named⟩ := looks
  by_cases isBody : name = "body"
  · exact body child member (isBody ▸ fills)
  · exact header name (by simpa [isBody] using listed) child member fills named

theorem decoratedFrom_understood (regular : tree.AllRegular)
    (isKind : tree.kind = .decoratedDefinition)
    (inner : ∀ child ∈ tree.children, StatesUnderstood frontEnd child) :
    Yields (fun _ => Understood tree) (decoratedFrom tree.kind tree.span tree.children
      (definitionAt frontEnd tree.children)) := by
  have known : tree.kind.isUnknown = false := by rw [isKind]; rfl
  have once : tree.kind.repeated = [] := by rw [isKind]; rfl
  have decorated := lowerDecorators_understood fun child member => regular.child member
  have defined : Yields (fun _ => FieldUnderstood tree.children "definition")
      (requiredM tree.kind tree.span "definition" (definitionAt frontEnd tree.children)) := by
    rw [definitionAt_eq]
    exact yields_field (regular.self known) (by simp [once]) fun child member _ =>
      (inner child member).definition
  refine yields_bind (yields_lift decorated) fun _ decorators => ?_
  refine yields_bind defined fun _ definition => yields_pure (.intro known ?_)
  intro child member looks
  rw [LooksAt, isKind] at looks
  rcases looks with isDecorator | fills
  · exact decorators child member isDecorator
  · exact definition child member fills

theorem lowerStmt_understood (regular : tree.AllRegular)
    (inner : ∀ child ∈ tree.children, StatesUnderstood frontEnd child) :
    Yields (fun _ => Understood tree) (lowerStmt frontEnd tree) := by
  obtain ⟨kind, span, text, field, children⟩ := tree
  unfold lowerStmt
  split
  · exact yields_pure (understood_leaf rfl rfl)
  · exact yields_lift ((ensures_true _).weaken fun _ _ => understood_leaf rfl rfl)
  · exact yields_lift ((lowerExpressionStatement_understood fun child member =>
      regular.child member).weaken fun _ all => understood_every rfl rfl all)
  · exact yields_lift (lowerReturn_understood regular rfl)
  · exact yields_pure (understood_leaf rfl rfl)
  · -- prints
    refine yields_lift (ensures_map (printItems_understood fun child member =>
      regular.child member) fun _ items => ?_)
    exact understood_fields rfl rfl (by simpa using items)
  · -- imports of modules
    refine yields_lift (ensures_bind (lowerTargets_understood regular) fun _ targets => ?_)
    exact (ensures_true _).weaken fun _ _ => understood_fields rfl rfl (by simpa using targets)
  · -- imports of names
    refine yields_bind (yields_lift (lowerImportFrom_understood regular rfl)) fun _ understood => ?_
    refine yields_bind (yields_record _) fun _ _ => ?_
    exact yields_bind (yields_lift (ensures_true _)) fun _ _ => yields_pure understood
  · -- conditionals
    have here := regular.self rfl
    refine yields_bind (yields_lift (exprAt_field regular rfl (by simp [Kind.repeated])))
      fun _ condition => ?_
    refine yields_bind (blockAt_understood inner here (by simp [Kind.repeated])) fun _ body => ?_
    refine yields_bind (lowerAlternatives_understood inner) fun _ others => ?_
    refine yields_lift ((ensures_true _).weaken fun _ _ => ?_)
    exact understood_fields rfl rfl (by simpa using ⟨condition, body, others⟩)
  · -- loops over a range
    have here := regular.self rfl
    refine yields_bind (yields_lift (ensures_true _)) fun _ _ => ?_
    refine yields_bind (yields_lift (rejectField_understood _ _ _)) fun _ alternative => ?_
    refine yields_bind (yields_lift (exprAt_field regular rfl (by simp [Kind.repeated])))
      fun _ target => ?_
    refine yields_bind (yields_lift (exprAt_field regular rfl (by simp [Kind.repeated])))
      fun _ iterable => ?_
    refine yields_bind (blockAt_understood inner here (by simp [Kind.repeated])) fun _ body => ?_
    refine yields_bind (yields_lift (ensures_true _)) fun _ _ => yields_pure ?_
    exact understood_fields rfl rfl (by simpa using ⟨alternative, target, iterable, body⟩)
  · -- loops with a condition
    have here := regular.self rfl
    refine yields_bind (yields_lift (rejectField_understood _ _ _)) fun _ alternative => ?_
    refine yields_bind (yields_lift (exprAt_field regular rfl (by simp [Kind.repeated])))
      fun _ condition => ?_
    refine yields_bind (blockAt_understood inner here (by simp [Kind.repeated])) fun _ body => ?_
    exact yields_pure (understood_fields rfl rfl (by simpa using ⟨alternative, condition, body⟩))
  · exact yields_bind (functionFrom_understood regular rfl inner) fun _ understood =>
      yields_pure understood
  · exact yields_bind (decoratedFrom_understood regular rfl inner) fun _ understood =>
      yields_pure understood
  · -- classes: the bases are turned down, so that only the name and the methods are left
    have here := regular.self rfl
    refine yields_bind (yields_lift (rejectField_understood _ _ _)) fun _ bases => ?_
    refine yields_bind (yields_lift (ensures_true _)) fun name _ => ?_
    rw [membersAt_eq]
    refine yields_bind (yields_field here (by simp [Kind.repeated]) fun child member fills =>
      (inner child member).members name.text
        (here.bodies child member (by simp [fills_iff.1 fills]))) fun _ members => ?_
    have names : FieldUnderstood children "name" := by
      intro child member fills
      have isName := here.names child member (by simp [fills_iff.1 fills])
      exact understood_of_leaf isName rfl rfl
    exact yields_pure (understood_fields rfl rfl (by simpa using ⟨bases, names, members⟩))
  · exact yields_refuse _

theorem states_understood (frontEnd : FrontEnd) (tree : Tree) (regular : tree.AllRegular) :
    StatesUnderstood frontEnd tree := by
  induction tree using Tree.induction with
  | step tree ih =>
      have inner : ∀ child ∈ tree.children, StatesUnderstood frontEnd child :=
        fun child member => ih child member (regular.child member)
      refine ⟨lowerStmt_understood regular inner, ?_, ?_, ?_, fun owner => ?_, ?_⟩
      all_goals obtain ⟨kind, span, text, field, children⟩ := tree
      -- a block, an alternative, a definition, the members of a class, a method
      · unfold lowerBlock
        split
        next isBlock =>
          cases isBlock
          exact (lowerStmts_understood inner).weaken fun _ all => understood_every rfl rfl all
        next => exact yields_refuse _
      · unfold lowerAlternative
        split
        · refine yields_bind (yields_lift (exprAt_field regular rfl (by simp [Kind.repeated])))
            fun _ condition => ?_
          refine yields_bind (blockAt_understood inner (regular.self rfl) (by simp [Kind.repeated]))
            fun _ body => yields_pure ?_
          exact understood_fields rfl rfl (by simpa using ⟨condition, body⟩)
        · refine yields_bind (blockAt_understood inner (regular.self rfl) (by simp [Kind.repeated]))
            fun _ body => yields_pure ?_
          exact understood_fields rfl rfl (by simpa using body)
        · exact yields_refuse _
      · unfold lowerDefinition
        split
        next isFunction =>
          cases isFunction
          exact functionFrom_understood regular rfl inner
        next => exact yields_refuse _
      · intro isBlock
        cases isBlock
        exact (lowerMemberList_understood owner inner).weaken fun _ all =>
          understood_every rfl rfl all
      · unfold lowerMethod
        split
        · exact functionFrom_understood regular rfl inner
        · exact decoratedFrom_understood regular rfl inner
        · exact yields_refuse _

end Children

theorem lowerRoot_understood (frontEnd : FrontEnd) {tree : Tree} (regular : tree.AllRegular) :
    Yields (fun _ => Understood tree) (lowerRoot frontEnd tree) := by
  unfold lowerRoot
  split
  next isRoot =>
    have inner : ∀ child ∈ tree.children, StatesUnderstood frontEnd child :=
      fun child member => states_understood frontEnd child (regular.child member)
    exact (lowerStmts_understood inner).weaken fun _ all =>
      understood_every (by rw [isRoot]; rfl) (by rw [isRoot]; rfl) all
  next => exact yields_refuse _

end Lowering

namespace Tree

/-- The children that lowering may overlook, whatever stands in and below them. -/
inductive Overlooks (parent child : Tree) : Prop
  | typeParameters (isClass : parent.kind = .classDefinition)
      (fills : child.field = some "type_parameters")
  | operator (hasOperator : parent.kind ∈ [Kind.augmentedAssignment, .binaryOperator,
      .booleanOperator, .unaryOperator]) (fills : child.field = some "operator")
  | relabelled (otherKind : Relabelled parent child)
  | loose (fills : child.field = none) (unseen : ¬ parent.LooksAt child)
      (mayHave : parent.kind.isLeaf = true → parent.kind = .token)

theorem otherFields_of_first {kind : Kind} (scope : kind.scope = .first) :
    kind.otherFields = [] := by
  cases kind <;> first | rfl | cases scope

theorem otherFields_of_decorators {kind : Kind} (scope : kind.scope = .decorators) :
    kind.otherFields = ["definition"] := by
  cases kind <;> first | rfl | cases scope

theorem otherFields_of_fields {kind : Kind} {names : List String} {field : String}
    (scope : kind.scope = .fields names) (other : field ∈ kind.otherFields) :
    (kind = .classDefinition ∧ field = "type_parameters") ∨
      (kind ∈ [Kind.augmentedAssignment, .binaryOperator, .booleanOperator, .unaryOperator] ∧
        field = "operator") := by
  cases kind <;> simp_all [Kind.otherFields, Kind.scope]

theorem Regular.overlooks {parent child : Tree} (regular : parent.Regular)
    (member : child ∈ parent.children) (unseen : ¬ parent.LooksAt child) :
    Overlooks parent child ∨ child.kind = .token := by
  have looks := unseen
  rw [LooksAt] at looks
  cases fills : child.field with
  | none =>
      refine .inl (.loose fills unseen fun leaf => ?_)
      by_cases isToken : parent.kind = .token
      · exact isToken
      · rw [regular.leaves leaf isToken] at member
        cases member
  | some field =>
      have granted := regular.fields child member field fills
      rw [Kind.grammarFields] at granted
      cases scope : parent.kind.scope with
      | every =>
          simp only [scope] at looks
          exact .inr (by simpa [isToken] using looks)
      | first =>
          simp only [scope, otherFields_of_first scope] at granted
          cases granted
      | decorators =>
          simp only [scope, otherFields_of_decorators scope, List.mem_singleton] at granted looks
          exact absurd (.inr (fills_iff.2 (granted ▸ fills))) looks
      | fields names =>
          simp only [scope, List.mem_append] at granted looks
          rcases granted with listed | other
          · refine .inl (.relabelled (Classical.byContradiction fun plain => looks ⟨?_, plain⟩))
            exact ⟨field, listed, fills_iff.2 fills⟩
          · rcases otherFields_of_fields scope other with ⟨isClass, rfl⟩ | ⟨hasOperator, rfl⟩
            · exact .inl (.typeParameters isClass fills)
            · exact .inl (.operator hasOperator fills)

theorem Regular.overlooks_token {parent child : Tree} (regular : parent.Regular)
    (isToken : parent.kind = .token) (member : child ∈ parent.children) :
    Overlooks parent child := by
  have unseen : ¬ parent.LooksAt child := by
    rw [LooksAt, isToken]
    rintro ⟨⟨name, listed, _⟩, _⟩
    cases listed
  refine .loose ?_ unseen fun _ => isToken
  cases fills : child.field with
  | none => rfl
  | some field =>
      have granted := regular.fields child member field fills
      rw [isToken] at granted
      cases granted

theorem Understood.unknown {tree node : Tree} (understood : tree.Understood)
    (regular : tree.AllRegular) (within : tree.Within node)
    (unknown : node.kind.isUnknown = true) :
    ∃ parent child, tree.Within parent ∧ child ∈ parent.children ∧ child.Within node ∧
      Overlooks parent child := by
  induction within with
  | self tree =>
      obtain ⟨known, _⟩ := understood
      rw [known] at unknown
      cases unknown
  | @under tree child node member within ih =>
      obtain ⟨known, seen⟩ := understood
      by_cases looks : tree.LooksAt child
      · obtain ⟨parent, below, reached, rest⟩ := ih (seen child member looks)
          (regular.child member) unknown
        exact ⟨parent, below, .under member reached, rest⟩
      rcases (regular.self known).overlooks member looks with overlooks | isToken
      · exact ⟨tree, child, .self tree, member, within, overlooks⟩
      cases within with
      | self =>
          rw [isToken] at unknown
          cases unknown
      | @under _ below _ belowMember belowWithin =>
          have here := (regular.child member).self (by rw [isToken]; rfl)
          exact ⟨child, below, .under member (.self child), belowMember, belowWithin,
            here.overlooks_token isToken belowMember⟩

end Tree

/-- Where lowering accepts a tree that is as the grammar has it, every node of an unknown kind is
one of the children that may be overlooked or stands below one. -/
theorem unknown_nodes_overlooked {frontEnd : FrontEnd} {tree : Tree} {lowered : LoweredModule}
    (lowers : LoweredModule.ofTree frontEnd tree = .ok lowered) (regular : tree.AllRegular)
    {node : Tree} (within : tree.Within node) (unknown : node.kind.isUnknown = true) :
    ∃ parent child, tree.Within parent ∧ child ∈ parent.children ∧ child.Within node ∧
      parent.Overlooks child := by
  have understood : tree.Understood := by
    unfold LoweredModule.ofTree at lowers
    split at lowers
    next body imports run =>
      exact Lowering.lowerRoot_understood frontEnd regular .empty body (congrArg Prod.fst run)
    next => cases lowers
  exact understood.unknown regular within unknown

def typeParametersTree : Tree :=
  ⟨.unknown "type_parameter", .ofRange 7 10, "[T]", some "type_parameters",
    [.leaf .token (.ofRange 7 8) "[" none, .leaf .identifier (.ofRange 8 9) "T" none,
     .leaf .token (.ofRange 9 10) "]" none]⟩

/-- The tree of `class A[T]: pass`. -/
def genericClassTree : Tree :=
  let node (kind : Kind) (start stop : Nat) (field : Option String) (children : List Tree) : Tree :=
    ⟨kind, .ofRange start stop, "", field, children⟩
  node .root 0 16 none
    [node .classDefinition 0 16 none
      [.leaf .token (.ofRange 0 5) "class" none,
       .leaf .identifier (.ofRange 6 7) "A" (some "name"), typeParametersTree,
       .leaf .token (.ofRange 10 11) ":" none,
       node .block 12 16 (some "body")
        [node .passStatement 12 16 none [.leaf .token (.ofRange 12 16) "pass" none]]]]

theorem generic_class_overlooked :
    ∃ lowered, LoweredModule.ofTree Directive.frontEnd genericClassTree = .ok lowered ∧
      genericClassTree.Within typeParametersTree ∧
        ∃ parent child, genericClassTree.Within parent ∧ child ∈ parent.children ∧
          child.Within typeParametersTree ∧ parent.Overlooks child := by
  have regular : genericClassTree.AllRegular := by decide
  have within : genericClassTree.Within typeParametersTree :=
    .under (List.mem_cons_self ..) (.under (.tail _ (.tail _ (.head _))) (.self _))
  refine ⟨_, rfl, within, ?_⟩
  exact @unknown_nodes_overlooked Directive.frontEnd _ _ rfl regular _ within rfl

end NumericPython

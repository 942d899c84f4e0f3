import NumericPython.Proofs.RoundTrip.Bodies

set_option autoImplicit false

namespace NumericPython

open Grammar Lowering Printing RawTree

variable {alphabet : Alphabet} {width level : Nat} {definition : FunctionDef}

section Functions

/-- A definition about which no more is known than its text tells: a name, parameters, a body,
decorators, and the class that it belongs to. -/
structure FunctionDef.IsTextual (alphabet : Alphabet) (owner : Option String)
    (definition : FunctionDef) : Prop where
  isName : IsName alphabet definition.name
  parameters : ∀ parameter ∈ definition.arguments, parameter.IsWritable alphabet
  decorators : ∀ decorator ∈ definition.decorators.entries, IsDecorator alphabet decorator
  plain : definition = { FunctionDef.plain definition.name definition.arguments definition.body with
    classOwner := owner
    decorators := definition.decorators }

theorem table_of_nil {α : Type} {table : Table α} (empty : table.entries = []) : table = .empty := by
  obtain ⟨entries, nodup⟩ := table
  cases empty
  rfl

theorem makes_decorators {entries : List (String × List Expr)} {texts : List String}
    (written : List.Forall₂ (fun entry text => Worded alphabet isEnd DecoratorWords
      (fun source tree => ReadsDecorator source tree entry ∧ tree.field = none)
      (String.toList text)) entries texts) {lines : List Line} {reads : Source → RawTree → Prop}
    (makes : Makes alphabet width level .decorated lines (single reads)) :
    Makes alphabet width level .decorated (texts.map (.text level) ++ lines) fun source trees =>
      ∃ decorators tree, trees = decorators ++ [tree] ∧
        List.Forall₂ (ReadsDecorator source) decorators entries ∧
        (∀ decorator ∈ decorators, decorator.field = none) ∧ reads source tree := by
  induction written with
  | nil =>
      refine makes.imp ?_
      rintro source _ ⟨tree, rfl, reads⟩
      exact ⟨[], tree, rfl, .nil, by simp, reads⟩
  | cons worded _ ih =>
      refine (makes_decorator worded ih).imp ?_
      rintro source _ ⟨first, _, rfl, ⟨decorates, plain⟩, decorators, tree, rfl, all, plain', reads⟩
      exact ⟨first :: decorators, tree, rfl, .cons decorates all,
        List.forall_mem_cons.2 ⟨plain, plain'⟩, reads⟩

theorem functionLines_eq {table : Table (List Expr)} {decorators parameters : List String}
    {lines : List Line} (ends : EndsInStatement definition.body)
    (same : definition.decorators = table) (printed : table.entries.mapM decoratorText = .ok decorators)
    (printed' : definition.arguments.mapM parameterText = .ok parameters)
    (printed'' : stmtsLines (level + 1) definition.body = .ok lines) :
    functionLines level definition = .ok (decorators.map (.text level) ++
      .text level ("def " ++ callText definition.name parameters ++ ":") :: lines) := by
  subst same
  have body : bodyLines (level + 1) definition.body lines = lines := bodyLines_of_ends ends lines
  exact functionLines_ok.2 ⟨_, _, _, printed, printed', printed'', by rw [body]⟩

theorem exists_function (positive : 0 < width) {owner : Option String}
    (textual : definition.IsTextual alphabet owner) (ends : EndsInStatement definition.body)
    (each : ∀ s ∈ definition.body, s.ReadsBack alphabet width) (level : Nat) :
    ∃ lines, functionLines level definition = .ok lines ∧
      Makes alphabet width level .statement lines (single fun source tree =>
        ReadsFunction source tree { definition with classOwner := none }) := by
  obtain ⟨lines, printedBody, _, body⟩ := exists_body ends each (level + 1)
  obtain ⟨parameters, printed, worded⟩ := mapM_forall₂ fun parameter member =>
    (textual.parameters parameter member).written
  obtain ⟨decorators, printed', worded'⟩ := mapM_forall₂ fun decorator member =>
    (textual.decorators decorator member).written
  have clause := makes_suite positive (isHeader_function textual.isName worded) body
  have same : { definition with classOwner := none } =
      { FunctionDef.plain definition.name definition.arguments definition.body with
        decorators := definition.decorators } := by
    rw [textual.plain]
    rfl
  refine ⟨_, functionLines_eq ends rfl printed' printed printedBody, ?_⟩
  rw [same]
  generalize table : definition.decorators.entries = entries at worded'
  cases worded' with
  | nil =>
      refine (clause.compound rfl (by simp)).imp ?_
      rintro source _ ⟨_, rfl, children, rfl, reads⟩
      rw [table_of_nil table]
      exact ⟨_, rfl, reads.readsFunction⟩
  | cons here later =>
      have inner := makes_decorators later (clause.definition rfl (by simp))
      refine (makes_decorated here inner).imp ?_
      rintro source _ ⟨_, rfl, first, _, rfl, ⟨decorates, plain⟩, others, _, rfl, all, plain',
        children, rfl, reads⟩
      refine ⟨_, rfl, @readsFunction_decorated _ (first :: others) _ definition.decorators children
        ?_ (List.forall_mem_cons.2 ⟨plain, plain'⟩) reads⟩
      rw [table]
      exact .cons decorates all

theorem function_readsBack (positive : 0 < width) (textual : definition.IsTextual alphabet none)
    (ends : EndsInStatement definition.body)
    (each : ∀ s ∈ definition.body, s.ReadsBack alphabet width) :
    (Stmt.functionDef definition).ReadsBack alphabet width := by
  intro level
  obtain ⟨lines, printed, makes⟩ := exists_function positive textual ends each level
  refine ⟨lines, StmtForm.written (.functionDef printed), isMade_of_reads rfl (makes.imp ?_)⟩
  rintro source _ ⟨tree, rfl, reads⟩
  have free : { definition with classOwner := none } = definition := by
    rw [textual.plain]
  rw [free] at reads
  exact ⟨tree, rfl, reads.readsStmt⟩

end Functions

section Classes

variable {owner : String} {methods : List FunctionDef}

def MeansMember (owner : String) (tree : Tree) : Option FunctionDef → Prop
  -- What stands in the body of a class is a method or layout.
  | none => tree.isToken = false ∧ tree.isPragma = false ∧ isClassLayout tree.kind = true
  | some method => tree.kind ∈ [.functionDefinition, .decoratedDefinition] ∧
      ∃ definition, Gives (lowerMethod Directive.frontEnd tree) definition ∧
        { definition with classOwner := some owner } = method

theorem holdsMethods_of_means {layout : List Tree} {items : List (Option FunctionDef)}
    (all : List.Forall₂ (MeansMember owner) layout items) :
    HoldsMethods owner (items.filterMap id) layout := by
  induction all with
  | nil =>
      rw [HoldsMethods, lowerMemberList]
      exact gives_pure _
  | @cons tree item layout items here _ ih =>
      rw [HoldsMethods, lowerMemberList]
      cases item with
      | none =>
          obtain ⟨notToken, notPragma, isLayout⟩ := here
          rw [notToken, if_neg Bool.false_ne_true, notPragma, if_neg Bool.false_ne_true, isLayout,
            if_pos rfl]
          exact ih
      | some method =>
          obtain ⟨kind, definition, gives, rfl⟩ := here
          have plain : tree.isToken = false ∧ tree.isPragma = false ∧
              isClassLayout tree.kind = false := by
            simp only [List.mem_cons, List.not_mem_nil, or_false] at kind
            rcases kind with kind | kind <;>
              simp [Tree.isToken, Tree.isPragma, isClassLayout, kind]
          rw [plain.1, if_neg Bool.false_ne_true, plain.2.1, if_neg Bool.false_ne_true, plain.2.2,
            if_neg Bool.false_ne_true]
          exact gives.bind (ih.bind (gives_pure _))

theorem isMade_method {lines : List Line}
    (textual : definition.IsTextual alphabet (some owner))
    (makes : Makes alphabet width level .statement lines (single fun source tree =>
      ReadsFunction source tree { definition with classOwner := none })) :
    Chunk.IsMade alphabet width level (MeansMember owner) ⟨true, lines, some definition⟩ := by
  refine .node (makes.imp ?_)
  rintro source _ ⟨tree, rfl, reads⟩
  refine ⟨tree, rfl, reads.readsStmt.isSolid, by rw [convert_kind]; exact reads.sort,
    { definition with classOwner := none }, ?_, ?_⟩
  · cases tree
    exact reads.lowers _ none
  · rw [textual.plain]

theorem isMade_pass :
    Chunk.IsMade alphabet width level (MeansMember owner) ⟨true, [.text level "pass"], none⟩ := by
  -- A class without methods has a statement in its place that does nothing.
  refine .node ((@makes_simple _ _ _ _ (fun _ tree => tree.treeKind = .passStatement) ?_).imp ?_)
  · exact fun start => ⟨_, _, ⟨'p', _, rfl, rfl⟩, segment_keyword (by decide),
      ⟨_, .pass (isMark_mk "pass" start)⟩, fun _ _ => rfl⟩
  · rintro source _ ⟨tree, rfl, kind⟩
    have converted : (convert source none tree).kind = .passStatement := convert_kind.trans kind
    refine ⟨tree, rfl, by rw [IsSolid, kind]; decide, ?_⟩
    simp [MeansMember, Tree.isToken, Tree.isPragma, isClassLayout, converted]

theorem exists_separated {groups : List (List Line)} {method : FunctionDef}
    (made : List.Forall₂ (fun lines method => Chunk.IsMade alphabet width level (MeansMember owner)
      ⟨true, lines, some method⟩) groups (method :: methods)) :
    ∃ chunks : List (Chunk (Option FunctionDef)),
      chunks.flatMap Chunk.lines = Line.separated groups ∧
      (chunks.map Chunk.item).filterMap id = method :: methods ∧
      (∀ chunk ∈ chunks, chunk.IsMade alphabet width level (MeansMember owner)) ∧
      ∃ last ∈ chunks.getLast?, last.solid = true := by
  induction methods generalizing groups method with
  | nil =>
      cases made with
      | @cons lines _ groups _ here later =>
          cases later
          exact ⟨[⟨true, lines, some method⟩], by simp [Line.separated], rfl, by simpa using here,
            _, rfl, rfl⟩
  | cons next methods ih =>
      cases made with
      | @cons lines _ groups _ here later =>
          obtain ⟨chunks, same, items, all, last, found, solid⟩ := ih later
          obtain ⟨lines', groups', rfl⟩ : ∃ lines' groups', groups = lines' :: groups' := by
            cases later with
            | cons => exact ⟨_, _, rfl⟩
          have blank : Chunk.IsMade alphabet width level (MeansMember owner)
              ⟨false, [.blank], none⟩ := .blank fun start => ⟨rfl, rfl, rfl⟩
          refine ⟨⟨true, lines, some method⟩ :: ⟨false, [.blank], none⟩ :: chunks, ?_, ?_, ?_, last,
            ?_, solid⟩
          · rw [List.flatMap_cons, List.flatMap_cons, same]
            rfl
          · simpa using items
          · exact List.forall_mem_cons.2 ⟨here, List.forall_mem_cons.2 ⟨blank, all⟩⟩
          · rw [List.getLast?_cons, List.getLast?_cons, found]
            rfl

theorem exists_methods (positive : 0 < width)
    (textual : ∀ method ∈ methods, method.IsTextual alphabet (some owner))
    (ends : ∀ method ∈ methods, EndsInStatement method.body)
    (each : ∀ method ∈ methods, ∀ s ∈ method.body, s.ReadsBack alphabet width) (level : Nat) :
    ∃ groups, methodLines level methods = .ok groups ∧ List.Forall₂ (fun lines method =>
      Chunk.IsMade alphabet width level (MeansMember owner) ⟨true, lines, some method⟩)
      groups methods := by
  have written : ∃ groups, methods.mapM (functionLines level) = .ok groups ∧
      List.Forall₂ (fun method lines => Chunk.IsMade alphabet width level (MeansMember owner)
        ⟨true, lines, some method⟩) methods groups := by
    refine mapM_forall₂ fun method member => ?_
    obtain ⟨lines, printed, makes⟩ := exists_function positive (textual method member)
      (ends method member) (each method member) level
    exact ⟨lines, printed, isMade_method (textual method member) makes⟩
  obtain ⟨groups, printed, made⟩ := written
  exact ⟨groups, by rw [methodLines_eq_mapM, printed], made.flip⟩

theorem class_readsBack (positive : 0 < width) (isName : IsName alphabet owner)
    (textual : ∀ method ∈ methods, method.IsTextual alphabet (some owner))
    (ends : ∀ method ∈ methods, EndsInStatement method.body)
    (each : ∀ method ∈ methods, ∀ s ∈ method.body, s.ReadsBack alphabet width) :
    (Stmt.ofMethods owner methods).ReadsBack alphabet width := by
  intro level
  obtain ⟨groups, printed, made⟩ := exists_methods positive textual ends each (level + 1)
  have lines : stmtLines level (Stmt.ofMethods owner methods) =
      .ok (.text level ("class " ++ owner ++ ":") ::
        if methods.isEmpty then [.text (level + 1) "pass"] else Line.separated groups) :=
    StmtForm.written (.classDef printed)
  have chunks : ∃ chunks : List (Chunk (Option FunctionDef)), chunks.flatMap Chunk.lines =
        (if methods.isEmpty then [.text (level + 1) "pass"] else Line.separated groups) ∧
      (chunks.map Chunk.item).filterMap id = methods ∧
      (∀ chunk ∈ chunks, chunk.IsMade alphabet width (level + 1) (MeansMember owner)) ∧
      ∃ last ∈ chunks.getLast?, last.solid = true := by
    cases methods with
    | nil => exact ⟨[⟨true, [.text (level + 1) "pass"], none⟩], rfl, rfl,
        by simpa using isMade_pass, _, rfl, rfl⟩
    | cons method methods => exact exists_separated made
  obtain ⟨chunks, same, items, all, ends⟩ := chunks
  have body : MakesBody alphabet width (level + 1)
      (if methods.isEmpty then [.text (level + 1) "pass"] else Line.separated groups)
      (HoldsMethods owner methods) := by
    rw [← same, ← items]
    exact (makes_chunks all ends).imp fun _ => holdsMethods_of_means
  refine ⟨_, lines, isMade_of_reads rfl (((makes_suite positive (isHeader_class isName)
    body).compound rfl (by simp)).imp ?_)⟩
  rintro source _ ⟨_, rfl, children, rfl, reads⟩
  exact ⟨_, rfl, reads⟩

end Classes

end NumericPython

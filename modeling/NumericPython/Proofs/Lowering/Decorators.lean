import NumericPython.Directive
import NumericPython.Proofs.Ast.Table
import NumericPython.Proofs.Lowering.Yields
import NumericPython.Proofs.Printing.Levels

set_option autoImplicit false

namespace NumericPython

def Line.isDecorator (level : Nat) : Line → Bool
  | blank => false
  | text inner content => inner == level && content.toList.head? == some '@'

namespace Printing

theorem head_decoratorText {decorator : String × List Expr} {text : String}
    (written : decoratorText decorator = .ok text) : text.toList.head? = some '@' := by
  unfold decoratorText at written
  split at written
  · cases written
    simp
  · obtain ⟨texts, _, rfl⟩ := map_eq_ok.1 written
    simp

theorem not_decorator_of_under {level : Nat} {line : Line} (under : line.isUnder level = true) :
    line.isDecorator level = false := by
  cases line with
  | blank => rfl
  | text inner content =>
      have deeper : level < inner := of_decide_eq_true under
      simp [Line.isDecorator, Nat.ne_of_gt deeper]

theorem decorator_lines {level : Nat} {definition : FunctionDef} {lines : List Line}
    (written : functionLines level definition = .ok lines) :
    ∃ texts, definition.decorators.entries.mapM decoratorText = .ok texts ∧
      lines.filter (Line.isDecorator level) = texts.map (Line.text level) := by
  obtain ⟨texts, parameters, body, decoratorsWritten, _, bodyWritten, rfl⟩ := functionLines_ok.1 written
  have decorators : ∀ line ∈ texts.map (Line.text level), line.isDecorator level = true := by
    refine List.forall_mem_map.2 fun text member => ?_
    obtain ⟨decorator, _, decoratorWritten⟩ := mem_of_mapM decoratorsWritten member
    simp [Line.isDecorator, head_decoratorText decoratorWritten]
  have header : (Line.text level ("def " ++ callText definition.name parameters ++ ":")).isDecorator
      level = false := by
    simp [Line.isDecorator]
  have others : ∀ line ∈ bodyLines (level + 1) definition.body body,
      ¬ line.isDecorator level = true := by
    intro line member
    have under := bodyLines_under (stmtsLines_under bodyWritten) line member
    simp [not_decorator_of_under under]
  refine ⟨texts, decoratorsWritten, ?_⟩
  rw [List.filter_append, List.filter_eq_self.2 decorators, List.filter_cons_of_neg (by simp [header]),
    List.filter_eq_nil_iff.2 others, List.append_nil]

end Printing

namespace Lowering

/-- A decorated function is lowered as a statement or as a method of a class. -/
def LowersTo (frontEnd : FrontEnd) (tree : Tree) (definition : FunctionDef) : Prop :=
  ∃ table,
    ((lowerStmt frontEnd tree).run.run table).1 = .ok (.functionDef definition) ∨
      ((lowerMethod frontEnd tree).run.run table).1 = .ok definition

/-- The decorators are those among the children, made into a table. -/
def DecoratedBy (children : List Tree) (definition : FunctionDef) : Prop :=
  ∃ read, (children.filter (·.kind == .decorator)).mapM lowerDecorator = .ok read ∧
    definition.decorators = .ofList read

theorem decoratedFrom_decoratedBy (kind : Kind) (span : Span) (children : List Tree)
    (definition? : Option (LowerM FunctionDef)) :
    Yields (DecoratedBy children) (decoratedFrom kind span children definition?) := by
  have decorators : Ensures (fun table => ∃ read,
      (children.filter (·.kind == .decorator)).mapM lowerDecorator = .ok read ∧
        table = .ofList read) (lowerDecorators children) := by
    unfold lowerDecorators
    cases (children.filter (·.kind == .decorator)).mapM lowerDecorator with
    | error cause => exact ensures_error cause
    | ok read => exact ensures_ok ⟨read, rfl, rfl⟩
  refine yields_bind (yields_lift decorators) fun table made => ?_
  refine yields_bind (yields_required fun action _ => fun _ => ensures_true _) fun definition _ => ?_
  exact yields_pure made

theorem LowersTo.decoratedBy {frontEnd : FrontEnd} {tree : Tree} {definition : FunctionDef}
    (lowers : LowersTo frontEnd tree definition) (isDecorated : tree.kind = .decoratedDefinition) :
    DecoratedBy tree.children definition := by
  obtain ⟨kind, span, text, field, children⟩ := tree
  subst isDecorated
  have decorated := decoratedFrom_decoratedBy .decoratedDefinition span children
    (definitionAt frontEnd children)
  obtain ⟨table, asStatement | asMethod⟩ := lowers
  · have yields : Yields (fun s => ∀ definition, s = .functionDef definition →
        DecoratedBy children definition) (lowerStmt frontEnd
          ⟨.decoratedDefinition, span, text, field, children⟩) := by
      unfold lowerStmt
      refine yields_bind decorated fun made decoratedBy => yields_pure fun definition same => ?_
      cases same
      exact decoratedBy
    exact yields table _ asStatement definition rfl
  · have yields : Yields (DecoratedBy children) (lowerMethod frontEnd
        ⟨.decoratedDefinition, span, text, field, children⟩) := by
      unfold lowerMethod
      exact decorated
    exact yields table _ asMethod

/-- The decorators of a definition are those of its tree, one for one and in their order, exactly when
no name comes twice, and exactly then the definition is printed with as many decorator lines as the
tree has decorators. Of a repeated name the first place and the last arguments are kept. -/
theorem decorators_kept_by_name {frontEnd : FrontEnd} {tree : Tree} {definition : FunctionDef}
    (isDecorated : tree.kind = .decoratedDefinition) (lowers : LowersTo frontEnd tree definition) :
    ∃ read,
      (tree.children.filter (·.kind == .decorator)).mapM lowerDecorator = .ok read ∧
      (definition.decorators.entries = read ↔ (read.map Prod.fst).Nodup) ∧
      definition.decorators.keys = (read.map Prod.fst).eraseDups ∧
      (∀ name, definition.decorators.get? name = read.reverse.lookup name) ∧
      ∀ level lines, Printing.functionLines level definition = .ok lines →
        ∃ texts,
          definition.decorators.entries.mapM Printing.decoratorText = .ok texts ∧
          lines.filter (Line.isDecorator level) = texts.map (Line.text level) ∧
          (texts.length = (tree.children.filter (·.kind == .decorator)).length ↔
            (read.map Prod.fst).Nodup) := by
  obtain ⟨read, made, decorators⟩ := lowers.decoratedBy isDecorated
  rw [decorators]
  refine ⟨read, made, Table.entries_ofList_iff, Table.keys_ofList read, Table.get?_ofList read, ?_⟩
  intro level lines written
  obtain ⟨texts, textsWritten, shown⟩ := Printing.decorator_lines written
  rw [decorators] at textsWritten
  refine ⟨texts, textsWritten, shown, ?_⟩
  rw [← ensures_length _ _ read made, ← (Printing.mapM_eq_ok.1 textsWritten).length_eq]
  exact Table.length_ofList_iff

/-- The tree of an empty function under `@types("int")`, `@pure` and `@types("float")`. -/
def retypedTree : Tree :=
  let node (kind : Kind) (text : String) (field : Option String) (children : List Tree) : Tree :=
    ⟨kind, .ofRange 0 0, text, field, children⟩
  let name (text : String) (field : Option String) : Tree := node .identifier text field []
  let typed (literal : String) : Tree :=
    node .decorator "" none
      [node .call "" none [name "types" (some "function"),
        node .argumentList "" (some "arguments") [node .string literal none []]]]
  node .decoratedDefinition "" none
    [typed "\"int\"", node .decorator "" none [name "pure" none], typed "\"float\"",
      node .functionDefinition "" (some "definition")
        [name "f" (some "name"), node .parameters "()" (some "parameters") [],
          node .block "" (some "body") [node .passStatement "pass" none []]]]

def retypedFunction : FunctionDef :=
  { FunctionDef.plain "f" [] [.pass] with
    decorators := .ofList [("types", [.string "float"]), ("pure", [])] }

theorem retyped_function_loses_decorator :
    LowersTo Directive.frontEnd retypedTree retypedFunction ∧
      ∃ read,
        (retypedTree.children.filter (·.kind == .decorator)).mapM lowerDecorator = .ok read ∧
        read.length = 3 ∧ retypedFunction.decorators.entries ≠ read ∧
        ∀ level lines, Printing.functionLines level retypedFunction = .ok lines →
          (lines.filter (Line.isDecorator level)).length ≠ 3 := by
  have lowers : LowersTo Directive.frontEnd retypedTree retypedFunction := ⟨.empty, .inl rfl⟩
  obtain ⟨read, made, kept, _, _, shown⟩ := decorators_kept_by_name rfl lowers
  have same : read =
      [("types", [.string "int"]), ("pure", []), ("types", [.string "float"])] := by
    cases made
    rfl
  have twice : ¬ (read.map Prod.fst).Nodup := by
    rw [same]
    decide
  refine ⟨lowers, read, made, by rw [same]; rfl, mt kept.1 twice, ?_⟩
  intro level lines written
  obtain ⟨texts, _, lineTexts, count⟩ := shown level lines written
  rw [lineTexts, List.length_map]
  exact mt count.1 twice

end Lowering

end NumericPython

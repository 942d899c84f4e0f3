import NumericPython.Printing.Node
import NumericPython.Proofs.Ast.Definitions
import NumericPython.Proofs.Printing.Reordered

set_option autoImplicit false

namespace NumericPython

namespace Printing

theorem isLayout_normal (s : Stmt) : isLayout s.normal = isLayout s := by
  cases s <;> rfl

-- A body that has only been reordered ends with `pass` as it did before.
theorem bodyLines_normal (level : Nat) (body : List Stmt) {left right : List Line}
    (same : Reordered left right) :
    Reordered (bodyLines level body left) (bodyLines level (Stmt.normalAll body) right) := by
  have layout : (Stmt.normalAll body).all isLayout = body.all isLayout := by
    simp [Stmt.normalAll_eq_map, Function.comp_def, isLayout_normal]
  rw [bodyLines, bodyLines, layout]
  split
  · exact same.append_right _
  · exact same

theorem separated_reordered {left right : List (List Line)}
    (same : List.Forall₂ Reordered left right) :
    Reordered (Line.separated left) (Line.separated right) := by
  induction same with
  | nil => exact .refl []
  | cons head tail ih =>
      cases tail with
      | nil => exact head
      | cons next rest => exact head.append (.cons .blank ih)

def DecoratorFault (definitions : List FunctionDef) (cause : PrintError) : Prop :=
  ∃ definition ∈ definitions, ∃ decorator ∈ definition.decorators.entries,
    decoratorText decorator = .error cause

theorem decoratorFault_normal {definitions : List FunctionDef} {cause : PrintError} :
    DecoratorFault (definitions.map FunctionDef.normal) cause ↔
      DecoratorFault definitions cause := by
  have decorators (definition : FunctionDef) :
      definition.normal.decorators = definition.decorators.sorted := by
    cases definition
    rfl
  simp [DecoratorFault, decorators, (Table.sorted_perm _).mem_iff]

section Normal

variable {blamed : PrintError → Prop}

def Covers (blamed : PrintError → Prop) (definitions : List FunctionDef) : Prop :=
  ∀ cause, DecoratorFault definitions cause → blamed cause

theorem covers_append {left right : List FunctionDef} :
    Covers blamed (left ++ right) ↔ Covers blamed left ∧ Covers blamed right := by
  simp only [Covers, DecoratorFault, List.mem_append, or_and_right, exists_or, or_imp, forall_and]

theorem Covers.of_cons {definition : FunctionDef} {rest : List FunctionDef}
    (covered : Covers blamed (definition :: rest)) :
    (∀ decorator ∈ definition.decorators.entries, ∀ cause,
        decoratorText decorator = .error cause → blamed cause) ∧
      Covers blamed rest := by
  constructor
  · intro decorator member cause stopped
    exact covered cause ⟨definition, List.mem_cons_self, decorator, member, stopped⟩
  · rintro cause ⟨other, member, fault⟩
    exact covered cause ⟨other, List.mem_cons_of_mem _ member, fault⟩

theorem decorators_normal (level : Nat) (table : Table (List Expr))
    (covered : ∀ decorator ∈ table.entries, ∀ cause,
      decoratorText decorator = .error cause → blamed cause) :
    Alike blamed
      (fun texts texts' => Reordered (texts.map (.text level)) (texts'.map (.text level)))
      (table.entries.mapM decoratorText) (table.sorted.entries.mapM decoratorText) := by
  refine (Alike.mapM_perm table.sorted_perm.symm covered).imp fun texts texts' written perm => ?_
  refine .of_perm level perm fun text member => ?_
  obtain ⟨decorator, _, made⟩ := mem_of_mapM written member
  exact ⟨decorator, made⟩

theorem headed_normal {level : Nat} {header : String} {body : List Stmt}
    (alike : Alike blamed Reordered (stmtsLines (level + 1) body)
      (stmtsLines (level + 1) (Stmt.normalAll body))) :
    Alike blamed Reordered
      (stmtsLines (level + 1) body >>= fun lines =>
        .ok (.text level header :: bodyLines (level + 1) body lines))
      (stmtsLines (level + 1) (Stmt.normalAll body) >>= fun lines =>
        .ok (.text level header :: bodyLines (level + 1) (Stmt.normalAll body) lines)) :=
  alike.bind fun _ _ same => .cons _ (bodyLines_normal _ body same)

mutual

theorem stmtLines_normal (level : Nat) : ∀ s : Stmt, Covers blamed s.definitions →
    Alike blamed Reordered (stmtLines level s) (stmtLines level s.normal)
  | .conditional first rest otherwise, covered => by
    rw [Stmt.definitions, covers_append, covers_append] at covered
    obtain ⟨⟨firstCovered, restCovered⟩, otherwiseCovered⟩ := covered
    rw [Stmt.normal, stmtLines, stmtLines]
    refine (branchLines_normal level "if " first firstCovered).bind fun _ _ firstSame => ?_
    refine (elifLines_normal level rest restCovered).bind fun _ _ restSame => ?_
    refine (elseLines_normal level otherwise otherwiseCovered).bind fun _ _ otherwiseSame => ?_
    exact (firstSame.append restSame).append otherwiseSame
  | .always body, covered => by
    rw [Stmt.normal, stmtLines, stmtLines]
    exact headed_normal (stmtsLines_normal (level + 1) body covered)
  | .forLoop target iterable body, covered => by
    rw [Stmt.normal, stmtLines, stmtLines]
    refine .bind_same _ fun targetText => .bind_same _ fun iterableText => ?_
    exact headed_normal (stmtsLines_normal (level + 1) body covered)
  | .whileLoop condition body, covered => by
    rw [Stmt.normal, stmtLines, stmtLines]
    refine .bind_same _ fun text => ?_
    exact headed_normal (stmtsLines_normal (level + 1) body covered)
  | .functionDef definition, covered => functionLines_normal level definition covered
  | .classDef name attributes methods, covered => by
    rw [Stmt.normal, stmtLines, stmtLines]
    refine (methodLines_normal (level + 1) methods covered).bind fun _ _ same => ?_
    refine .cons _ ?_
    cases methods with
    | nil => exact .refl _
    | cons method rest => exact separated_reordered same
  | .assign _ _, _ | .augAssign _ _ _, _ | .returnValue _, _ | .print _, _ | .comment _, _
  | .pragma _ _, _ | .emptyLine, _ | .pass, _ | .importNames _, _ | .expression _, _ =>
    .refl .refl _

theorem stmtsLines_normal (level : Nat) : ∀ body : List Stmt,
    Covers blamed (Stmt.definitionsAll body) →
      Alike blamed Reordered (stmtsLines level body) (stmtsLines level (Stmt.normalAll body))
  | [], _ => .refl .refl _
  | s :: rest, covered => by
    rw [Stmt.definitionsAll, covers_append] at covered
    rw [Stmt.normalAll, stmtsLines, stmtsLines]
    refine (stmtLines_normal level s covered.1).bind fun _ _ first => ?_
    refine (stmtsLines_normal level rest covered.2).bind fun _ _ others => ?_
    exact first.append others

theorem branchLines_normal (level : Nat) (keyword : String) : ∀ branch : Branch,
    Covers blamed branch.definitions →
      Alike blamed Reordered (branchLines level keyword branch)
        (branchLines level keyword branch.normal)
  | ⟨condition, body⟩, covered => by
    rw [Branch.normal, branchLines, branchLines]
    refine .bind_same _ fun text => ?_
    exact headed_normal (stmtsLines_normal (level + 1) body covered)

theorem elifLines_normal (level : Nat) : ∀ branches : List Branch,
    Covers blamed (Branch.definitionsAll branches) →
      Alike blamed Reordered (elifLines level branches)
        (elifLines level (Branch.normalAll branches))
  | [], _ => .refl .refl _
  | branch :: rest, covered => by
    rw [Branch.definitionsAll, covers_append] at covered
    rw [Branch.normalAll, elifLines, elifLines]
    refine (branchLines_normal level "elif " branch covered.1).bind fun _ _ first => ?_
    refine (elifLines_normal level rest covered.2).bind fun _ _ others => ?_
    exact first.append others

theorem elseLines_normal (level : Nat) : ∀ otherwise : Option (List Stmt),
    Covers blamed (Stmt.definitionsElse otherwise) →
      Alike blamed Reordered (elseLines level otherwise)
        (elseLines level (Stmt.normalElse otherwise))
  | none, _ => .refl .refl _
  | some body, covered => by
    rw [Stmt.normalElse, elseLines, elseLines]
    exact headed_normal (stmtsLines_normal (level + 1) body covered)

theorem functionLines_normal (level : Nat) : ∀ definition : FunctionDef,
    Covers blamed definition.definitions →
      Alike blamed Reordered (functionLines level definition)
        (functionLines level definition.normal)
  | ⟨name, arguments, _, body, _, _, _, _, _, _, decorators⟩, covered => by
    obtain ⟨here, inside⟩ := covered.of_cons
    -- The decorators change places here, and nowhere else.
    rw [FunctionDef.normal, functionLines, functionLines]
    refine (decorators_normal level decorators here).bind fun _ _ decoratorsSame => ?_
    refine .bind_same _ fun parameterTexts => ?_
    refine (stmtsLines_normal (level + 1) body inside).bind fun _ _ same => ?_
    exact decoratorsSame.append (.cons _ (bodyLines_normal _ body same))

theorem methodLines_normal (level : Nat) : ∀ methods : List FunctionDef,
    Covers blamed (FunctionDef.definitionsAll methods) →
      Alike blamed (List.Forall₂ Reordered) (methodLines level methods)
        (methodLines level (FunctionDef.normalAll methods))
  | [], _ => List.Forall₂.nil
  | method :: rest, covered => by
    rw [FunctionDef.definitionsAll, covers_append] at covered
    rw [FunctionDef.normalAll, methodLines, methodLines]
    refine (functionLines_normal level method covered.1).bind fun _ _ first => ?_
    refine (methodLines_normal level rest covered.2).bind fun _ _ others => ?_
    exact List.Forall₂.cons first others

end

end Normal

-- What is printed of two things with the same normal form is compared through the normal form.
theorem Alike.through_normal {α : Type} {lines : α → Printed (List Line)} {normal : α → α}
    {definitions : α → List FunctionDef}
    (alike : ∀ blamed x, Covers blamed (definitions x) →
      Alike blamed Reordered (lines x) (lines (normal x)))
    (normal_definitions : ∀ x, definitions (normal x) = (definitions x).map FunctionDef.normal)
    {a b : α} (equal : normal a = normal b) :
    Alike (DecoratorFault (definitions a)) Reordered (lines a) (lines b) := by
  have covered : Covers (DecoratorFault (definitions a)) (definitions b) := by
    intro cause fault
    rwa [← decoratorFault_normal, ← normal_definitions, ← equal, normal_definitions,
      decoratorFault_normal] at fault
  have left := alike _ a fun cause fault => fault
  have right := alike _ b covered
  rw [← equal] at right
  exact left.trans (fun _ _ _ => .trans) (right.symm fun _ _ => .symm)

theorem stmtLines_alike (level : Nat) {s t : Stmt} (equal : s.same t = true) :
    Alike (DecoratorFault s.definitions) Reordered (stmtLines level s) (stmtLines level t) :=
  .through_normal (fun _ => stmtLines_normal level) Stmt.definitions_normal
    (Stmt.same_iff_normal.1 equal)

theorem stmtsLines_alike (level : Nat) {body body' : List Stmt}
    (equal : Stmt.sameAll body body' = true) :
    Alike (DecoratorFault (Stmt.definitionsAll body)) Reordered (stmtsLines level body)
      (stmtsLines level body') :=
  .through_normal (fun _ => stmtsLines_normal level) Stmt.definitionsAll_normal
    (Stmt.sameAll_iff_normal.1 equal)

section Foreign

variable (settings : Settings) (functions : List ForeignFunction)

-- Nothing of a wrapped function is printed that equality does not see.
theorem foreignFunctionLines_normal (function : ForeignFunction) :
    foreignFunctionLines settings function.normal = foreignFunctionLines settings function := by
  obtain ⟨⟨_, _, _, _, _, _, _, _, _, _, _⟩, _⟩ := function
  rfl

theorem foreignFunctionsLines_normal :
    (functions.map ForeignFunction.normal).mapM (foreignFunctionLines settings) =
      functions.mapM (foreignFunctionLines settings) := by
  have each : foreignFunctionLines settings ∘ ForeignFunction.normal =
      foreignFunctionLines settings := funext (foreignFunctionLines_normal settings)
  rw [List.mapM_map, each]

theorem interfaceLines_normal (moduleName : String) :
    interfaceLines settings moduleName (functions.map ForeignFunction.normal) =
      interfaceLines settings moduleName functions := by
  have each : rebinding settings moduleName ∘ ForeignFunction.normal =
      rebinding settings moduleName := by
    funext ⟨⟨_, _, _, _, _, _, _, _, _, _, _⟩, _⟩
    rfl
  rw [interfaceLines, interfaceLines, List.map_map, each]

end Foreign

def ReorderedText (width : Nat) (text text' : String) : Prop :=
  ∃ lines lines' ending, Reordered lines lines' ∧ ending ∈ ["", "\n"] ∧
    text = Line.renderAll width lines ++ ending ∧ text' = Line.renderAll width lines' ++ ending

theorem ReorderedText.refl (width : Nat) (text : String) : ReorderedText width text text := by
  refine ⟨[.text 0 text], [.text 0 text], "", .refl _, by simp, ?_, ?_⟩ <;>
    simp [Line.renderAll, Line.render, Text.spaces]

theorem ReorderedText.of_lines (width : Nat) {lines lines' : List Line}
    (same : Reordered lines lines') :
    ReorderedText width (Line.renderAll width lines) (Line.renderAll width lines') :=
  ⟨lines, lines', "", same, by simp, by simp, by simp⟩

theorem ReorderedText.of_lines_feed (width : Nat) {lines lines' : List Line}
    (same : Reordered lines lines') :
    ReorderedText width (Line.renderAll width lines ++ "\n")
      (Line.renderAll width lines' ++ "\n") :=
  ⟨lines, lines', "\n", same, by simp, rfl, rfl⟩

end Printing

open Printing

def Node.printedDefinitions : Node → List FunctionDef
  | stmt s => s.definitions
  | block body => Stmt.definitionsAll body
  | _ => []

namespace Node

variable {a b : Node}

theorem print_eq_of_sameOrder (settings : Settings) (equal : a.same b = true)
    (order : SameOrder a.printedDefinitions b.printedDefinitions) :
    a.print settings = b.print settings := by
  have normal := same_iff_normal.1 equal
  cases a <;> cases b <;> simp only [Node.normal, reduceCtorEq] at normal
  -- Statements are equal outright, and wrapped functions are in what is printed of them.
  case stmt.stmt s t => rw [Stmt.eq_of_normal (stmt.inj normal) order]
  case block.block body body' => rw [Stmt.all_eq_of_normal (block.inj normal) order]
  case foreignFunction.foreignFunction f g =>
    have lines : foreignFunctionLines settings f = foreignFunctionLines settings g := by
      rw [← foreignFunctionLines_normal, foreignFunction.inj normal, foreignFunctionLines_normal]
    simp only [print, lines]
  case foreignModule.foreignModule m n =>
    obtain ⟨_, functions⟩ := ForeignModule.mk.inj (foreignModule.inj normal)
    have lines : m.functions.mapM (foreignFunctionLines settings) =
        n.functions.mapM (foreignFunctionLines settings) := by
      rw [← foreignFunctionsLines_normal, functions, foreignFunctionsLines_normal]
    simp only [print, lines]
  case foreignFunctionInterface.foreignFunctionInterface name f name' g =>
    obtain ⟨rfl, function⟩ := foreignFunctionInterface.inj normal
    have lines : interfaceLines settings name [f] = interfaceLines settings name [g] := by
      rw [← interfaceLines_normal, List.map_singleton, function, ← List.map_singleton, interfaceLines_normal]
    simp only [print, lines]
  case foreignModuleInterface.foreignModuleInterface m n =>
    obtain ⟨name, functions⟩ := ForeignModule.mk.inj (foreignModuleInterface.inj normal)
    have lines : interfaceLines settings m.name m.functions =
        interfaceLines settings n.name n.functions := by
      rw [← interfaceLines_normal, functions, name, interfaceLines_normal]
    simp only [print, lines]
  all_goals rw [normal]

theorem print_alike (settings : Settings) (equal : a.same b = true) :
    Alike (DecoratorFault a.printedDefinitions) (ReorderedText settings.indentWidth)
      (a.print settings) (b.print settings) := by
  by_cases order : SameOrder a.printedDefinitions b.printedDefinitions
  · rw [print_eq_of_sameOrder settings equal order]
    exact .refl (ReorderedText.refl _) _
  · -- Only nodes with definitions have them in another order.
    cases a <;> cases b <;> simp only [same, reduceCtorEq] at equal
    case stmt.stmt s t =>
      exact (stmtLines_alike 0 equal).map fun _ _ => ReorderedText.of_lines settings.indentWidth
    case block.block body body' =>
      have printed (body : List Stmt) : (block body).print settings = (stmtsLines 0 body).map
          fun lines => Line.renderAll settings.indentWidth lines ++ "\n" := by
        simp only [print]
        cases stmtsLines 0 body <;> rfl
      rw [printed, printed]
      exact (stmtsLines_alike 0 equal).map fun _ _ => ReorderedText.of_lines_feed _
    all_goals exact absurd rfl order

end Node

/-- Equal nodes are printed alike if the decorators of the definitions that are printed come in the
same order. Otherwise both have a text or neither has one; the texts have the same lines, up to the
order of decorators above a definition, and the errors are the same or both faults of decorators. -/
theorem equal_nodes_print_alike (settings : Settings) {a b : Node} (equal : a.same b = true) :
    (SameOrder a.printedDefinitions b.printedDefinitions →
        a.print settings = b.print settings) ∧
      Alike (DecoratorFault a.printedDefinitions) (ReorderedText settings.indentWidth)
        (a.print settings) (b.print settings) :=
  ⟨Node.print_eq_of_sameOrder settings equal, Node.print_alike settings equal⟩

def decoratedPass (decorators : List (String × List Expr)) : FunctionDef :=
  { FunctionDef.plain "f" [] [.pass] with decorators := .ofList decorators }

theorem reordered_decorators_print_alike :
    let first := decoratedPass [("pure", []), ("types", [.string "int"])]
    let second := decoratedPass [("types", [.string "int"]), ("pure", [])]
    let defined (definition : FunctionDef) : Node := .stmt (.functionDef definition)
    let wrapped (definition : FunctionDef) : Node := .foreignFunction ⟨definition, "m"⟩
    (defined first).same (defined second) = true ∧
      Alike (DecoratorFault [first]) (ReorderedText 4) ((defined first).print {})
        ((defined second).print {}) ∧
      (wrapped first).same (wrapped second) = true ∧
      (wrapped first).print {} = (wrapped second).print {} := by
  intro first second defined wrapped
  have equal : (defined first).same (defined second) = true := by decide +kernel
  have equal' : (wrapped first).same (wrapped second) = true := by decide +kernel
  exact ⟨equal, (equal_nodes_print_alike {} equal).2, equal',
    (equal_nodes_print_alike {} equal').1 rfl⟩

/-- Equality does not see the order of decorators, and their lines show it. -/
theorem reordered_decorators_printed_apart :
    let first := Node.stmt (.functionDef (decoratedPass [("pure", []), ("types", [.string "int"])]))
    let second := Node.stmt (.functionDef (decoratedPass [("types", [.string "int"]), ("pure", [])]))
    first.same second = true ∧
      first.print {} = .ok "@pure\n@types(\"int\")\ndef f():\n    pass" ∧
      second.print {} = .ok "@types(\"int\")\n@pure\ndef f():\n    pass" ∧
      first.print {} ≠ second.print {} := by
  decide +kernel

end NumericPython

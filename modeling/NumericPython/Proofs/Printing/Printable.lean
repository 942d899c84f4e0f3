import NumericPython.Proofs.Printing.Forms

set_option autoImplicit false

namespace NumericPython

namespace Expr

mutual

def Printable : Expr → Prop
  | float value | complex value => value.isFinite = true
  | tuple items => AllPrintable items
  | binary _ left right => left.Printable ∧ right.Printable
  | unary _ operand => operand.Printable
  | call _ args => AllPrintable args
  | range start stop step => start.Printable ∧ stop.Printable ∧ step.Printable
  | indexed base index more =>
    base.Printable ∧ (index.PrintableSlice ∨ index.Printable) ∧ IndicesPrintable more
  | slice _ _ _ => False
  | intrinsic _ args => AllPrintable args
  | _ => True

def AllPrintable : List Expr → Prop
  | [] => True
  | e :: rest => e.Printable ∧ AllPrintable rest

def PrintableSlice : Expr → Prop
  | slice start stop step => PartPrintable start ∧ PartPrintable stop ∧ PartPrintable step
  | _ => False

def IndicesPrintable : List Expr → Prop
  | [] => True
  | index :: rest => (index.PrintableSlice ∨ index.Printable) ∧ IndicesPrintable rest

def PartPrintable : Option Expr → Prop
  | none => True
  | some e => e.Printable

end

theorem allPrintable_iff (items : List Expr) :
    AllPrintable items ↔ ∀ e ∈ items, e.Printable := by
  induction items <;> simp_all [AllPrintable]

theorem indicesPrintable_iff (indices : List Expr) :
    IndicesPrintable indices ↔ ∀ e ∈ indices, e.PrintableSlice ∨ e.Printable := by
  induction indices <;> simp_all [IndicesPrintable]

end Expr

def Parameter.Printable : Parameter → Prop
  | plain _ => True
  | valued _ default => default.Printable

namespace Stmt

mutual

def Printable : Stmt → Prop
  | assign target value => target.Printable ∧ value.Printable
  | augAssign target _ value => target.Printable ∧ value.Printable
  | returnValue value => value.Printable
  | print items => ∀ e ∈ items, e.Printable
  | conditional first rest otherwise =>
    BranchPrintable first ∧ BranchesPrintable rest ∧ OtherwisePrintable otherwise
  | always body => BodyPrintable body
  | forLoop _ iterable body => iterable.Printable ∧ BodyPrintable body
  | whileLoop condition body => condition.Printable ∧ BodyPrintable body
  | functionDef definition => DefinitionPrintable definition
  | classDef _ _ methods => MethodsPrintable methods
  | expression value => value.Printable
  | _ => True

def BodyPrintable : List Stmt → Prop
  | [] => True
  | s :: rest => s.Printable ∧ BodyPrintable rest

def BranchPrintable : Branch → Prop
  | ⟨condition, body⟩ => condition.Printable ∧ BodyPrintable body

def BranchesPrintable : List Branch → Prop
  | [] => True
  | branch :: rest => BranchPrintable branch ∧ BranchesPrintable rest

def OtherwisePrintable : Option (List Stmt) → Prop
  | none => True
  | some body => BodyPrintable body

def DefinitionPrintable : FunctionDef → Prop
  | ⟨_, arguments, _, body, _, _, _, _, _, _, decorators⟩ =>
    (∀ parameter ∈ arguments, parameter.Printable) ∧
      (∀ entry ∈ decorators.entries, ∀ e ∈ entry.2, e.Printable) ∧ BodyPrintable body

def MethodsPrintable : List FunctionDef → Prop
  | [] => True
  | method :: rest => DefinitionPrintable method ∧ MethodsPrintable rest

end

theorem bodyPrintable_iff (body : List Stmt) : BodyPrintable body ↔ ∀ s ∈ body, s.Printable := by
  induction body <;> simp_all [BodyPrintable]

theorem branchesPrintable_iff (branches : List Branch) :
    BranchesPrintable branches ↔ ∀ branch ∈ branches, BranchPrintable branch := by
  induction branches <;> simp_all [BranchesPrintable]

theorem definitionPrintable_iff (definition : FunctionDef) :
    DefinitionPrintable definition ↔
      (∀ parameter ∈ definition.arguments, parameter.Printable) ∧
        (∀ entry ∈ definition.decorators.entries, ∀ e ∈ entry.2, e.Printable) ∧
        BodyPrintable definition.body := by
  cases definition
  exact Iff.rfl

theorem methodsPrintable_iff (methods : List FunctionDef) :
    MethodsPrintable methods ↔ ∀ method ∈ methods, DefinitionPrintable method := by
  induction methods <;> simp_all [MethodsPrintable]

end Stmt

namespace Printing

theorem floatText_of_finite {value : Binary64} (finite : value.isFinite = true) :
    ∃ text, floatText value = .ok text :=
  ⟨_, if_pos finite⟩

theorem indexText_written {index : Expr}
    (slice : index.PrintableSlice → ∃ text, sliceText? index = some (.ok text))
    (expr : index.Printable → ∃ text, exprText index = .ok text)
    (printable : index.PrintableSlice ∨ index.Printable) :
    ∃ text, (sliceText? index).getD (exprText index) = .ok text := by
  rcases printable with isSlice | isExpr
  · obtain ⟨text, written⟩ := slice isSlice
    exact ⟨text, by simp [written]⟩
  · obtain ⟨text, written⟩ := expr isExpr
    have noSlice : sliceText? index = none := by
      cases index <;> first | rfl | exact isExpr.elim
    exact ⟨text, by simp [noSlice, written]⟩

mutual

theorem exprText_of_printable : ∀ (e : Expr), e.Printable → ∃ text, exprText e = .ok text
  | .integer _, _ | .boolean _, _ | .string _, _ | .nil, _ | .symbol _, _ | .dotted _, _ =>
    ⟨_, rfl⟩
  | .float value, printable => floatText_of_finite printable
  | .complex imaginary, printable => by
      obtain ⟨text, written⟩ := floatText_of_finite printable
      exact ⟨_, ExprForm.written (.complex written)⟩
  | .tuple items, printable => by
      obtain ⟨texts, written⟩ := exprTexts_of_printable items printable
      exact ⟨_, ExprForm.written (.tuple written)⟩
  | .binary op left right, printable => by
      obtain ⟨leftText, leftWritten⟩ := exprText_of_printable left printable.1
      obtain ⟨rightText, rightWritten⟩ := exprText_of_printable right printable.2
      exact ⟨_, ExprForm.written (.binary leftWritten rightWritten)⟩
  | .unary op operand, printable => by
      obtain ⟨text, written⟩ := exprText_of_printable operand printable
      cases op with
      | neg => exact ⟨_, ExprForm.written (.neg written)⟩
      | not => exact ⟨_, ExprForm.written (.not written)⟩
  | .call callee args, printable => by
      obtain ⟨texts, written⟩ := exprTexts_of_printable args printable
      exact ⟨_, ExprForm.written (.call written)⟩
  | .range start stop step, printable => by
      obtain ⟨startText, startWritten⟩ := exprText_of_printable start printable.1
      obtain ⟨stopText, stopWritten⟩ := exprText_of_printable stop printable.2.1
      obtain ⟨stepText, stepWritten⟩ := exprText_of_printable step printable.2.2
      exact ⟨_, ExprForm.written (.range startWritten stopWritten stepWritten)⟩
  | .indexed base index more, printable => by
      obtain ⟨baseText, baseWritten⟩ := exprText_of_printable base printable.1
      obtain ⟨others, othersWritten⟩ := indexTexts_of_printable more printable.2.2
      obtain ⟨text, written⟩ := indexText_written (sliceText_of_printable index)
        (exprText_of_printable index) printable.2.1
      exact ⟨_, ExprForm.written (.indexed baseWritten written othersWritten)⟩
  | .intrinsic function args, printable => by
      obtain ⟨texts, written⟩ := exprTexts_of_printable args printable
      exact ⟨_, ExprForm.written (.intrinsic written)⟩

theorem exprTexts_of_printable :
    ∀ (items : List Expr), Expr.AllPrintable items → ∃ texts, exprTexts items = .ok texts
  | [], _ => ⟨[], rfl⟩
  | e :: rest, printable => by
      obtain ⟨text, written⟩ := exprText_of_printable e printable.1
      obtain ⟨others, othersWritten⟩ := exprTexts_of_printable rest printable.2
      exact ⟨_, exprTexts_cons_ok.2 ⟨_, _, written, othersWritten, rfl⟩⟩

theorem sliceText_of_printable :
    ∀ (e : Expr), e.PrintableSlice → ∃ text, sliceText? e = some (.ok text)
  | .slice start stop step, printable => by
      obtain ⟨startText, startWritten⟩ := partText_of_printable start printable.1
      obtain ⟨stopText, stopWritten⟩ := partText_of_printable stop printable.2.1
      obtain ⟨stepText, stepWritten⟩ := partText_of_printable step printable.2.2
      exact ⟨_, by simp only [sliceText?, startWritten, stopWritten, stepWritten]; rfl⟩

theorem indexTexts_of_printable :
    ∀ (indices : List Expr), Expr.IndicesPrintable indices →
      ∃ texts, indexTexts indices = .ok texts
  | [], _ => ⟨[], rfl⟩
  | index :: rest, printable => by
      obtain ⟨text, written⟩ := indexText_written (sliceText_of_printable index)
        (exprText_of_printable index) printable.1
      obtain ⟨others, othersWritten⟩ := indexTexts_of_printable rest printable.2
      exact ⟨_, indexTexts_cons_ok.2 ⟨_, _, written, othersWritten, rfl⟩⟩

theorem partText_of_printable :
    ∀ (part : Option Expr), Expr.PartPrintable part → ∃ text, partText part = .ok text
  | none, _ => ⟨"", rfl⟩
  | some e, printable => exprText_of_printable e printable

end

theorem openText_of_printable {e : Expr} (printable : e.Printable) :
    ∃ text, openText e = .ok text := by
  unfold openText
  split
  · obtain ⟨texts, written⟩ := exprTexts_of_printable _ printable
    exact ⟨_, map_eq_ok.2 ⟨texts, written, rfl⟩⟩
  · exact exprText_of_printable e printable

theorem loopTarget_printable (target : LoopTarget) : target.toExpr.Printable := by
  cases target with
  | symbol s => trivial
  | symbols first rest =>
      refine ⟨trivial, (Expr.allPrintable_iff _).2 fun e member => ?_⟩
      obtain ⟨s, _, rfl⟩ := List.mem_map.1 member
      trivial

theorem parameterText_of_printable {parameter : Parameter} (printable : parameter.Printable) :
    ∃ text, parameterText parameter = .ok text := by
  cases parameter with
  | plain argument => exact ⟨_, rfl⟩
  | valued argument default =>
      obtain ⟨text, written⟩ := exprText_of_printable default printable
      exact ⟨_, map_eq_ok.2 ⟨text, written, rfl⟩⟩

theorem decoratorText_of_printable {decorator : String × List Expr}
    (printable : ∀ e ∈ decorator.2, e.Printable) : ∃ text, decoratorText decorator = .ok text := by
  unfold decoratorText
  split
  · exact ⟨_, rfl⟩
  · obtain ⟨texts, written⟩ := exprTexts_of_printable _ ((Expr.allPrintable_iff _).2 printable)
    exact ⟨_, map_eq_ok.2 ⟨texts, written, rfl⟩⟩

mutual

theorem stmtLines_of_printable (level : Nat) :
    ∀ (s : Stmt), s.Printable → ∃ lines, stmtLines level s = .ok lines
  | .comment _, _ | .pragma _ _, _ | .emptyLine, _ | .pass, _ | .importNames _, _ => ⟨_, rfl⟩
  | .assign target value, printable => by
      obtain ⟨targetText, targetWritten⟩ := openText_of_printable printable.1
      obtain ⟨valueText, valueWritten⟩ := openText_of_printable printable.2
      exact ⟨_, LineForm.written (.assign targetWritten valueWritten) level⟩
  | .augAssign target op value, printable => by
      obtain ⟨targetText, targetWritten⟩ := exprText_of_printable target printable.1
      obtain ⟨valueText, valueWritten⟩ := exprText_of_printable value printable.2
      exact ⟨_, LineForm.written (.augAssign targetWritten valueWritten) level⟩
  | .returnValue value, printable => by
      obtain ⟨text, written⟩ := openText_of_printable printable
      exact ⟨_, LineForm.written (.returnValue written) level⟩
  | .print items, printable => by
      obtain ⟨texts, written⟩ :=
        exprTexts_of_printable items ((Expr.allPrintable_iff _).2 printable)
      exact ⟨_, LineForm.written (.print written) level⟩
  | .conditional first rest otherwise, printable => by
      obtain ⟨firstLines, firstWritten⟩ := branchLines_of_printable level "if " first printable.1
      obtain ⟨restLines, restWritten⟩ := elifLines_of_printable level rest printable.2.1
      obtain ⟨elseLines, elseWritten⟩ := elseLines_of_printable level otherwise printable.2.2
      exact ⟨_, StmtForm.written (.conditional firstWritten restWritten elseWritten)⟩
  | .always body, printable => by
      obtain ⟨lines, written⟩ := stmtsLines_of_printable (level + 1) body printable
      exact ⟨_, StmtForm.written (.always written)⟩
  | .forLoop target iterable body, printable => by
      obtain ⟨targetText, targetWritten⟩ := openText_of_printable (loopTarget_printable target)
      obtain ⟨iterableText, iterableWritten⟩ := exprText_of_printable iterable printable.1
      obtain ⟨lines, written⟩ := stmtsLines_of_printable (level + 1) body printable.2
      exact ⟨_, StmtForm.written (.forLoop targetWritten iterableWritten written)⟩
  | .whileLoop condition body, printable => by
      obtain ⟨text, conditionWritten⟩ := exprText_of_printable condition printable.1
      obtain ⟨lines, written⟩ := stmtsLines_of_printable (level + 1) body printable.2
      exact ⟨_, StmtForm.written (.whileLoop conditionWritten written)⟩
  | .functionDef definition, printable =>
      functionLines_of_printable level definition printable
  | .classDef name attributes methods, printable => by
      obtain ⟨groups, written⟩ := methodLines_of_printable (level + 1) methods printable
      exact ⟨_, StmtForm.written (.classDef written)⟩
  | .expression value, printable => by
      obtain ⟨text, written⟩ := exprText_of_printable value printable
      exact ⟨_, LineForm.written (.expression written) level⟩

theorem stmtsLines_of_printable (level : Nat) :
    ∀ (body : List Stmt), Stmt.BodyPrintable body → ∃ lines, stmtsLines level body = .ok lines
  | [], _ => ⟨[], rfl⟩
  | s :: rest, printable => by
      obtain ⟨lines, written⟩ := stmtLines_of_printable level s printable.1
      obtain ⟨others, othersWritten⟩ := stmtsLines_of_printable level rest printable.2
      exact ⟨_, stmtsLines_cons_ok.2 ⟨_, _, written, othersWritten, rfl⟩⟩

theorem branchLines_of_printable (level : Nat) (keyword : String) :
    ∀ (branch : Branch), Stmt.BranchPrintable branch →
      ∃ lines, branchLines level keyword branch = .ok lines
  | ⟨condition, body⟩, printable => by
      obtain ⟨text, conditionWritten⟩ := exprText_of_printable condition printable.1
      obtain ⟨lines, written⟩ := stmtsLines_of_printable (level + 1) body printable.2
      exact ⟨_, branchLines_ok.2 ⟨_, _, conditionWritten, written, rfl⟩⟩

theorem elifLines_of_printable (level : Nat) :
    ∀ (branches : List Branch), Stmt.BranchesPrintable branches →
      ∃ lines, elifLines level branches = .ok lines
  | [], _ => ⟨[], rfl⟩
  | branch :: rest, printable => by
      obtain ⟨lines, written⟩ := branchLines_of_printable level "elif " branch printable.1
      obtain ⟨others, othersWritten⟩ := elifLines_of_printable level rest printable.2
      exact ⟨_, elifLines_cons_ok.2 ⟨_, _, written, othersWritten, rfl⟩⟩

theorem elseLines_of_printable (level : Nat) :
    ∀ (otherwise : Option (List Stmt)), Stmt.OtherwisePrintable otherwise →
      ∃ lines, elseLines level otherwise = .ok lines
  | none, _ => ⟨[], rfl⟩
  | some body, printable => by
      obtain ⟨lines, written⟩ := stmtsLines_of_printable (level + 1) body printable
      exact ⟨_, elseLines_some_ok.2 ⟨_, written, rfl⟩⟩

theorem functionLines_of_printable (level : Nat) :
    ∀ (definition : FunctionDef), Stmt.DefinitionPrintable definition →
      ∃ lines, functionLines level definition = .ok lines
  | ⟨_, arguments, _, body, _, _, _, _, _, _, decorators⟩, printable => by
      obtain ⟨parameterTexts, parametersWritten⟩ :=
        mapM_written fun p member => parameterText_of_printable (printable.1 p member)
      obtain ⟨decoratorTexts, decoratorsWritten⟩ :=
        mapM_written fun d member => decoratorText_of_printable (printable.2.1 d member)
      obtain ⟨lines, written⟩ := stmtsLines_of_printable (level + 1) body printable.2.2
      exact ⟨_, functionLines_ok.2 ⟨_, _, _, decoratorsWritten, parametersWritten, written, rfl⟩⟩

theorem methodLines_of_printable (level : Nat) :
    ∀ (methods : List FunctionDef), Stmt.MethodsPrintable methods →
      ∃ groups, methodLines level methods = .ok groups
  | [], _ => ⟨[], rfl⟩
  | method :: rest, printable => by
      obtain ⟨lines, written⟩ := functionLines_of_printable level method printable.1
      obtain ⟨others, othersWritten⟩ := methodLines_of_printable level rest printable.2
      exact ⟨_, methodLines_cons_ok.2 ⟨_, _, written, othersWritten, rfl⟩⟩

end

theorem block_print_of_printable (settings : Settings) {body : List Stmt}
    (printable : ∀ s ∈ body, s.Printable) : ∃ text, (Node.block body).print settings = .ok text := by
  obtain ⟨lines, written⟩ := stmtsLines_of_printable 0 body ((Stmt.bodyPrintable_iff _).2 printable)
  exact ⟨_, by simp only [Node.print, written]; rfl⟩

end Printing

end NumericPython

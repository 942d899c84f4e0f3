import NumericPython.Proofs.Printing.OneLine

set_option autoImplicit false

namespace NumericPython

open Text

def LoopTarget.FillsLine : LoopTarget → Prop
  | symbol s => Text.FillsLine s.name
  | symbols first rest => ∀ s ∈ first :: rest, Text.FillsLine s.name

def ImportTarget.FillsLine (target : ImportTarget) : Prop :=
  target.name.FillsLine ∧ ∀ other ∈ target.asName, Text.FillsLine other

def Import.FillsLine (item : Import) : Prop :=
  (∀ source ∈ item.source, source.FillsLine) ∧ ∀ target ∈ item.targets, target.FillsLine

def Parameter.FillsLine : Parameter → Prop
  | plain argument => Text.FillsLine argument.name
  | valued argument default => Text.FillsLine argument.name ∧ default.NamesFillLines

namespace Stmt

mutual

/-- Names fill lines, and comments, clauses of pragmas and names of decorators have no line
breaks. -/
def FillsLines : Stmt → Prop
  | assign target value | augAssign target _ value =>
    target.NamesFillLines ∧ value.NamesFillLines
  | returnValue value | expression value => value.NamesFillLines
  | print items => ∀ e ∈ items, e.NamesFillLines
  | comment text => OneLine text
  | pragma _ clauses => ∀ clause ∈ clauses, OneLine clause
  | importNames item => item.FillsLine
  | conditional first rest otherwise =>
    BranchFillsLines first ∧ BranchesFillLines rest ∧ OtherwiseFillsLines otherwise
  | always body => BodyFillsLines body
  | forLoop target iterable body =>
    target.FillsLine ∧ iterable.NamesFillLines ∧ BodyFillsLines body
  | whileLoop condition body => condition.NamesFillLines ∧ BodyFillsLines body
  | functionDef definition => DefinitionFillsLines definition
  | classDef name _ methods => FillsLine name ∧ MethodsFillLines methods
  | emptyLine | pass => True

def BodyFillsLines : List Stmt → Prop
  | [] => True
  | s :: rest => s.FillsLines ∧ BodyFillsLines rest

def BranchFillsLines : Branch → Prop
  | ⟨condition, body⟩ => condition.NamesFillLines ∧ BodyFillsLines body

def BranchesFillLines : List Branch → Prop
  | [] => True
  | branch :: rest => BranchFillsLines branch ∧ BranchesFillLines rest

def OtherwiseFillsLines : Option (List Stmt) → Prop
  | none => True
  | some body => BodyFillsLines body

def DefinitionFillsLines : FunctionDef → Prop
  | ⟨name, arguments, _, body, _, _, _, _, _, _, decorators⟩ =>
    FillsLine name ∧ (∀ parameter ∈ arguments, parameter.FillsLine) ∧
      (∀ entry ∈ decorators.entries, OneLine entry.1 ∧ ∀ e ∈ entry.2, e.NamesFillLines) ∧
      BodyFillsLines body

def MethodsFillLines : List FunctionDef → Prop
  | [] => True
  | method :: rest => DefinitionFillsLines method ∧ MethodsFillLines rest

end

end Stmt

namespace Printing

theorem loopTarget_fill {target : LoopTarget} (fill : target.FillsLine) :
    target.toExpr.NamesFillLines := by
  cases target with
  | symbol s => exact fill
  | symbols first rest =>
      refine ⟨fill first (List.mem_cons_self ..), (Expr.allNamesFillLines_iff _).2 ?_⟩
      intro e member
      obtain ⟨s, found, rfl⟩ := List.mem_map.1 member
      exact fill s (List.mem_cons_of_mem _ found)

theorem targetText_oneLine {target : ImportTarget} (fill : target.FillsLine) :
    OneLine (targetText target) := by
  unfold targetText
  split
  next other present =>
    simp +decide [name_oneLine fill.1, (fill.2 other present).2]
  next => exact name_oneLine fill.1

theorem importText_fillsLine {item : Import} (fill : item.FillsLine) :
    FillsLine (importText item) := by
  have targets : OneLine (commaSeparated (item.targets.map targetText)) := by
    apply commaSeparated_oneLine
    intro text member
    obtain ⟨target, found, rfl⟩ := List.mem_map.1 member
    exact targetText_oneLine (fill.2 target found)
  unfold importText
  split
  next source present =>
    have from_ : FillsLine "from " := by decide
    apply ((from_.append (name_oneLine (fill.1 source present))).append (by decide)).append targets
  next =>
    have import_ : FillsLine "import " := by decide
    exact import_.append targets

theorem commentLine_fillsLine {text : String} (plain : OneLine text) :
    FillsLine (commentLine text) := by
  unfold commentLine
  split
  · decide
  · exact FillsLine.append (by decide) plain

theorem pragmaText_fillsLine (family : PragmaFamily) {clauses : List String}
    (plain : ∀ clause ∈ clauses, OneLine clause) : FillsLine (pragmaText family clauses) := by
  have head : FillsLine "#$" := by decide
  have name : OneLine family.name := by cases family <;> decide
  have rest : OneLine (joinWith " " (family.name :: clauses)) :=
    joinWith_oneLine (by decide) (by simpa [name] using plain)
  rw [pragmaText, joinWith_cons_cons]
  exact (head.append (by decide)).append rest

theorem parameterText_oneLine {parameter : Parameter} (fill : parameter.FillsLine) {text : String}
    (written : parameterText parameter = .ok text) : OneLine text := by
  cases parameter with
  | plain argument =>
      cases written
      exact fill.2
  | valued argument default =>
      obtain ⟨value, defaultWritten, rfl⟩ := map_eq_ok.1 written
      simp +decide [fill.1.2, exprText_oneLine default fill.2 defaultWritten]

theorem decoratorText_fillsLine {decorator : String × List Expr} (plain : OneLine decorator.1)
    (fill : ∀ e ∈ decorator.2, e.NamesFillLines) {text : String}
    (written : decoratorText decorator = .ok text) : FillsLine text := by
  have at_ : FillsLine "@" := by decide
  unfold decoratorText at written
  split at written
  · cases written
    exact at_.append plain
  · obtain ⟨texts, argsWritten, rfl⟩ := map_eq_ok.1 written
    have args := exprTexts_oneLine _ ((Expr.allNamesFillLines_iff _).2 fill) argsWritten
    exact at_.append (callText_oneLine plain args)

end Printing

def Line.Fills : Line → Prop
  | blank => True
  | text _ content => FillsLine content

namespace Printing

theorem bodyLines_fill {level : Nat} {body : List Stmt} {lines : List Line}
    (fill : ∀ line ∈ lines, line.Fills) : ∀ line ∈ bodyLines level body lines, line.Fills := by
  unfold bodyLines
  split
  · have last : FillsLine "pass" := by decide
    exact List.forall_mem_append.2 ⟨fill, List.forall_mem_singleton.2 last⟩
  · exact fill

theorem separated_fill {groups : List (List Line)}
    (fill : ∀ lines ∈ groups, ∀ line ∈ lines, line.Fills) :
    ∀ line ∈ Line.separated groups, line.Fills := by
  induction groups with
  | nil => simp [Line.separated]
  | cons lines rest ih =>
      have first := fill lines (List.mem_cons_self ..)
      have later := ih fun others member => fill others (List.mem_cons_of_mem _ member)
      cases rest with
      | nil => exact first
      | cons next more =>
          have between : Line.blank.Fills := trivial
          simp only [Line.separated, List.forall_mem_append, List.forall_mem_cons]
          exact ⟨first, between, later⟩

theorem under_fill {level : Nat} {header : String} {body : List Stmt} {lines : List Line}
    (first : FillsLine header) (fill : ∀ line ∈ lines, line.Fills) :
    ∀ line ∈ Line.text level header :: bodyLines (level + 1) body lines, line.Fills :=
  List.forall_mem_cons.2 ⟨first, bodyLines_fill fill⟩

theorem single_fill {level : Nat} {content : String} (fill : FillsLine content) :
    ∀ line ∈ [Line.text level content], line.Fills :=
  List.forall_mem_singleton.2 fill

theorem header_fillsLine {keyword text : String} (first : FillsLine keyword) (plain : OneLine text) :
    FillsLine (keyword ++ text ++ ":") :=
  (first.append plain).append (by decide)

theorem LineForm.fillsLine {s : Stmt} {text : String} (form : LineForm s text)
    (fill : s.FillsLines) : FillsLine text := by
  cases form with
  | assign targetWritten valueWritten =>
      have first := openText_oneLine fill.1 targetWritten
      have sign : FillsLine " = " := by decide
      exact (sign.prepend first).append (openText_oneLine fill.2 valueWritten)
  | augAssign targetWritten valueWritten =>
      have first := exprText_fillsLine fill.1 targetWritten
      have second := exprText_oneLine _ fill.2 valueWritten
      exact (((first.append (by decide)).append (operator_oneLine _)).append (by decide)).append
        second
  | returnValue written => exact FillsLine.append (by decide) (openText_oneLine fill written)
  | @print items _ written =>
      have all := exprTexts_oneLine items ((Expr.allNamesFillLines_iff _).2 fill) written
      exact ⟨callText_ne_empty _ _, callText_oneLine (by decide) all⟩
  | comment _ => exact commentLine_fillsLine fill
  | pragma family _ => exact pragmaText_fillsLine family fill
  | pass => decide
  | importNames _ => exact importText_fillsLine fill
  | expression written => exact exprText_fillsLine fill written

mutual

theorem stmtLines_fill (level : Nat) : ∀ (s : Stmt), s.FillsLines →
    ∀ {lines : List Line}, stmtLines level s = .ok lines → ∀ line ∈ lines, line.Fills
  | .assign _ _, fill, _, written | .augAssign _ _ _, fill, _, written
  | .returnValue _, fill, _, written | .print _, fill, _, written | .comment _, fill, _, written
  | .pragma _ _, fill, _, written | .pass, fill, _, written | .importNames _, fill, _, written
  | .expression _, fill, _, written => by
      cases StmtForm.of_written written with
      | line form => exact single_fill (form.fillsLine fill)
  | .emptyLine, _, _, written => by
      cases written
      exact List.forall_mem_singleton.2 trivial
  | .conditional first rest otherwise, fill, _, written => by
      cases StmtForm.of_written written with
      | line form => cases form
      | conditional firstWritten restWritten elseWritten =>
          simp only [List.forall_mem_append]
          exact ⟨⟨branchLines_fill level (by decide) first fill.1 firstWritten,
            elifLines_fill level rest fill.2.1 restWritten⟩,
            elseLines_fill level otherwise fill.2.2 elseWritten⟩
  | .always body, fill, _, written => by
      cases StmtForm.of_written written with
      | line form => cases form
      | always bodyWritten =>
          exact under_fill (by decide) (stmtsLines_fill (level + 1) body fill bodyWritten)
  | .forLoop target iterable body, fill, _, written => by
      cases StmtForm.of_written written with
      | line form => cases form
      | forLoop targetWritten iterableWritten bodyWritten =>
          have for_ : FillsLine "for " := by decide
          have first := openText_oneLine (loopTarget_fill fill.1) targetWritten
          have second := exprText_oneLine iterable fill.2.1 iterableWritten
          exact under_fill (header_fillsLine ((for_.append first).append (by decide)) second)
            (stmtsLines_fill (level + 1) body fill.2.2 bodyWritten)
  | .whileLoop condition body, fill, _, written => by
      cases StmtForm.of_written written with
      | line form => cases form
      | whileLoop conditionWritten bodyWritten =>
          have condition := exprText_oneLine condition fill.1 conditionWritten
          exact under_fill (header_fillsLine (by decide) condition)
            (stmtsLines_fill (level + 1) body fill.2 bodyWritten)
  | .functionDef definition, fill, _, written =>
      functionLines_fill level definition fill written
  | .classDef name attributes methods, fill, _, written => by
      cases StmtForm.of_written written with
      | line form => cases form
      | classDef methodsWritten =>
          have header : (Line.text level ("class " ++ name ++ ":")).Fills :=
            header_fillsLine (by decide) fill.1.2
          apply List.forall_mem_cons.2 ⟨header, ?_⟩
          split
          · exact single_fill (by decide)
          · exact separated_fill (methodLines_fill (level + 1) methods fill.2 methodsWritten)

theorem stmtsLines_fill (level : Nat) : ∀ (body : List Stmt), Stmt.BodyFillsLines body →
    ∀ {lines : List Line}, stmtsLines level body = .ok lines → ∀ line ∈ lines, line.Fills
  | [], _, _, written => by
      cases written
      simp
  | s :: rest, fill, _, written => by
      obtain ⟨lines, others, firstWritten, othersWritten, rfl⟩ := stmtsLines_cons_ok.1 written
      exact List.forall_mem_append.2 ⟨stmtLines_fill level s fill.1 firstWritten,
        stmtsLines_fill level rest fill.2 othersWritten⟩

theorem branchLines_fill (level : Nat) {keyword : String} (first : FillsLine keyword) :
    ∀ (branch : Branch), Stmt.BranchFillsLines branch →
      ∀ {lines : List Line}, branchLines level keyword branch = .ok lines →
        ∀ line ∈ lines, line.Fills
  | ⟨condition, body⟩, fill, _, written => by
      obtain ⟨text, lines, conditionWritten, bodyWritten, rfl⟩ := branchLines_ok.1 written
      have condition := exprText_oneLine condition fill.1 conditionWritten
      exact under_fill (header_fillsLine first condition)
        (stmtsLines_fill (level + 1) body fill.2 bodyWritten)

theorem elifLines_fill (level : Nat) : ∀ (branches : List Branch),
    Stmt.BranchesFillLines branches →
    ∀ {lines : List Line}, elifLines level branches = .ok lines → ∀ line ∈ lines, line.Fills
  | [], _, _, written => by
      cases written
      simp
  | branch :: rest, fill, _, written => by
      obtain ⟨lines, others, firstWritten, othersWritten, rfl⟩ := elifLines_cons_ok.1 written
      exact List.forall_mem_append.2 ⟨branchLines_fill level (by decide) branch fill.1 firstWritten,
        elifLines_fill level rest fill.2 othersWritten⟩

theorem elseLines_fill (level : Nat) : ∀ (otherwise : Option (List Stmt)),
    Stmt.OtherwiseFillsLines otherwise →
    ∀ {lines : List Line}, elseLines level otherwise = .ok lines → ∀ line ∈ lines, line.Fills
  | none, _, _, written => by
      cases written
      simp
  | some body, fill, _, written => by
      obtain ⟨lines, bodyWritten, rfl⟩ := elseLines_some_ok.1 written
      exact under_fill (by decide) (stmtsLines_fill (level + 1) body fill bodyWritten)

theorem functionLines_fill (level : Nat) : ∀ (definition : FunctionDef),
    Stmt.DefinitionFillsLines definition →
    ∀ {lines : List Line}, functionLines level definition = .ok lines → ∀ line ∈ lines, line.Fills
  | ⟨name, arguments, _, body, _, _, _, _, _, _, decorators⟩, fill, _, written => by
      obtain ⟨nameFills, parametersFill, decoratorsFill, bodyFills⟩ := fill
      obtain ⟨decoratorTexts, parameterTexts, lines, decoratorsWritten, parametersWritten,
        bodyWritten, rfl⟩ := functionLines_ok.1 written
      have parameters : ∀ text ∈ parameterTexts, OneLine text := by
        intro text member
        obtain ⟨parameter, found, parameterWritten⟩ := mem_of_mapM parametersWritten member
        exact parameterText_oneLine (parametersFill parameter found) parameterWritten
      have header : FillsLine ("def " ++ callText name parameterTexts ++ ":") :=
        header_fillsLine (by decide) (callText_oneLine nameFills.2 parameters)
      apply List.forall_mem_append.2 ⟨?_, under_fill header
        (stmtsLines_fill (level + 1) body bodyFills bodyWritten)⟩
      intro line member
      obtain ⟨text, decorated, rfl⟩ := List.mem_map.1 member
      obtain ⟨decorator, found, decoratorWritten⟩ := mem_of_mapM decoratorsWritten decorated
      obtain ⟨plain, args⟩ := decoratorsFill decorator found
      exact decoratorText_fillsLine plain args decoratorWritten

theorem methodLines_fill (level : Nat) : ∀ (methods : List FunctionDef),
    Stmt.MethodsFillLines methods →
    ∀ {groups : List (List Line)}, methodLines level methods = .ok groups →
      ∀ lines ∈ groups, ∀ line ∈ lines, line.Fills
  | [], _, _, written => by
      cases written
      simp
  | method :: rest, fill, _, written => by
      obtain ⟨lines, others, firstWritten, othersWritten, rfl⟩ := methodLines_cons_ok.1 written
      exact List.forall_mem_cons.2 ⟨functionLines_fill level method fill.1 firstWritten,
        methodLines_fill level rest fill.2 othersWritten⟩

end

end Printing

end NumericPython

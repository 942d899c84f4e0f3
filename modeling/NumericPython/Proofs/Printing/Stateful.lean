import NumericPython.Proofs.Printing.Printable

set_option autoImplicit false

/-!
A printer that keeps its nesting level as state: the level goes up by one before the body of a
compound statement is printed and down again after that, whether the body has a text or not. It
gives the text of the lines on its level, and leaves the level as it was.
-/

namespace NumericPython.Printing

abbrev Printer := ExceptT PrintError (StateM Nat)

namespace Printer

variable {α β : Type} (width : Nat)

def runAt (printer : Printer α) (level : Nat) : Printed α × Nat :=
  (printer.run.run level)

def lift (written : Printed α) : Printer α :=
  ExceptT.mk (pure written)

def margin : Printer String := do
  return Text.spaces ((← get) * width)

def deeper (printer : Printer α) : Printer α :=
  ExceptT.mk do
    modify (· + 1)
    let result ← printer.run
    modify (· - 1)
    return result

def closed (body : List Stmt) (text : String) : Printer String := do
  if body.all isLayout then
    let last := (← margin width) ++ "pass"
    return if body.isEmpty then last else text ++ "\n" ++ last
  else return text

def block (body : List Stmt) (statements : Printer (List String)) : Printer String :=
  deeper do
    let texts ← statements
    closed width body (Text.joinWith "\n" texts)

mutual

def stmt : Stmt → Printer String
  | .assign target value => do
    let targetText ← lift (openText target)
    let valueText ← lift (openText value)
    return (← margin width) ++ (targetText ++ " = " ++ valueText)
  | .augAssign target op value => do
    let targetText ← lift (exprText target)
    let valueText ← lift (exprText value)
    return (← margin width) ++ (targetText ++ " " ++ op.text ++ "= " ++ valueText)
  | .returnValue value => do
    let text ← lift (openText value)
    return (← margin width) ++ ("return " ++ text)
  | .print items => do
    let texts ← lift (exprTexts items)
    return (← margin width) ++ callText "print" texts
  | .comment text => do
    return (← margin width) ++ commentLine text
  | .pragma family clauses => do
    return (← margin width) ++ pragmaText family clauses
  | .emptyLine => return ""
  | .pass => do
    return (← margin width) ++ "pass"
  | .importNames item => do
    return (← margin width) ++ importText item
  | .conditional first rest otherwise => do
    -- All headers have the margin that is taken here.
    let indent ← margin width
    let firstText ← branch indent "if " first
    let elifTexts ← elifs indent rest
    let elseTexts ← orElse indent otherwise
    return Text.joinWith "\n" (firstText :: (elifTexts ++ elseTexts))
  | .always body => do
    let indent ← margin width
    let text ← block width body (stmts body)
    return indent ++ "if True:" ++ "\n" ++ text
  | .forLoop target iterable body => do
    let indent ← margin width
    let targetText ← lift (openText target.toExpr)
    let iterableText ← lift (exprText iterable)
    let text ← block width body (stmts body)
    return indent ++ ("for " ++ targetText ++ " in " ++ iterableText ++ ":") ++ "\n" ++ text
  | .whileLoop condition body => do
    let indent ← margin width
    let conditionText ← lift (exprText condition)
    let text ← block width body (stmts body)
    return indent ++ ("while " ++ conditionText ++ ":") ++ "\n" ++ text
  | .functionDef definition => function definition
  | .classDef name _ methods => do
    let header := (← margin width) ++ ("class " ++ name ++ ":")
    if methods.isEmpty then
      return header ++ "\n" ++ (← block width [] (pure []))
    else
      let texts ← deeper (functions methods)
      return header ++ "\n" ++ Text.joinWith "\n\n" texts
  | .expression value => do
    let text ← lift (exprText value)
    return (← margin width) ++ text

def stmts : List Stmt → Printer (List String)
  | [] => return []
  | s :: rest => do
    let text ← stmt s
    let others ← stmts rest
    return text :: others

def branch (indent keyword : String) : Branch → Printer String
  | ⟨condition, body⟩ => do
    let conditionText ← lift (exprText condition)
    let text ← block width body (stmts body)
    return indent ++ (keyword ++ conditionText ++ ":") ++ "\n" ++ text

def elifs (indent : String) : List Branch → Printer (List String)
  | [] => return []
  | first :: rest => do
    let text ← branch indent "elif " first
    let others ← elifs indent rest
    return text :: others

def orElse (indent : String) : Option (List Stmt) → Printer (List String)
  | none => return []
  | some body => do
    let text ← block width body (stmts body)
    return [indent ++ "else:" ++ "\n" ++ text]

def function : FunctionDef → Printer String
  | ⟨name, arguments, _, body, _, _, _, _, _, _, decorators⟩ => do
    let indent ← margin width
    let decoratorTexts ← lift (decorators.entries.mapM decoratorText)
    let parameterTexts ← lift (arguments.mapM parameterText)
    let text ← block width body (stmts body)
    return Text.joinWith "\n" (decoratorTexts.map (indent ++ ·) ++
      [indent ++ ("def " ++ callText name parameterTexts ++ ":"), text])

def functions : List FunctionDef → Printer (List String)
  | [] => return []
  | first :: rest => do
    let text ← function first
    let others ← functions rest
    return text :: others

end

theorem runAt_pure (result : α) (level : Nat) :
    (pure result : Printer α).runAt level = (.ok result, level) := rfl

theorem runAt_lift (written : Printed α) (level : Nat) :
    (lift written).runAt level = (written, level) := rfl

theorem runAt_margin (level : Nat) :
    (margin width).runAt level = (.ok (Text.spaces (level * width)), level) := rfl

theorem runAt_deeper (printer : Printer α) (level : Nat) :
    (deeper printer).runAt level =
      ((printer.runAt (level + 1)).1, (printer.runAt (level + 1)).2 - 1) := rfl

theorem runAt_bind (printer : Printer α) (next : α → Printer β) (level : Nat) :
    (printer >>= next).runAt level =
      match printer.runAt level with
      | (.ok result, after) => (next result).runAt after
      | (.error cause, after) => (.error cause, after) := by
  unfold runAt
  simp only [ExceptT.run_bind, StateT.run_bind]
  rcases (ExceptT.run printer).run level with ⟨cause | result, after⟩ <;> rfl

end Printer

open Line

variable {width : Nat}

theorem renderAll_append {first second : List Line} (some_first : first ≠ [])
    (some_second : second ≠ []) : renderAll width (first ++ second) =
      renderAll width first ++ "\n" ++ renderAll width second := by
  induction first with
  | nil => exact absurd rfl some_first
  | cons line rest ih =>
      cases rest with
      | nil =>
          cases second with
          | nil => exact absurd rfl some_second
          | cons next more => rfl
      | cons next more =>
          have later := ih (by simp)
          simp only [renderAll, List.cons_append, List.map_cons, Text.joinWith_cons_cons] at later ⊢
          rw [later]
          simp only [String.append_assoc]

theorem renderAll_cons (line : Line) {rest : List Line} (more : rest ≠ []) :
    renderAll width (line :: rest) = line.render width ++ "\n" ++ renderAll width rest :=
  @renderAll_append width [line] rest (by simp) more

theorem flatten_ne_nil {groups : List (List Line)} (some_group : groups ≠ [])
    (some_each : ∀ lines ∈ groups, lines ≠ []) : groups.flatten ≠ [] := by
  cases groups with
  | nil => exact absurd rfl some_group
  | cons lines rest =>
      have first := some_each lines (List.mem_cons_self ..)
      simp [first]

theorem joinWith_renderAll {groups : List (List Line)} (some_each : ∀ lines ∈ groups, lines ≠ []) :
    Text.joinWith "\n" (groups.map (renderAll width)) = renderAll width groups.flatten := by
  induction groups with
  | nil => rfl
  | cons lines rest ih =>
      have later : ∀ others ∈ rest, others ≠ [] :=
        fun others member => some_each others (List.mem_cons_of_mem _ member)
      cases rest with
      | nil => simp
      | cons next more =>
          rw [List.map_cons, List.map_cons, Text.joinWith_cons_cons, ← List.map_cons, ih later,
            @List.flatten_cons _ lines, renderAll_append (some_each lines (List.mem_cons_self ..))
              (flatten_ne_nil (by simp) later)]

theorem separated_ne_nil {groups : List (List Line)} (some_group : groups ≠ [])
    (some_each : ∀ lines ∈ groups, lines ≠ []) : separated groups ≠ [] := by
  match groups with
  | [] => exact absurd rfl some_group
  | [lines] => exact some_each lines (List.mem_cons_self ..)
  | lines :: next :: rest => simp [separated]

theorem joinWith_separated {groups : List (List Line)}
    (some_each : ∀ lines ∈ groups, lines ≠ []) :
    Text.joinWith "\n\n" (groups.map (renderAll width)) = renderAll width (separated groups) := by
  induction groups with
  | nil => rfl
  | cons lines rest ih =>
      have later : ∀ others ∈ rest, others ≠ [] :=
        fun others member => some_each others (List.mem_cons_of_mem _ member)
      cases rest with
      | nil => simp [separated]
      | cons next more =>
          have feeds : "\n\n" = "\n" ++ ("" ++ "\n") := by decide
          rw [List.map_cons, List.map_cons, Text.joinWith_cons_cons, ← List.map_cons, ih later,
            separated, renderAll_append (some_each lines (List.mem_cons_self ..)) (by simp),
            renderAll_cons _ (separated_ne_nil (by simp) later), feeds]
          simp only [render, String.append_assoc]

theorem branchLines_ne_nil {level : Nat} {keyword : String} {branch : Branch} {lines : List Line}
    (written : branchLines level keyword branch = .ok lines) : lines ≠ [] := by
  obtain ⟨_, _, _, _, rfl⟩ := branchLines_ok.1 written
  simp

theorem functionLines_ne_nil {level : Nat} {definition : FunctionDef} {lines : List Line}
    (written : functionLines level definition = .ok lines) : lines ≠ [] := by
  obtain ⟨_, _, _, _, _, _, rfl⟩ := functionLines_ok.1 written
  simp

theorem stmtLines_ne_nil {level : Nat} {s : Stmt} {lines : List Line}
    (written : stmtLines level s = .ok lines) : lines ≠ [] := by
  cases StmtForm.of_written written with
  | functionDef written => exact functionLines_ne_nil written
  | conditional firstWritten _ _ => simp [branchLines_ne_nil firstWritten]
  | line _ | emptyLine | always _ | forLoop _ _ _ | whileLoop _ _ | classDef _ => simp

theorem methodLines_ne_nil {level : Nat} {methods : List FunctionDef} {groups : List (List Line)}
    (written : methodLines level methods = .ok groups) : ∀ lines ∈ groups, lines ≠ [] := by
  rw [methodLines_eq_mapM] at written
  intro lines member
  obtain ⟨method, _, methodWritten⟩ := mem_of_mapM written member
  exact functionLines_ne_nil methodWritten

theorem bodyLines_ne_nil {level : Nat} {body : List Stmt} {lines : List Line}
    (written : stmtsLines level body = .ok lines) : bodyLines level body lines ≠ [] := by
  unfold bodyLines
  split
  · simp
  next runs =>
    cases body with
    | nil => exact absurd rfl runs
    | cons s rest =>
        obtain ⟨first, others, firstWritten, _, rfl⟩ := stmtsLines_cons_ok.1 written
        simp [stmtLines_ne_nil firstWritten]

namespace Printer

theorem runAt_closed {level : Nat} {body : List Stmt} {groups : List (List Line)}
    (written : body.mapM (stmtLines level) = .ok groups) :
    (closed width body (Text.joinWith "\n" (groups.map (renderAll width)))).runAt level =
      (.ok (renderAll width (bodyLines level body groups.flatten)), level) := by
  have some_each : ∀ lines ∈ groups, lines ≠ [] := by
    intro lines member
    obtain ⟨s, _, lineWritten⟩ := mem_of_mapM written member
    exact stmtLines_ne_nil lineWritten
  rw [joinWith_renderAll some_each]
  unfold closed bodyLines
  split
  · simp only [runAt_bind, runAt_margin, runAt_pure]
    cases body with
    | nil =>
        cases written
        rfl
    | cons s rest =>
        have some_group : groups ≠ [] := by
          rintro rfl
          simp only [List.mapM_cons, bind_eq_ok] at written
          obtain ⟨_, _, _, _, same⟩ := written
          cases same
        rw [renderAll_append (flatten_ne_nil some_group some_each) (by simp)]
        rfl
  · rw [runAt_pure]

theorem runAt_block {level : Nat} {body : List Stmt} {statements : Printer (List String)}
    (runs : statements.runAt (level + 1) =
      ((body.mapM (stmtLines (level + 1))).map (List.map (renderAll width)), level + 1)) :
    (block width body statements).runAt level =
      ((stmtsLines (level + 1) body).map fun lines =>
        renderAll width (bodyLines (level + 1) body lines), level) := by
  rw [block, runAt_deeper, runAt_bind, runs, stmtsLines_eq_mapM]
  cases written : body.mapM (stmtLines (level + 1)) with
  | error cause => rfl
  | ok groups =>
      simp only [Except.map]
      rw [runAt_closed written]
      rfl

theorem joinWith_branches {level : Nat} {first : Branch} {rest : List Branch}
    {firstLines lines : List Line} {groups : List (List Line)}
    (firstWritten : branchLines level "if " first = .ok firstLines)
    (restWritten : rest.mapM (branchLines level "elif ") = .ok groups) :
    Text.joinWith "\n" (renderAll width firstLines :: (groups.map (renderAll width) ++
        if lines.isEmpty then [] else [renderAll width lines])) =
      renderAll width (firstLines ++ groups.flatten ++ lines) := by
  have some_first := branchLines_ne_nil firstWritten
  have some_each : ∀ others ∈ groups, others ≠ [] := by
    intro others member
    obtain ⟨next, _, written⟩ := mem_of_mapM restWritten member
    exact branchLines_ne_nil written
  by_cases none_else : lines = []
  · have joined := @joinWith_renderAll width (firstLines :: groups) (by simp_all)
    simpa [none_else] using joined
  · have joined := @joinWith_renderAll width (firstLines :: (groups ++ [lines])) (by
      simp only [List.forall_mem_cons, List.forall_mem_append]
      exact ⟨some_first, some_each, none_else, by simp⟩)
    simpa [none_else] using joined

theorem joinWith_definition {level : Nat} {lines : List Line} (decorators : List String)
    (header : String) (some_line : lines ≠ []) :
    Text.joinWith "\n" (decorators.map (Text.spaces (level * width) ++ ·) ++
        [Text.spaces (level * width) ++ header, renderAll width lines]) =
      renderAll width (decorators.map (.text level) ++ .text level header :: lines) := by
  have joined := @joinWith_renderAll width
    (decorators.map (fun text => [.text level text]) ++ [[.text level header], lines]) (by
      simp [some_line, or_imp, forall_and])
  have singles : (decorators.map (fun text => [Line.text level text])).flatten =
      decorators.map (.text level) :=
    (List.flatMap_def ..).symm.trans List.map_eq_flatMap.symm
  rw [List.flatten_append, singles] at joined
  simpa [renderAll, render, Function.comp_def] using joined

theorem runAt_under {level : Nat} {body : List Stmt} {statements : Printer (List String)}
    (header : String) (runs : statements.runAt (level + 1) =
      ((body.mapM (stmtLines (level + 1))).map (List.map (renderAll width)), level + 1)) :
    (do
        let text ← block width body statements
        return Text.spaces (level * width) ++ header ++ "\n" ++ text).runAt level =
      (Except.map (renderAll width) (do
        let lines ← stmtsLines (level + 1) body
        .ok (.text level header :: bodyLines (level + 1) body lines)), level) := by
  rw [runAt_bind, runAt_block runs]
  cases written : stmtsLines (level + 1) body with
  | error cause => rfl
  | ok lines =>
      simp only [Except.map, runAt_pure, bind, Except.bind,
        renderAll_cons _ (bodyLines_ne_nil written), render]

mutual

theorem runAt_stmt (level : Nat) : ∀ (s : Stmt),
    (stmt width s).runAt level = ((stmtLines level s).map (renderAll width), level)
  | .assign target value => by
      simp only [stmt, stmtLines, runAt_bind, runAt_lift, runAt_margin, runAt_pure]
      cases openText target with
      | error cause => rfl
      | ok targetText => cases openText value <;> rfl
  | .augAssign target op value => by
      simp only [stmt, stmtLines, runAt_bind, runAt_lift, runAt_margin, runAt_pure]
      cases exprText target with
      | error cause => rfl
      | ok targetText => cases exprText value <;> rfl
  | .returnValue value => by
      simp only [stmt, stmtLines, runAt_bind, runAt_lift, runAt_margin, runAt_pure]
      cases openText value <;> rfl
  | .print items => by
      simp only [stmt, stmtLines, runAt_bind, runAt_lift, runAt_margin, runAt_pure]
      cases exprTexts items <;> rfl
  | .comment _ | .pragma _ _ | .emptyLine | .pass | .importNames _ => by
      simp only [stmt, stmtLines, runAt_bind, runAt_margin, runAt_pure]
      rfl
  | .conditional first rest otherwise => by
      rw [stmt, stmtLines, runAt_bind, runAt_margin, elifLines_eq_mapM]
      simp only []
      rw [runAt_bind, runAt_branch level "if " first]
      cases firstWritten : branchLines level "if " first with
      | error cause => rfl
      | ok firstLines =>
          simp only [Except.map]
          rw [runAt_bind, runAt_elifs level rest]
          cases restWritten : rest.mapM (branchLines level "elif ") with
          | error cause => rfl
          | ok groups =>
              simp only [Except.map]
              rw [runAt_bind, runAt_orElse level otherwise]
              cases elseLines level otherwise with
              | error cause => rfl
              | ok lines =>
                  simp only [Except.map, runAt_pure, bind, Except.bind]
                  rw [joinWith_branches firstWritten restWritten]
  | .always body => by
      rw [stmt, stmtLines, runAt_bind, runAt_margin]
      exact runAt_under "if True:" (runAt_stmts (level + 1) body)
  | .forLoop target iterable body => by
      rw [stmt, stmtLines, runAt_bind, runAt_margin]
      simp only []
      rw [runAt_bind, runAt_lift]
      cases openText target.toExpr with
      | error cause => rfl
      | ok targetText =>
          simp only []
          rw [runAt_bind, runAt_lift]
          cases exprText iterable with
          | error cause => rfl
          | ok iterableText =>
              exact runAt_under ("for " ++ targetText ++ " in " ++ iterableText ++ ":")
                (runAt_stmts (level + 1) body)
  | .whileLoop condition body => by
      rw [stmt, stmtLines, runAt_bind, runAt_margin]
      simp only []
      rw [runAt_bind, runAt_lift]
      cases exprText condition with
      | error cause => rfl
      | ok text => exact runAt_under ("while " ++ text ++ ":") (runAt_stmts (level + 1) body)
  | .functionDef definition => by
      simp only [stmt, stmtLines]
      exact runAt_function level definition
  | .classDef name attributes methods => by
      rw [stmt, stmtLines, runAt_bind, runAt_margin]
      cases methods with
      | nil =>
          have only_pass := @runAt_under width level [] (pure []) ("class " ++ name ++ ":") rfl
          simp only [List.isEmpty_nil, if_true]
          exact only_pass
      | cons method rest =>
          simp only [List.isEmpty_cons, Bool.false_eq_true, if_false, runAt_bind, runAt_deeper,
            runAt_functions (level + 1) (method :: rest)]
          cases written : methodLines (level + 1) (method :: rest) with
          | error cause => rfl
          | ok groups =>
              have some_each := methodLines_ne_nil written
              have some_group : groups ≠ [] := by
                obtain ⟨_, _, _, _, rfl⟩ := methodLines_cons_ok.1 written
                simp
              simp only [Except.map, runAt_pure, bind, Except.bind, joinWith_separated some_each,
                renderAll_cons _ (separated_ne_nil some_group some_each), render,
                Nat.add_sub_cancel]
  | .expression value => by
      simp only [stmt, stmtLines, runAt_bind, runAt_lift, runAt_margin, runAt_pure]
      cases exprText value <;> rfl

theorem runAt_stmts (level : Nat) : ∀ (body : List Stmt),
    (stmts width body).runAt level =
      ((body.mapM (stmtLines level)).map (List.map (renderAll width)), level)
  | [] => rfl
  | s :: rest => by
      simp only [stmts, runAt_bind, runAt_stmt level s, List.mapM_cons]
      cases stmtLines level s with
      | error cause => rfl
      | ok lines =>
          simp only [Except.map, runAt_stmts level rest]
          cases rest.mapM (stmtLines level) <;> rfl

theorem runAt_branch (level : Nat) (keyword : String) : ∀ (first : Branch),
    (branch width (Text.spaces (level * width)) keyword first).runAt level =
      ((branchLines level keyword first).map (renderAll width), level)
  | ⟨condition, body⟩ => by
      rw [branch, branchLines, runAt_bind, runAt_lift]
      cases exprText condition with
      | error cause => rfl
      | ok text => exact runAt_under (keyword ++ text ++ ":") (runAt_stmts (level + 1) body)

theorem runAt_elifs (level : Nat) : ∀ (branches : List Branch),
    (elifs width (Text.spaces (level * width)) branches).runAt level =
      ((branches.mapM (branchLines level "elif ")).map (List.map (renderAll width)), level)
  | [] => rfl
  | first :: rest => by
      simp only [elifs, runAt_bind, runAt_branch level "elif " first, List.mapM_cons]
      cases branchLines level "elif " first with
      | error cause => rfl
      | ok lines =>
          simp only [Except.map, runAt_elifs level rest]
          cases rest.mapM (branchLines level "elif ") <;> rfl

theorem runAt_orElse (level : Nat) : ∀ (otherwise : Option (List Stmt)),
    (orElse width (Text.spaces (level * width)) otherwise).runAt level =
      ((elseLines level otherwise).map fun lines =>
        if lines.isEmpty then [] else [renderAll width lines], level)
  | none => rfl
  | some body => by
      rw [orElse, elseLines, runAt_bind, runAt_block (runAt_stmts (level + 1) body)]
      cases written : stmtsLines (level + 1) body with
      | error cause => rfl
      | ok lines =>
          simp only [Except.map, runAt_pure, bind, Except.bind, List.isEmpty_cons,
            Bool.false_eq_true, if_false, renderAll_cons _ (bodyLines_ne_nil written), render]

theorem runAt_function (level : Nat) : ∀ (definition : FunctionDef),
    (function width definition).runAt level =
      ((functionLines level definition).map (renderAll width), level)
  | ⟨name, arguments, _, body, _, _, _, _, _, _, decorators⟩ => by
      rw [function, functionLines, runAt_bind, runAt_margin]
      simp only []
      rw [runAt_bind, runAt_lift]
      cases decorators.entries.mapM decoratorText with
      | error cause => rfl
      | ok decoratorTexts =>
          simp only []
          rw [runAt_bind, runAt_lift]
          cases arguments.mapM parameterText with
          | error cause => rfl
          | ok parameterTexts =>
              simp only []
              rw [runAt_bind, runAt_block (runAt_stmts (level + 1) body)]
              cases written : stmtsLines (level + 1) body with
              | error cause => rfl
              | ok lines =>
                  have shown := @joinWith_definition width level _ decoratorTexts
                    ("def " ++ callText name parameterTexts ++ ":") (bodyLines_ne_nil written)
                  simp only [Except.map, runAt_pure, bind, Except.bind, shown]

theorem runAt_functions (level : Nat) : ∀ (methods : List FunctionDef),
    (functions width methods).runAt level =
      ((methodLines level methods).map (List.map (renderAll width)), level)
  | [] => rfl
  | first :: rest => by
      simp only [functions, runAt_bind, runAt_function level first, methodLines]
      cases functionLines level first with
      | error cause => rfl
      | ok lines =>
          simp only [Except.map, runAt_functions level rest]
          cases methodLines level rest <;> rfl

end

end Printer

end NumericPython.Printing

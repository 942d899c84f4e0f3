import NumericPython.Printing.Node
import NumericPython.Proofs.Lists

set_option autoImplicit false

namespace NumericPython.Printing

theorem bind_eq_ok {ε α β : Type} {written : Except ε α} {next : α → Except ε β} {result : β} :
    written >>= next = .ok result ↔ ∃ part, written = .ok part ∧ next part = .ok result := by
  cases written <;> simp [bind, Except.bind]

theorem map_eq_ok {α β : Type} {written : Printed α} {f : α → β} {result : β} :
    written.map f = .ok result ↔ ∃ part, written = .ok part ∧ f part = result := by
  cases written <;> simp [Except.map]

theorem only_eq_ok {ε α β : Type} {part : Except ε α} {make : α → β} {result : β} :
    (do
      let made ← part
      .ok (make made)) = .ok result ↔ ∃ made, part = .ok made ∧ result = make made := by
  cases part <;> simp [bind, Except.bind, eq_comm]

theorem both_eq_ok {ε α β γ : Type} {first : Except ε α} {second : Except ε β} {join : α → β → γ}
    {result : γ} :
    (do
      let left ← first
      let right ← second
      .ok (join left right)) = .ok result ↔
      ∃ left right, first = .ok left ∧ second = .ok right ∧ result = join left right := by
  cases first <;> cases second <;> simp [bind, Except.bind, eq_comm]

section Lists

variable {ε α β : Type} {f : α → Except ε β} {xs : List α} {ys : List β}

theorem mapM_eq_ok :
    xs.mapM f = .ok ys ↔ List.Forall₂ (fun x y => f x = .ok y) xs ys := by
  induction xs generalizing ys with
  | nil =>
      cases ys with
      | nil => exact ⟨fun _ => .nil, fun _ => rfl⟩
      | cons y rest => exact ⟨nofun, nofun⟩
  | cons x rest ih =>
      simp only [List.mapM_cons, bind_eq_ok]
      constructor
      · rintro ⟨first, firstWritten, others, othersWritten, same⟩
        cases same
        exact .cons firstWritten (ih.1 othersWritten)
      · intro written
        cases written with
        | cons firstWritten othersWritten =>
            exact ⟨_, firstWritten, _, ih.2 othersWritten, rfl⟩

theorem mem_of_mapM (written : xs.mapM f = .ok ys) {y : β} (member : y ∈ ys) :
    ∃ x ∈ xs, f x = .ok y :=
  exists_left (mapM_eq_ok.1 written) member

theorem mapM_forall₂ {r : α → β → Prop} (written : ∀ x ∈ xs, ∃ y, f x = .ok y ∧ r x y) :
    ∃ ys, xs.mapM f = .ok ys ∧ List.Forall₂ r xs ys := by
  induction xs with
  | nil => exact ⟨[], rfl, .nil⟩
  | cons x rest ih =>
      obtain ⟨y, first, related⟩ := written x (.head _)
      obtain ⟨ys, others, all⟩ := ih fun other member => written other (.tail _ member)
      exact ⟨y :: ys, by simp only [List.mapM_cons, first, others]; rfl, .cons related all⟩

theorem mapM_written (written : ∀ x ∈ xs, ∃ y, f x = .ok y) : ∃ ys, xs.mapM f = .ok ys := by
  have all : ∀ x ∈ xs, ∃ y, f x = .ok y ∧ f x = .ok y := by simpa using written
  obtain ⟨ys, made, _⟩ := mapM_forall₂ all
  exact ⟨ys, made⟩

theorem eq_mapM (f : α → Except ε β) (g : List α → Except ε (List β)) (none : g [] = .ok [])
    (more : ∀ x rest, g (x :: rest) = do
      let first ← f x
      let others ← g rest
      .ok (first :: others)) (xs : List α) : g xs = xs.mapM f := by
  induction xs with
  | nil => exact none
  | cons x rest ih =>
      rw [more, List.mapM_cons, ih]
      rfl

theorem eq_mapM_flatten (f : α → Except ε (List β)) (g : List α → Except ε (List β))
    (none : g [] = .ok [])
    (more : ∀ x rest, g (x :: rest) = do
      let first ← f x
      let others ← g rest
      .ok (first ++ others)) (xs : List α) : g xs = (xs.mapM f).map List.flatten := by
  induction xs with
  | nil => exact none
  | cons x rest ih =>
      rw [more, List.mapM_cons, ih]
      cases f x with
      | error cause => rfl
      | ok first => cases rest.mapM f <;> rfl

end Lists

inductive ExprForm : Expr → String → Prop
  | integer (value : Int64) : ExprForm (.integer value) (toString value.toInt)
  | float {value : Binary64} {text : String} (written : floatText value = .ok text) :
    ExprForm (.float value) text
  | complex {imaginary : Binary64} {text : String} (written : floatText imaginary = .ok text) :
    ExprForm (.complex imaginary) (text ++ "j")
  | boolean (value : Bool) : ExprForm (.boolean value) (if value then "True" else "False")
  | string (text : String) :
    ExprForm (.string text) (String.ofList (Quoted.encode text.toList))
  | nil : ExprForm .nil "None"
  | symbol (s : Symbol) : ExprForm (.symbol s) s.name
  | dotted (name : DottedName) : ExprForm (.dotted name) name.text
  | tuple {items : List Expr} {texts : List String} (written : exprTexts items = .ok texts) :
    ExprForm (.tuple items) (tupleText texts)
  | binary {op : BinaryOperator} {left right : Expr} {leftText rightText : String}
      (leftWritten : exprText left = .ok leftText) (rightWritten : exprText right = .ok rightText) :
    ExprForm (.binary op left right)
      (parenthesized (Precedence.wrapsLeft op left) leftText ++ " " ++ op.text ++ " " ++
        parenthesized (Precedence.wrapsRight op right) rightText)
  | neg {operand : Expr} {text : String} (written : exprText operand = .ok text) :
    ExprForm (.unary .neg operand)
      ("-" ++ parenthesized (Precedence.wrapsOperand .neg operand) text)
  | not {operand : Expr} {text : String} (written : exprText operand = .ok text) :
    ExprForm (.unary .not operand)
      ("not " ++ parenthesized (Precedence.wrapsOperand .not operand) text)
  | call {callee : Name} {args : List Expr} {texts : List String}
      (written : exprTexts args = .ok texts) :
    ExprForm (.call callee args) (callText callee.text texts)
  | range {start stop step : Expr} {startText stopText stepText : String}
      (startWritten : exprText start = .ok startText) (stopWritten : exprText stop = .ok stopText)
      (stepWritten : exprText step = .ok stepText) :
    ExprForm (.range start stop step) (callText "range" [startText, stopText, stepText])
  | indexed {base index : Expr} {more : List Expr} {baseText first : String} {others : List String}
      (baseWritten : exprText base = .ok baseText)
      (firstWritten : (sliceText? index).getD (exprText index) = .ok first)
      (othersWritten : indexTexts more = .ok others) :
    ExprForm (.indexed base index more)
      (parenthesized (Precedence.wrapsBase base) baseText ++ "[" ++
        commaSeparated (first :: others) ++ "]")
  | intrinsic {function : IntrinsicFunction} {args : List Expr} {texts : List String}
      (written : exprTexts args = .ok texts) :
    ExprForm (.intrinsic function args) (intrinsicText function args texts)

theorem ExprForm.of_written {e : Expr} {text : String} (written : exprText e = .ok text) :
    ExprForm e text := by
  cases e with
  | integer _ | boolean _ | string _ | nil | symbol _ | dotted _ =>
      cases written
      constructor
  | float _ => exact .float written
  | complex _ =>
      obtain ⟨part, floatWritten, rfl⟩ := map_eq_ok.1 written
      exact .complex floatWritten
  | tuple _ | call _ _ | intrinsic _ _ =>
      obtain ⟨texts, partsWritten, rfl⟩ := map_eq_ok.1 written
      constructor
      exact partsWritten
  | binary op left right =>
      obtain ⟨_, _, leftWritten, rightWritten, rfl⟩ := both_eq_ok.1 written
      exact .binary leftWritten rightWritten
  | unary op operand =>
      obtain ⟨_, operandWritten, same⟩ := bind_eq_ok.1 written
      cases op with
      | neg =>
          cases same
          exact .neg operandWritten
      | not =>
          cases same
          exact .not operandWritten
  | range start stop step =>
      obtain ⟨_, startWritten, rest⟩ := bind_eq_ok.1 written
      obtain ⟨_, _, stopWritten, stepWritten, rfl⟩ := both_eq_ok.1 rest
      exact .range startWritten stopWritten stepWritten
  | indexed base index more =>
      obtain ⟨_, baseWritten, rest⟩ := bind_eq_ok.1 written
      obtain ⟨_, _, firstWritten, othersWritten, rfl⟩ := both_eq_ok.1 rest
      exact .indexed baseWritten firstWritten othersWritten
  | slice _ _ _ => cases written

theorem ExprForm.written {e : Expr} {text : String} (form : ExprForm e text) :
    exprText e = .ok text := by
  cases form with
  | integer _ | boolean _ | string _ | nil | symbol _ | dotted _ => rfl
  | float written => exact written
  | complex written => exact map_eq_ok.2 ⟨_, written, rfl⟩
  | tuple written | call written | intrinsic written => exact map_eq_ok.2 ⟨_, written, rfl⟩
  | binary leftWritten rightWritten => exact both_eq_ok.2 ⟨_, _, leftWritten, rightWritten, rfl⟩
  | neg written | not written => exact bind_eq_ok.2 ⟨_, written, rfl⟩
  | range startWritten stopWritten stepWritten =>
      exact bind_eq_ok.2 ⟨_, startWritten, both_eq_ok.2 ⟨_, _, stopWritten, stepWritten, rfl⟩⟩
  | indexed baseWritten firstWritten othersWritten =>
      exact bind_eq_ok.2 ⟨_, baseWritten, both_eq_ok.2 ⟨_, _, firstWritten, othersWritten, rfl⟩⟩

theorem exprTexts_cons_ok {e : Expr} {rest : List Expr} {texts : List String} :
    exprTexts (e :: rest) = .ok texts ↔
      ∃ text others, exprText e = .ok text ∧ exprTexts rest = .ok others ∧ texts = text :: others :=
  both_eq_ok

theorem indexTexts_cons_ok {index : Expr} {rest : List Expr} {texts : List String} :
    indexTexts (index :: rest) = .ok texts ↔
      ∃ text others, (sliceText? index).getD (exprText index) = .ok text ∧
        indexTexts rest = .ok others ∧ texts = text :: others :=
  both_eq_ok

theorem exprTexts_eq_mapM (items : List Expr) : exprTexts items = items.mapM exprText :=
  eq_mapM exprText exprTexts rfl (fun _ _ => rfl) items

theorem indexTexts_eq_mapM (indices : List Expr) :
    indexTexts indices = indices.mapM fun index => (sliceText? index).getD (exprText index) :=
  eq_mapM _ indexTexts rfl (fun _ _ => rfl) indices

inductive LineForm : Stmt → String → Prop
  | assign {target value : Expr} {targetText valueText : String}
      (targetWritten : openText target = .ok targetText)
      (valueWritten : openText value = .ok valueText) :
    LineForm (.assign target value) (targetText ++ " = " ++ valueText)
  | augAssign {target : Expr} {op : BinaryOperator} {value : Expr} {targetText valueText : String}
      (targetWritten : exprText target = .ok targetText)
      (valueWritten : exprText value = .ok valueText) :
    LineForm (.augAssign target op value) (targetText ++ " " ++ op.text ++ "= " ++ valueText)
  | returnValue {value : Expr} {text : String} (written : openText value = .ok text) :
    LineForm (.returnValue value) ("return " ++ text)
  | print {items : List Expr} {texts : List String} (written : exprTexts items = .ok texts) :
    LineForm (.print items) (callText "print" texts)
  | comment (text : String) : LineForm (.comment text) (commentLine text)
  | pragma (family : PragmaFamily) (clauses : List String) :
    LineForm (.pragma family clauses) (pragmaText family clauses)
  | pass : LineForm .pass "pass"
  | importNames (item : Import) : LineForm (.importNames item) (importText item)
  | expression {value : Expr} {text : String} (written : exprText value = .ok text) :
    LineForm (.expression value) text

inductive StmtForm (level : Nat) : Stmt → List Line → Prop
  | line {s : Stmt} {text : String} (form : LineForm s text) : StmtForm level s [.text level text]
  | emptyLine : StmtForm level .emptyLine [.blank]
  | conditional {first : Branch} {rest : List Branch} {otherwise : Option (List Stmt)}
      {firstLines restLines lastLines : List Line}
      (firstWritten : branchLines level "if " first = .ok firstLines)
      (restWritten : elifLines level rest = .ok restLines)
      (elseWritten : elseLines level otherwise = .ok lastLines) :
    StmtForm level (.conditional first rest otherwise) (firstLines ++ restLines ++ lastLines)
  | always {body : List Stmt} {lines : List Line}
      (bodyWritten : stmtsLines (level + 1) body = .ok lines) :
    StmtForm level (.always body) (.text level "if True:" :: bodyLines (level + 1) body lines)
  | forLoop {target : LoopTarget} {iterable : Expr} {body : List Stmt}
      {targetText iterableText : String} {lines : List Line}
      (targetWritten : openText target.toExpr = .ok targetText)
      (iterableWritten : exprText iterable = .ok iterableText)
      (bodyWritten : stmtsLines (level + 1) body = .ok lines) :
    StmtForm level (.forLoop target iterable body)
      (.text level ("for " ++ targetText ++ " in " ++ iterableText ++ ":") ::
        bodyLines (level + 1) body lines)
  | whileLoop {condition : Expr} {body : List Stmt} {text : String} {lines : List Line}
      (conditionWritten : exprText condition = .ok text)
      (bodyWritten : stmtsLines (level + 1) body = .ok lines) :
    StmtForm level (.whileLoop condition body)
      (.text level ("while " ++ text ++ ":") :: bodyLines (level + 1) body lines)
  | functionDef {definition : FunctionDef} {lines : List Line}
      (written : functionLines level definition = .ok lines) :
    StmtForm level (.functionDef definition) lines
  | classDef {name : String} {attributes : List Argument} {methods : List FunctionDef}
      {groups : List (List Line)} (written : methodLines (level + 1) methods = .ok groups) :
    StmtForm level (.classDef name attributes methods)
      (.text level ("class " ++ name ++ ":") ::
        if methods.isEmpty then [.text (level + 1) "pass"] else Line.separated groups)

theorem StmtForm.of_written {level : Nat} {s : Stmt} {lines : List Line}
    (written : stmtLines level s = .ok lines) : StmtForm level s lines := by
  cases s with
  | assign target value =>
      obtain ⟨_, _, targetWritten, valueWritten, rfl⟩ := both_eq_ok.1 written
      exact .line (.assign targetWritten valueWritten)
  | augAssign target op value =>
      obtain ⟨_, _, targetWritten, valueWritten, rfl⟩ := both_eq_ok.1 written
      exact .line (.augAssign targetWritten valueWritten)
  | returnValue value =>
      obtain ⟨_, valueWritten, rfl⟩ := only_eq_ok.1 written
      exact .line (.returnValue valueWritten)
  | print items =>
      obtain ⟨_, itemsWritten, rfl⟩ := only_eq_ok.1 written
      exact .line (.print itemsWritten)
  | comment _ | pragma _ _ | pass | importNames _ =>
      cases written
      exact .line (by constructor)
  | emptyLine =>
      cases written
      exact .emptyLine
  | conditional first rest otherwise =>
      obtain ⟨_, firstWritten, more⟩ := bind_eq_ok.1 written
      obtain ⟨_, _, restWritten, elseWritten, rfl⟩ := both_eq_ok.1 more
      exact .conditional firstWritten restWritten elseWritten
  | always body =>
      obtain ⟨_, bodyWritten, rfl⟩ := only_eq_ok.1 written
      exact .always bodyWritten
  | forLoop target iterable body =>
      obtain ⟨_, targetWritten, more⟩ := bind_eq_ok.1 written
      obtain ⟨_, _, iterableWritten, bodyWritten, rfl⟩ := both_eq_ok.1 more
      exact .forLoop targetWritten iterableWritten bodyWritten
  | whileLoop condition body =>
      obtain ⟨_, _, conditionWritten, bodyWritten, rfl⟩ := both_eq_ok.1 written
      exact .whileLoop conditionWritten bodyWritten
  | functionDef definition => exact .functionDef written
  | classDef name attributes methods =>
      obtain ⟨_, methodsWritten, rfl⟩ := only_eq_ok.1 written
      exact .classDef methodsWritten
  | expression value =>
      obtain ⟨_, valueWritten, rfl⟩ := only_eq_ok.1 written
      exact .line (.expression valueWritten)

theorem LineForm.written {s : Stmt} {text : String} (form : LineForm s text) (level : Nat) :
    stmtLines level s = .ok [.text level text] := by
  cases form with
  | assign targetWritten valueWritten | augAssign targetWritten valueWritten =>
      exact both_eq_ok.2 ⟨_, _, targetWritten, valueWritten, rfl⟩
  | returnValue written | print written | expression written =>
      exact only_eq_ok.2 ⟨_, written, rfl⟩
  | comment _ | pragma _ _ | pass | importNames _ => rfl

theorem StmtForm.written {level : Nat} {s : Stmt} {lines : List Line}
    (form : StmtForm level s lines) : stmtLines level s = .ok lines := by
  cases form with
  | line form => exact form.written level
  | emptyLine => rfl
  | conditional firstWritten restWritten elseWritten =>
      exact bind_eq_ok.2 ⟨_, firstWritten, both_eq_ok.2 ⟨_, _, restWritten, elseWritten, rfl⟩⟩
  | always bodyWritten => exact only_eq_ok.2 ⟨_, bodyWritten, rfl⟩
  | forLoop targetWritten iterableWritten bodyWritten =>
      exact bind_eq_ok.2
        ⟨_, targetWritten, both_eq_ok.2 ⟨_, _, iterableWritten, bodyWritten, rfl⟩⟩
  | whileLoop conditionWritten bodyWritten =>
      exact both_eq_ok.2 ⟨_, _, conditionWritten, bodyWritten, rfl⟩
  | functionDef written => exact written
  | classDef written => exact only_eq_ok.2 ⟨_, written, rfl⟩

section Bodies

variable {level : Nat} {lines : List Line}

theorem stmtsLines_cons_ok {s : Stmt} {rest : List Stmt} :
    stmtsLines level (s :: rest) = .ok lines ↔
      ∃ first others, stmtLines level s = .ok first ∧ stmtsLines level rest = .ok others ∧
        lines = first ++ others :=
  both_eq_ok

theorem branchLines_ok {keyword : String} {branch : Branch} :
    branchLines level keyword branch = .ok lines ↔
      ∃ condition body, exprText branch.condition = .ok condition ∧
        stmtsLines (level + 1) branch.body = .ok body ∧
        lines = .text level (keyword ++ condition ++ ":") ::
          bodyLines (level + 1) branch.body body := by
  cases branch
  exact both_eq_ok

theorem elifLines_cons_ok {branch : Branch} {rest : List Branch} :
    elifLines level (branch :: rest) = .ok lines ↔
      ∃ first others, branchLines level "elif " branch = .ok first ∧
        elifLines level rest = .ok others ∧ lines = first ++ others :=
  both_eq_ok

theorem elseLines_some_ok {body : List Stmt} :
    elseLines level (some body) = .ok lines ↔
      ∃ inner, stmtsLines (level + 1) body = .ok inner ∧
        lines = .text level "else:" :: bodyLines (level + 1) body inner :=
  only_eq_ok

theorem functionLines_ok {definition : FunctionDef} :
    functionLines level definition = .ok lines ↔
      ∃ decorators parameters body,
        definition.decorators.entries.mapM decoratorText = .ok decorators ∧
        definition.arguments.mapM parameterText = .ok parameters ∧
        stmtsLines (level + 1) definition.body = .ok body ∧
        lines = decorators.map (.text level) ++
          .text level ("def " ++ callText definition.name parameters ++ ":") ::
            bodyLines (level + 1) definition.body body := by
  cases definition
  constructor
  · intro written
    obtain ⟨decorators, decoratorsWritten, more⟩ := bind_eq_ok.1 written
    obtain ⟨parameters, body, parametersWritten, bodyWritten, same⟩ := both_eq_ok.1 more
    exact ⟨decorators, parameters, body, decoratorsWritten, parametersWritten, bodyWritten, same⟩
  · rintro ⟨decorators, parameters, body, decoratorsWritten, parametersWritten, bodyWritten, same⟩
    exact bind_eq_ok.2 ⟨decorators, decoratorsWritten,
      both_eq_ok.2 ⟨parameters, body, parametersWritten, bodyWritten, same⟩⟩

theorem methodLines_cons_ok {method : FunctionDef} {rest : List FunctionDef}
    {groups : List (List Line)} :
    methodLines level (method :: rest) = .ok groups ↔
      ∃ first others, functionLines level method = .ok first ∧
        methodLines level rest = .ok others ∧ groups = first :: others :=
  both_eq_ok

theorem stmtsLines_eq_mapM (level : Nat) (body : List Stmt) :
    stmtsLines level body = (body.mapM (stmtLines level)).map List.flatten :=
  eq_mapM_flatten _ (stmtsLines level) rfl (fun _ _ => rfl) body

theorem elifLines_eq_mapM (level : Nat) (branches : List Branch) :
    elifLines level branches = (branches.mapM (branchLines level "elif ")).map List.flatten :=
  eq_mapM_flatten _ (elifLines level) rfl (fun _ _ => rfl) branches

theorem methodLines_eq_mapM (level : Nat) (methods : List FunctionDef) :
    methodLines level methods = methods.mapM (functionLines level) :=
  eq_mapM _ (methodLines level) rfl (fun _ _ => rfl) methods

end Bodies

end NumericPython.Printing

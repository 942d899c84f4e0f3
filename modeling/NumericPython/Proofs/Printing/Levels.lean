import NumericPython.Proofs.Printing.Printable

set_option autoImplicit false

namespace NumericPython

namespace Line

def deepen (depth : Nat) : Line → Line
  | blank => blank
  | text level content => text (level + depth) content

def isUnder (level : Nat) : Line → Bool
  | blank => true
  | text inner _ => level < inner

theorem isUnder_deepen (level : Nat) (line : Line) : (line.deepen (level + 1)).isUnder level = true := by
  cases line with
  | blank => rfl
  | text inner content => simp only [deepen, isUnder, decide_eq_true_eq]; omega

theorem separated_map (f : Line → Line) (keepsBlank : f blank = blank) (groups : List (List Line)) :
    separated (groups.map (List.map f)) = (separated groups).map f := by
  induction groups with
  | nil => rfl
  | cons lines rest ih =>
      cases rest with
      | nil => rfl
      | cons next more =>
          simp only [List.map_cons] at ih
          simp only [List.map_cons, separated, ih, List.map_append, keepsBlank]

end Line

namespace Printing

open Line

variable {depth : Nat}

theorem bodyLines_deepen (level : Nat) (body : List Stmt) (lines : List Line) :
    bodyLines (level + depth) body (lines.map (deepen depth)) =
      (bodyLines level body lines).map (deepen depth) := by
  unfold bodyLines
  split
  · simp [deepen]
  · rfl

theorem under_deepen {level : Nat} {body : List Stmt} (header : List Line)
    (deeper : stmtsLines (level + 1 + depth) body =
      (stmtsLines (level + 1) body).map (List.map (deepen depth))) :
    (do
        let lines ← stmtsLines (level + depth + 1) body
        .ok (header.map (deepen depth) ++ bodyLines (level + depth + 1) body lines)) =
      Except.map (List.map (deepen depth)) (do
        let lines ← stmtsLines (level + 1) body
        .ok (header ++ bodyLines (level + 1) body lines)) := by
  simp only [Nat.add_right_comm level depth 1, deeper]
  cases stmtsLines (level + 1) body with
  | error cause => rfl
  | ok lines =>
      simp only [Except.map, bind, Except.bind, bodyLines_deepen, List.map_append]

mutual

theorem stmtLines_deepen (level : Nat) : ∀ (s : Stmt),
    stmtLines (level + depth) s = (stmtLines level s).map (List.map (deepen depth))
  | .comment _ | .pragma _ _ | .emptyLine | .pass | .importNames _ => rfl
  | .assign target value => by
      simp only [stmtLines]
      cases openText target <;> cases openText value <;> rfl
  | .augAssign target _ value => by
      simp only [stmtLines]
      cases exprText target <;> cases exprText value <;> rfl
  | .returnValue value => by
      simp only [stmtLines]
      cases openText value <;> rfl
  | .print items => by
      simp only [stmtLines]
      cases exprTexts items <;> rfl
  | .conditional first rest otherwise => by
      simp only [stmtLines, branchLines_deepen level "if " first, elifLines_deepen level rest,
        elseLines_deepen level otherwise]
      cases branchLines level "if " first
      · rfl
      cases elifLines level rest
      · rfl
      cases elseLines level otherwise
      · rfl
      · simp [bind, Except.bind, Except.map]
  | .always body => under_deepen [.text level "if True:"] (stmtsLines_deepen (level + 1) body)
  | .forLoop target iterable body => by
      simp only [stmtLines]
      cases openText target.toExpr with
      | error cause => rfl
      | ok targetText =>
          cases exprText iterable with
          | error cause => rfl
          | ok iterableText =>
              exact under_deepen [.text level ("for " ++ targetText ++ " in " ++ iterableText ++ ":")]
                (stmtsLines_deepen (level + 1) body)
  | .whileLoop condition body => by
      simp only [stmtLines]
      cases exprText condition with
      | error cause => rfl
      | ok text =>
          exact under_deepen [.text level ("while " ++ text ++ ":")]
            (stmtsLines_deepen (level + 1) body)
  | .functionDef definition => functionLines_deepen level definition
  | .classDef name attributes methods => by
      have deeper := methodLines_deepen (level + 1) methods
      rw [Nat.add_right_comm] at deeper
      simp only [stmtLines, deeper]
      cases methodLines (level + 1) methods with
      | error cause => rfl
      | ok groups =>
          cases methods with
          | nil => simp [bind, Except.bind, Except.map, deepen, Nat.add_right_comm]
          | cons method rest =>
              have moved := separated_map (deepen depth) rfl groups
              simpa [bind, Except.bind, Except.map, deepen] using moved
  | .expression value => by
      simp only [stmtLines]
      cases exprText value <;> rfl

theorem stmtsLines_deepen (level : Nat) : ∀ (body : List Stmt),
    stmtsLines (level + depth) body = (stmtsLines level body).map (List.map (deepen depth))
  | [] => rfl
  | s :: rest => by
      simp only [stmtsLines, stmtLines_deepen level s, stmtsLines_deepen level rest]
      cases stmtLines level s
      · rfl
      cases stmtsLines level rest
      · rfl
      · simp [bind, Except.bind, Except.map]

theorem branchLines_deepen (level : Nat) (keyword : String) : ∀ (branch : Branch),
    branchLines (level + depth) keyword branch =
      (branchLines level keyword branch).map (List.map (deepen depth))
  | ⟨condition, body⟩ => by
      simp only [branchLines]
      cases exprText condition with
      | error cause => rfl
      | ok text =>
          exact under_deepen [.text level (keyword ++ text ++ ":")]
            (stmtsLines_deepen (level + 1) body)

theorem elifLines_deepen (level : Nat) : ∀ (branches : List Branch),
    elifLines (level + depth) branches =
      (elifLines level branches).map (List.map (deepen depth))
  | [] => rfl
  | branch :: rest => by
      simp only [elifLines, branchLines_deepen level "elif " branch, elifLines_deepen level rest]
      cases branchLines level "elif " branch
      · rfl
      cases elifLines level rest
      · rfl
      · simp [bind, Except.bind, Except.map]

theorem elseLines_deepen (level : Nat) : ∀ (otherwise : Option (List Stmt)),
    elseLines (level + depth) otherwise =
      (elseLines level otherwise).map (List.map (deepen depth))
  | none => rfl
  | some body => under_deepen [.text level "else:"] (stmtsLines_deepen (level + 1) body)

theorem functionLines_deepen (level : Nat) : ∀ (definition : FunctionDef),
    functionLines (level + depth) definition =
      (functionLines level definition).map (List.map (deepen depth))
  | ⟨name, arguments, _, body, _, _, _, _, _, _, decorators⟩ => by
      simp only [functionLines]
      cases decorators.entries.mapM decoratorText with
      | error cause => rfl
      | ok decoratorTexts =>
          cases arguments.mapM parameterText with
          | error cause => rfl
          | ok parameterTexts =>
              have moved := under_deepen (decoratorTexts.map (.text level) ++
                [.text level ("def " ++ callText name parameterTexts ++ ":")])
                (stmtsLines_deepen (level + 1) body)
              simpa [deepen, Function.comp_def, bind, Except.bind] using moved

theorem methodLines_deepen (level : Nat) : ∀ (methods : List FunctionDef),
    methodLines (level + depth) methods =
      (methodLines level methods).map (List.map (List.map (deepen depth)))
  | [] => rfl
  | method :: rest => by
      simp only [methodLines, functionLines_deepen level method, methodLines_deepen level rest]
      cases functionLines level method
      · rfl
      cases methodLines level rest
      · rfl
      · simp [bind, Except.bind, Except.map]

end

theorem stmtsLines_under {level : Nat} {body : List Stmt} {lines : List Line}
    (written : stmtsLines (level + 1) body = .ok lines) :
    ∀ line ∈ lines, line.isUnder level = true := by
  have moved := @stmtsLines_deepen (level + 1) 0 body
  rw [Nat.zero_add, written] at moved
  obtain ⟨outermost, _, rfl⟩ := map_eq_ok.1 moved.symm
  exact List.forall_mem_map.2 fun line _ => isUnder_deepen level line

theorem methodLines_under {level : Nat} {methods : List FunctionDef} {groups : List (List Line)}
    (written : methodLines (level + 1) methods = .ok groups) :
    ∀ line ∈ separated groups, line.isUnder level = true := by
  have moved := @methodLines_deepen (level + 1) 0 methods
  rw [Nat.zero_add, written] at moved
  obtain ⟨outermost, _, rfl⟩ := map_eq_ok.1 moved.symm
  rw [separated_map (deepen (level + 1)) rfl]
  exact List.forall_mem_map.2 fun line _ => isUnder_deepen level line

theorem bodyLines_under {level : Nat} {body : List Stmt} {lines : List Line}
    (under : ∀ line ∈ lines, line.isUnder level = true) :
    ∀ line ∈ bodyLines (level + 1) body lines, line.isUnder level = true := by
  unfold bodyLines
  split
  · have last : (text (level + 1) "pass").isUnder level = true := by simp [isUnder]
    exact List.forall_mem_append.2 ⟨under, List.forall_mem_singleton.2 last⟩
  · exact under

end Printing

end NumericPython

import NumericPython.Printing.Node
import NumericPython.Proofs.Printing.Blocks
import NumericPython.Proofs.Printing.CodeLines

set_option autoImplicit false

namespace NumericPython

namespace Stmt

mutual

/-- The bodies in the statement, in the order of their headers. The body of a class is made of the
definitions of its methods. -/
def bodies : Stmt → List (List Stmt)
  | conditional first rest otherwise =>
    branchBodies first ++ elifBodies rest ++ elseBodies otherwise
  | always body | forLoop _ _ body | whileLoop _ body => body :: bodiesIn body
  | functionDef definition => definitionBodies definition
  | classDef _ _ methods => methods.map functionDef :: methodBodies methods
  | _ => []

def bodiesIn : List Stmt → List (List Stmt)
  | [] => []
  | s :: rest => s.bodies ++ bodiesIn rest

def branchBodies : Branch → List (List Stmt)
  | ⟨_, body⟩ => body :: bodiesIn body

def elifBodies : List Branch → List (List Stmt)
  | [] => []
  | branch :: rest => branchBodies branch ++ elifBodies rest

def elseBodies : Option (List Stmt) → List (List Stmt)
  | none => []
  | some body => body :: bodiesIn body

def definitionBodies : FunctionDef → List (List Stmt)
  | ⟨_, _, _, body, _, _, _, _, _, _, _⟩ => body :: bodiesIn body

def methodBodies : List FunctionDef → List (List Stmt)
  | [] => []
  | method :: rest => definitionBodies method ++ methodBodies rest

end

end Stmt

namespace Line

/-- Whether a line on the level of the block's own lines is neither blank nor a comment. -/
def Block.holdsCode (block : Block) : Bool :=
  block.lines.any (isCodeOn (block.level + 1))

/-- The block printed for a body. A body of comments and blank lines has got a `pass` at its end. -/
structure Carries (block : Block) (body : List Stmt) : Prop where
  colon : block.header.toList.getLast? = some ':'
  code : block.holdsCode = (body.all Printing.isLayout || body.any Stmt.printsCode)

theorem any_isCodeOn_of_blank {level : Nat} {blanks : List Line}
    (all : ∀ line ∈ blanks, line.isBlank = true) : blanks.any (isCodeOn level) = false := by
  apply List.any_eq_false.2
  intro line member
  cases line with
  | blank => exact Bool.false_ne_true
  | text inner content => exact absurd (all _ member) Bool.false_ne_true

end Line

namespace Printing

open Line

theorem stmtsLines_code {level : Nat} {body : List Stmt} {lines : List Line}
    (written : stmtsLines level body = .ok lines) :
    lines.any (isCodeOn level) = body.any Stmt.printsCode := by
  induction body generalizing lines with
  | nil =>
      cases written
      rfl
  | cons s rest ih =>
      obtain ⟨first, others, firstWritten, othersWritten, rfl⟩ := stmtsLines_cons_ok.1 written
      rw [List.any_append, List.any_cons, (stmtLines_begins firstWritten).any_isCodeOn,
        ih othersWritten]

theorem stmtsLines_filled {level : Nat} {body : List Stmt} {lines : List Line}
    (written : stmtsLines level body = .ok lines) {s : Stmt} (member : s ∈ body)
    (notEmpty : s.isEmptyLine = false) : lines.all isBlank = false := by
  induction body generalizing lines with
  | nil => cases member
  | cons first rest ih =>
      obtain ⟨firstLines, others, firstWritten, othersWritten, rfl⟩ := stmtsLines_cons_ok.1 written
      rw [List.all_append, Bool.and_eq_false_iff]
      rcases List.mem_cons.1 member with rfl | later
      · have begins := stmtLines_begins firstWritten
        rw [notEmpty] at begins
        exact .inl begins.filled
      · exact .inr (ih othersWritten later)

variable {level : Nat} {body : List Stmt} {lines : List Line}

theorem bodyLines_code (written : stmtsLines level body = .ok lines) :
    (bodyLines level body lines).any (isCodeOn level) =
      (body.all isLayout || body.any Stmt.printsCode) := by
  have pass : Text.isCode "pass" = true := by decide
  unfold bodyLines
  split
  next layout => simp [layout, isCodeOn, pass]
  next notLayout =>
    rw [stmtsLines_code written]
    simp [notLayout]

theorem bodyLines_filled (written : stmtsLines level body = .ok lines) :
    (bodyLines level body lines).all isBlank = false := by
  unfold bodyLines
  split
  next => simp [isBlank]
  next notLayout =>
    obtain ⟨s, member, kept⟩ : ∃ s ∈ body, isLayout s = false := by simpa using notLayout
    apply stmtsLines_filled written member
    cases s with
    | emptyLine => cases kept
    | _ => rfl

theorem block_blocks {header : String} {bodies : List (List Stmt)}
    (colon : header.toList.getLast? = some ':')
    (code : lines.any (isCodeOn (level + 1)) = (body.all isLayout || body.any Stmt.printsCode))
    (filled : lines.all isBlank = false) (deeper : ∀ line ∈ lines, line.isUnder level = true)
    (inner : HasBlocks Carries (level + 1) lines bodies) :
    HasBlocks Carries level (.text level header :: lines) (body :: bodies) := by
  apply inner.under deeper filled
  intro blanks all
  refine ⟨colon, ?_⟩
  rw [Block.holdsCode, List.any_append, code, any_isCodeOn_of_blank all, Bool.or_false]

theorem under_blocks {header : String} (colon : header.toList.getLast? = some ':')
    (written : stmtsLines (level + 1) body = .ok lines)
    (inner : HasBlocks Carries (level + 1) lines (Stmt.bodiesIn body)) :
    HasBlocks Carries level (.text level header :: bodyLines (level + 1) body lines)
      (body :: Stmt.bodiesIn body) := by
  apply block_blocks colon
  · exact bodyLines_code written
  · exact bodyLines_filled written
  · exact bodyLines_under (stmtsLines_under written)
  · unfold bodyLines
    split
    -- The `pass` stands on the level of the body and has no lines below it.
    · have whole := inner.append (.text "pass")
      rwa [List.append_nil] at whole
    · exact inner

theorem classLines_blocks {header : String} {methods : List FunctionDef}
    {groups : List (List Line)} (colon : header.toList.getLast? = some ':')
    (written : methodLines (level + 1) methods = .ok groups)
    (inner : HasBlocks Carries (level + 1) (Line.separated groups) (Stmt.methodBodies methods)) :
    HasBlocks Carries level
      (.text level header ::
        if methods.isEmpty then [.text (level + 1) "pass"] else Line.separated groups)
      (methods.map .functionDef :: Stmt.methodBodies methods) := by
  cases methods with
  | nil =>
      have pass : Text.isCode "pass" = true := by decide
      apply block_blocks colon
      · simp [isCodeOn, pass]
      · rfl
      · simp [isUnder]
      · exact .text "pass"
  | cons method rest =>
      have deeper := methodLines_under written
      obtain ⟨first, others, firstWritten, othersWritten, rfl⟩ := methodLines_cons_ok.1 written
      -- Whatever follows, the first line of the first method is code.
      have begins : Begins (level + 1) false true (Line.separated (first :: others)) := by
        have firstBegins := functionLines_begins firstWritten
        cases others with
        | nil => exact firstBegins
        | cons next more => exact firstBegins.append rfl _
      apply block_blocks colon
      · rw [if_neg (by simp), begins.any_isCodeOn]
        simp [Stmt.printsCode]
      · exact begins.filled
      · exact deeper
      · exact inner

theorem ends_colon (text : String) : (text ++ ":").toList.getLast? = some ':' := by
  simp

-- The lines of a statement and the bodies in it are put together in the same order, so that each case
-- follows one constructor; only what has a body of its own adds a block.
mutual

theorem stmtLines_blocks (level : Nat) : ∀ (s : Stmt) {lines : List Line},
    stmtLines level s = .ok lines → HasBlocks Carries level lines s.bodies
  | .assign _ _, _, written | .augAssign _ _ _, _, written | .returnValue _, _, written
  | .print _, _, written | .comment _, _, written | .pragma _ _, _, written | .pass, _, written
  | .importNames _, _, written | .expression _, _, written => by
      cases StmtForm.of_written written with
      | line _ => exact .text _
  | .emptyLine, _, written => by
      cases written
      exact .blank
  | .conditional first rest otherwise, _, written => by
      cases StmtForm.of_written written with
      | line form => cases form
      | conditional firstWritten restWritten elseWritten =>
          apply HasBlocks.append
          · exact (branchLines_blocks level "if " first firstWritten).append
              (elifLines_blocks level rest restWritten)
          · exact elseLines_blocks level otherwise elseWritten
  | .always body, _, written => by
      cases StmtForm.of_written written with
      | line form => cases form
      | always bodyWritten =>
          exact under_blocks (by decide) bodyWritten (stmtsLines_blocks (level + 1) body bodyWritten)
  | .forLoop _ _ body, _, written => by
      cases StmtForm.of_written written with
      | line form => cases form
      | forLoop _ _ bodyWritten =>
          exact under_blocks (ends_colon _) bodyWritten
            (stmtsLines_blocks (level + 1) body bodyWritten)
  | .whileLoop _ body, _, written => by
      cases StmtForm.of_written written with
      | line form => cases form
      | whileLoop _ bodyWritten =>
          exact under_blocks (ends_colon _) bodyWritten
            (stmtsLines_blocks (level + 1) body bodyWritten)
  | .functionDef definition, _, written => functionLines_blocks level definition written
  | .classDef _ _ methods, _, written => by
      cases StmtForm.of_written written with
      | line form => cases form
      | classDef methodsWritten =>
          exact classLines_blocks (ends_colon _) methodsWritten
            (methodLines_blocks (level + 1) methods methodsWritten)

theorem stmtsLines_blocks (level : Nat) : ∀ (body : List Stmt) {lines : List Line},
    stmtsLines level body = .ok lines → HasBlocks Carries level lines (Stmt.bodiesIn body)
  | [], _, written => by
      cases written
      exact .nil
  | s :: rest, _, written => by
      obtain ⟨lines, others, firstWritten, othersWritten, rfl⟩ := stmtsLines_cons_ok.1 written
      exact (stmtLines_blocks level s firstWritten).append
        (stmtsLines_blocks level rest othersWritten)

theorem branchLines_blocks (level : Nat) (keyword : String) : ∀ (branch : Branch)
    {lines : List Line}, branchLines level keyword branch = .ok lines →
      HasBlocks Carries level lines (Stmt.branchBodies branch)
  | ⟨_, body⟩, _, written => by
      obtain ⟨_, lines, _, bodyWritten, rfl⟩ := branchLines_ok.1 written
      exact under_blocks (ends_colon _) bodyWritten (stmtsLines_blocks (level + 1) body bodyWritten)

theorem elifLines_blocks (level : Nat) : ∀ (branches : List Branch) {lines : List Line},
    elifLines level branches = .ok lines → HasBlocks Carries level lines (Stmt.elifBodies branches)
  | [], _, written => by
      cases written
      exact .nil
  | branch :: rest, _, written => by
      obtain ⟨lines, others, firstWritten, othersWritten, rfl⟩ := elifLines_cons_ok.1 written
      exact (branchLines_blocks level "elif " branch firstWritten).append
        (elifLines_blocks level rest othersWritten)

theorem elseLines_blocks (level : Nat) : ∀ (otherwise : Option (List Stmt)) {lines : List Line},
    elseLines level otherwise = .ok lines → HasBlocks Carries level lines (Stmt.elseBodies otherwise)
  | none, _, written => by
      cases written
      exact .nil
  | some body, _, written => by
      obtain ⟨lines, bodyWritten, rfl⟩ := elseLines_some_ok.1 written
      exact under_blocks (by decide) bodyWritten (stmtsLines_blocks (level + 1) body bodyWritten)

theorem functionLines_blocks (level : Nat) : ∀ (definition : FunctionDef) {lines : List Line},
    functionLines level definition = .ok lines →
      HasBlocks Carries level lines (Stmt.definitionBodies definition)
  | ⟨_, _, _, body, _, _, _, _, _, _, _⟩, _, written => by
      obtain ⟨decorators, _, lines, _, _, bodyWritten, rfl⟩ := functionLines_ok.1 written
      have below := stmtsLines_blocks (level + 1) body bodyWritten
      -- Decorators stand on the level of the header, so none of them has a block.
      exact (HasBlocks.texts decorators).append (under_blocks (ends_colon _) bodyWritten below)

theorem methodLines_blocks (level : Nat) : ∀ (methods : List FunctionDef)
    {groups : List (List Line)}, methodLines level methods = .ok groups →
      HasBlocks Carries level (Line.separated groups) (Stmt.methodBodies methods)
  | [], _, written => by
      cases written
      exact .nil
  | method :: rest, _, written => by
      obtain ⟨lines, others, firstWritten, othersWritten, rfl⟩ := methodLines_cons_ok.1 written
      exact (functionLines_blocks level method firstWritten).separated
        (methodLines_blocks level rest othersWritten)

end

theorem foreignFunctionLines_blocks {settings : Settings} {function : ForeignFunction}
    {lines : List Line} (written : foreignFunctionLines settings function = .ok lines) :
    HasBlocks Carries 0 lines (Stmt.definitionBodies (function.wrapper settings)) := by
  simp only [foreignFunctionLines, bind_eq_ok] at written
  obtain ⟨header, _, definition, definitionWritten, same⟩ := written
  cases same
  have above : HasBlocks Carries 0 _ ([] : List (List Stmt)) :=
    .texts ["from " ++ function.moduleName ++ " import " ++ function.name, header]
  exact above.append (functionLines_blocks 0 _ definitionWritten)

theorem foreignModuleLines_blocks {settings : Settings} {functions : List ForeignFunction}
    {groups : List (List Line)}
    (written : functions.mapM (foreignFunctionLines settings) = .ok groups) :
    HasBlocks Carries 0 (Line.separated groups)
      (Stmt.methodBodies (functions.map (·.wrapper settings))) := by
  rw [mapM_eq_ok] at written
  induction written with
  | nil => exact .nil
  | cons first _ ih => exact (foreignFunctionLines_blocks first).separated ih

theorem interfaceLines_blocks (settings : Settings) (moduleName : String)
    (functions : List ForeignFunction) :
    HasBlocks Carries 0 (interfaceLines settings moduleName functions) ([] : List (List Stmt)) := by
  have rows : interfaceLines settings moduleName functions =
      (("from " ++ moduleName ++ " import " ++ moduleName) :: functions.map fun function =>
        function.name ++ " = " ++ moduleName ++ "." ++
          function.wrapperName settings.wrapperPrefix).map (.text 0) := by
    simp [interfaceLines, rebinding, Function.comp_def]
  rw [rows]
  exact .texts _

end Printing

open Printing

namespace Node

variable (settings : Settings)

def lines : Node → Printed (List Line)
  | expr e => (exprText e).map fun text => [.text 0 text]
  | stmt s => stmtLines 0 s
  | argument a => .ok [.text 0 a.name]
  | valuedArgument a value =>
    (parameterText (.valued a value)).map fun text => [.text 0 text]
  | block body => stmtsLines 0 body
  | foreignFunction function => foreignFunctionLines settings function
  | foreignModule exported =>
    (exported.functions.mapM (foreignFunctionLines settings)).map Line.separated
  | foreignFunctionInterface wrapperModule function =>
    .ok (interfaceLines settings wrapperModule [function])
  | foreignModuleInterface exported =>
    .ok (interfaceLines settings exported.name exported.functions)

def ending : Node → String
  | block _ => "\n"
  | _ => ""

theorem renderAll_single (width : Nat) (written : Printed String) :
    ((written.map fun text => [Line.text 0 text]).map fun lines =>
      Line.renderAll width lines ++ "") = written := by
  cases written with
  | error cause => rfl
  | ok text => simp [Except.map, Line.renderAll, Line.render, Text.spaces]

theorem print_eq_lines (node : Node) :
    node.print settings = (node.lines settings).map fun lines =>
      Line.renderAll settings.indentWidth lines ++ node.ending := by
  have ended (written : Printed (List Line)) : written.map (Line.renderAll settings.indentWidth) =
      written.map fun lines => Line.renderAll settings.indentWidth lines ++ "" := by
    simp only [String.append_empty]
  cases node with
  | expr e => exact (renderAll_single _ (exprText e)).symm
  | argument a => exact (renderAll_single _ (.ok a.name)).symm
  | valuedArgument a value => exact (renderAll_single _ (parameterText (.valued a value))).symm
  | block body =>
      simp only [print, lines, ending]
      cases stmtsLines 0 body <;> rfl
  | foreignFunctionInterface wrapperModule function =>
      exact ended (.ok (interfaceLines settings wrapperModule [function]))
  | foreignModuleInterface exported =>
      exact ended (.ok (interfaceLines settings exported.name exported.functions))
  | _ => exact ended _

def bodies : Node → List (List Stmt)
  | stmt s => s.bodies
  | block body => Stmt.bodiesIn body
  | foreignFunction function => Stmt.definitionBodies (function.wrapper settings)
  | foreignModule exported =>
    Stmt.methodBodies (exported.functions.map (·.wrapper settings))
  | _ => []

theorem lines_blocks {node : Node} {lines : List Line} (written : node.lines settings = .ok lines) :
    Line.HasBlocks Line.Carries 0 lines (node.bodies settings) := by
  cases node with
  | expr e =>
      obtain ⟨text, _, rfl⟩ := map_eq_ok.1 written
      exact .text text
  | stmt s => exact stmtLines_blocks 0 s written
  | argument a =>
      cases written
      exact .text a.name
  | valuedArgument a value =>
      obtain ⟨text, _, rfl⟩ := map_eq_ok.1 written
      exact .text text
  | block body => exact stmtsLines_blocks 0 body written
  | foreignFunction function => exact foreignFunctionLines_blocks written
  | foreignModule exported =>
      obtain ⟨groups, groupsWritten, rfl⟩ := map_eq_ok.1 written
      exact foreignModuleLines_blocks groupsWritten
  | foreignFunctionInterface wrapperModule function =>
      cases written
      exact interfaceLines_blocks settings wrapperModule [function]
  | foreignModuleInterface exported =>
      cases written
      exact interfaceLines_blocks settings exported.name exported.functions

end Node

/-- A printed node has one block for each body in it. The block has a line of code on its own level
exactly if the body is made of comments and blank lines only or one of its statements prints code; a
pragma is neither. -/
theorem printed_body_holds_code_iff (settings : Settings) {node : Node} {text : String}
    (printed : node.print settings = .ok text) :
    ∃ lines, node.lines settings = .ok lines ∧
      text = Line.renderAll settings.indentWidth lines ++ node.ending ∧
      List.Forall₂ Line.Carries (Line.blocks lines) (node.bodies settings) := by
  rw [node.print_eq_lines settings, map_eq_ok] at printed
  obtain ⟨lines, written, rfl⟩ := printed
  exact ⟨lines, written, rfl, (node.lines_blocks settings written).blocks_forall₂⟩

def pragmaLoop : Stmt :=
  .whileLoop (.symbol (.plain "a")) [.pragma .omp ["parallel"]]

theorem pragma_body_holds_no_code :
    (Node.stmt pragmaLoop).print {} = .ok "while a:\n    #$ omp parallel" ∧
      ∃ lines, (Node.stmt pragmaLoop).lines {} = .ok lines ∧
        ∃ block ∈ Line.blocks lines, block.holdsCode = false := by
  have printed : (Node.stmt pragmaLoop).print {} = .ok "while a:\n    #$ omp parallel" := rfl
  obtain ⟨lines, written, _, carried⟩ := printed_body_holds_code_iff {} printed
  refine ⟨printed, lines, written, ?_⟩
  have bodies : (Node.stmt pragmaLoop).bodies {} = [[.pragma .omp ["parallel"]]] := rfl
  rw [bodies] at carried
  cases found : Line.blocks lines with
  | nil => simp [found] at carried
  | cons block rest =>
      rw [found] at carried
      cases carried with
      | cons first _ => exact ⟨block, List.mem_cons_self .., first.code⟩

end NumericPython

import NumericPython.Directive
import NumericPython.Layout.Convert
import NumericPython.Proofs.RoundTrip.Definitions

set_option autoImplicit false

namespace NumericPython

open Grammar Layout Line Lowering Printing RawTree

variable {alphabet : Alphabet} {width : Nat}

/-- The statements whose text has one meaning. A comment has no blanks at its ends, clauses of
pragmas have balanced parentheses and blanks only inside them, and neither has a line feed. Bodies
end with a statement that is more than layout. -/
inductive WritableStmt (alphabet : Alphabet) : Stmt → Prop
  | assign {target value : Expr} (assignable : Assignable alphabet target)
      (writable : Writable alphabet .value value) : WritableStmt alphabet (.assign target value)
  | augAssign {target value : Expr} {op : BinaryOperator} (arithmetic : op.isArithmetic = true)
      (assignable : Assignable alphabet target) (notTuple : target.kind ≠ .tuple)
      (writable : Writable alphabet .value value) :
      WritableStmt alphabet (.augAssign target op value)
  | returnValue {value : Expr} (writable : Writable alphabet .value value) :
      WritableStmt alphabet (.returnValue value)
  | print {items : List Expr} (writable : ∀ e ∈ items, Writable alphabet .value e) :
      WritableStmt alphabet (.print items)
  | comment {text : String} (trimmed : Text.trim text.toList = text.toList)
      (row : '\n' ∉ text.toList) : WritableStmt alphabet (.comment text)
  | pragma {family : PragmaFamily} {clauses : List String}
      (valid : ∀ text ∈ clauses, Directive.isClause text = true)
      (row : ∀ text ∈ clauses, '\n' ∉ text.toList) : WritableStmt alphabet (.pragma family clauses)
  | emptyLine : WritableStmt alphabet .emptyLine
  | pass : WritableStmt alphabet .pass
  | imports {target : ImportTarget} {more : List ImportTarget}
      (named : ∀ item ∈ target :: more, item.IsNamed alphabet) :
      WritableStmt alphabet (.importNames ⟨none, target, more⟩)
  | importsFrom {source : Name} {target : ImportTarget} {more : List ImportTarget}
      (isCallee : IsCallee alphabet source) (notFuture : source ≠ .symbol (.plain "__future__"))
      (named : ∀ item ∈ target :: more, item.IsNamed alphabet ∧ ∃ symbol, item.name = .symbol symbol) :
      WritableStmt alphabet (.importNames ⟨some source, target, more⟩)
  | conditional {first : Branch} {rest : List Branch} {otherwise : Option (List Stmt)}
      (conditions : ∀ branch ∈ first :: rest, Writable alphabet .value branch.condition)
      (ends : ∀ branch ∈ first :: rest, EndsInStatement branch.body)
      (bodies : ∀ branch ∈ first :: rest, ∀ s ∈ branch.body, WritableStmt alphabet s)
      (lastEnds : ∀ body ∈ otherwise, EndsInStatement body)
      (lastBody : ∀ body ∈ otherwise, ∀ s ∈ body, WritableStmt alphabet s) :
      WritableStmt alphabet (.conditional first rest otherwise)
  | forLoop {target : LoopTarget} {iterable : Expr} {body : List Stmt}
      (assignable : Assignable alphabet target.toExpr)
      (writable : Writable alphabet .value iterable) (ends : EndsInStatement body)
      (statements : ∀ s ∈ body, WritableStmt alphabet s) :
      WritableStmt alphabet (.forLoop target iterable body)
  | whileLoop {condition : Expr} {body : List Stmt} (writable : Writable alphabet .value condition)
      (ends : EndsInStatement body) (statements : ∀ s ∈ body, WritableStmt alphabet s) :
      WritableStmt alphabet (.whileLoop condition body)
  | functionDef {definition : FunctionDef} (textual : definition.IsTextual alphabet none)
      (ends : EndsInStatement definition.body)
      (statements : ∀ s ∈ definition.body, WritableStmt alphabet s) :
      WritableStmt alphabet (.functionDef definition)
  | classDef {name : String} {methods : List FunctionDef} (isName : IsName alphabet name)
      (textual : ∀ method ∈ methods, method.IsTextual alphabet (some name))
      (ends : ∀ method ∈ methods, EndsInStatement method.body)
      (statements : ∀ method ∈ methods, ∀ s ∈ method.body, WritableStmt alphabet s) :
      WritableStmt alphabet (.ofMethods name methods)
  | expression {value : Expr} (writable : Writable alphabet .value value)
      (notPrint : ∀ args, value ≠ .call (.symbol (.plain "print")) args) :
      WritableStmt alphabet (.expression value)

section Statements

theorem readsBack_onLine {s : Stmt} {text : String} (solid : s.isSolid = true)
    (form : LineForm s text) (onLine : OnLine alphabet s text) : s.ReadsBack alphabet width :=
  fun level => ⟨_, form.written level, isMade_of_reads solid (makes_simple onLine)⟩

theorem comment_readsBack {text : String} (trimmed : Text.trim text.toList = text.toList)
    (row : '\n' ∉ text.toList) : (Stmt.comment text).ReadsBack alphabet width := by
  intro level
  have hash := toList_commentLine text
  refine ⟨_, rfl, .note hash ?_ fun span => ⟨rfl, ?_⟩⟩
  · rw [hash]
    split <;> simp [row]
  · rw [lowerStmt]
    exact gives_lift (lowerComment_commentLine trimmed span none [])

theorem pragma_readsBack {family : PragmaFamily} {clauses : List String}
    (valid : ∀ text ∈ clauses, Directive.isClause text = true)
    (row : ∀ text ∈ clauses, '\n' ∉ text.toList) :
    (Stmt.pragma family clauses).ReadsBack alphabet width := by
  intro level
  have hash := toList_pragmaText family clauses
  have name : '\n' ∉ family.name.toList := by
    cases family <;> decide
  refine ⟨_, rfl, .note hash ?_ fun span => ⟨rfl, ?_⟩⟩
  · rw [hash]
    simpa [name] using row
  · rw [lowerStmt]
    exact gives_lift (lowerComment_pragmaText family valid span none [])

theorem emptyLine_readsBack : Stmt.emptyLine.ReadsBack alphabet width := by
  refine fun level => ⟨_, rfl, .blank fun start => ⟨rfl, ?_⟩⟩
  rw [blankLine, Tree.leaf, lowerStmt]
  exact gives_pure _

theorem for_readsBack (positive : 0 < width) {target : LoopTarget} {iterable : Expr}
    {body : List Stmt} (assignable : Assignable alphabet target.toExpr)
    (writable : Writable alphabet .value iterable) (ends : EndsInStatement body)
    (each : ∀ s ∈ body, s.ReadsBack alphabet width) :
    (Stmt.forLoop target iterable body).ReadsBack alphabet width := by
  intro level
  obtain ⟨text, left⟩ := assignable.writtenOpen
  obtain ⟨text', right⟩ := writable.written
  obtain ⟨lines, printed, same, makes⟩ := exists_body ends each (level + 1)
  have written := StmtForm.written (.forLoop left.1 right.1 printed)
  rw [same] at written
  refine ⟨_, written, isMade_of_reads rfl (((makes_suite positive (isHeader_for left right)
    makes).compound rfl (by simp)).imp ?_)⟩
  rintro source _ ⟨_, rfl, children, rfl, reads⟩
  exact ⟨_, rfl, reads⟩

theorem while_readsBack (positive : 0 < width) {condition : Expr} {body : List Stmt}
    (writable : Writable alphabet .value condition) (ends : EndsInStatement body)
    (each : ∀ s ∈ body, s.ReadsBack alphabet width) :
    (Stmt.whileLoop condition body).ReadsBack alphabet width := by
  intro level
  obtain ⟨text, tested⟩ := writable.written
  obtain ⟨lines, printed, same, makes⟩ := exists_body ends each (level + 1)
  have written := StmtForm.written (.whileLoop tested.1 printed)
  rw [same] at written
  refine ⟨_, written, isMade_of_reads rfl (((makes_suite positive (isHeader_while tested)
    makes).compound rfl (by simp)).imp ?_)⟩
  rintro source _ ⟨_, rfl, children, rfl, reads⟩
  exact ⟨_, rfl, reads⟩

theorem WritableStmt.readsBack (positive : 0 < width) {s : Stmt}
    (writable : WritableStmt alphabet s) : s.ReadsBack alphabet width := by
  -- By induction on the statement, on every level at once.
  induction writable with
  | assign assignable writable =>
      obtain ⟨text, left⟩ := assignable.writtenOpen
      obtain ⟨text', right⟩ := writable.writtenOpen
      exact readsBack_onLine rfl (.assign left.1 right.1) (onLine_assign left right)
  | augAssign arithmetic assignable notTuple writable =>
      obtain ⟨text, left⟩ := assignable.written
      obtain ⟨text', right⟩ := writable.written
      exact readsBack_onLine rfl (.augAssign left.1 right.1)
        (onLine_augmented arithmetic left right)
  | returnValue writable =>
      obtain ⟨text, written⟩ := writable.writtenOpen
      exact readsBack_onLine rfl (.returnValue written.1) (onLine_return written)
  | print writable =>
      obtain ⟨texts, printed, onLine⟩ := onLine_print writable
      exact readsBack_onLine rfl (.print printed) onLine
  | comment trimmed row => exact comment_readsBack trimmed row
  | pragma valid row => exact pragma_readsBack valid row
  | emptyLine => exact emptyLine_readsBack
  | pass => exact readsBack_onLine rfl .pass onLine_pass
  | imports named => exact readsBack_onLine rfl (.importNames _) (onLine_import named)
  | importsFrom isCallee notFuture named =>
      exact readsBack_onLine rfl (.importNames _) (onLine_importFrom isCallee notFuture
        fun item member => (named item member).1)
  | conditional conditions ends _ lastEnds _ ih ih' =>
      exact conditional_readsBack positive
        (fun branch member => ⟨conditions branch member, ends branch member, ih branch member⟩)
        fun body found => ⟨lastEnds body found, ih' body found⟩
  | forLoop assignable writable ends _ ih => exact for_readsBack positive assignable writable ends ih
  | whileLoop writable ends _ ih => exact while_readsBack positive writable ends ih
  | functionDef textual ends _ ih => exact function_readsBack positive textual ends ih
  | classDef isName textual ends _ ih => exact class_readsBack positive isName textual ends ih
  | expression writable notPrint =>
      obtain ⟨text, written⟩ := writable.written
      exact readsBack_onLine rfl (.expression written.1) (onLine_expression written notPrint)

end Statements

section Modules

variable {lines : List Line} {rows : List FilledRow} {trees : List RawTree} {text : String}

theorem rowsRead_file (whole : text.toList = sheet width lines)
    (hasRows : HasRows alphabet width [] lines rows) :
    RowsRead alphabet (Row.split 0 text.toList) rows := by
  -- The last row of the file is empty.
  have split := split_sheet hasRows.areRows 0 []
  rw [List.append_nil, ← whole] at split
  rw [split]
  have behind := hasRows.reads.append (@RowsRead.blank _ (0 + extent width lines) 0 [] [] .nil)
  rw [List.append_nil] at behind
  exact behind

theorem shows_file (whole : text.toList = sheet width lines) (areRows : AreRows width lines) :
    (Source.ofString text).Shows width [] lines :=
  ⟨[], by rw [List.nil_append, List.append_nil]; exact whole, by simpa using areRows⟩

theorem toTree_file (whole : text.toList = sheet width lines) (areRows : AreRows width lines)
    (some_line : lines ≠ []) {layout : List Tree}
    (lays : Lays (.ofString text) width [] lines trees layout) :
    ((moduleNode text trees).toTree (.ofString text)).kind = .root ∧
      ((moduleNode text trees).toTree (.ofString text)).children = layout := by
  have textRows := @Source.textRows_eq (.ofString text) width lines whole areRows some_line
  have laid := @Lays.withBlankLines_eq _ _ _ _ _ _ lays (shows_file whole areRows)
    (some lines.length) (.inl rfl) none
  refine ⟨rfl, ?_⟩
  rw [← laid, ← textRows]
  rfl

theorem ofTree_of_runs {tree : Tree} {body : List Stmt} (root : tree.kind = .root)
    (runs : Runs body tree.children) :
    ∃ imports, LoweredModule.ofTree Directive.frontEnd tree = .ok ⟨body, imports⟩ := by
  obtain ⟨entered, enters⟩ := runs
  have outcome : (lowerRoot Directive.frontEnd tree).run .empty =
      (.ok body, Table.empty.insertAll entered) := by
    rw [lowerRoot, if_pos root]
    exact enters .empty
  exact ⟨_, by rw [LoweredModule.ofTree, outcome]⟩

/-- Printing and reading are inverse for modules. -/
theorem printed_module_reads_back (settings : Settings) (positive : 0 < settings.indentWidth)
    {body : List Stmt} (some_statement : body ≠ []) (writable : ∀ s ∈ body, WritableStmt alphabet s) :
    ∃ text tree, Node.print settings (.block body) = .ok text ∧
      ParsesModule alphabet text tree ∧ (∀ other, ParsesModule alphabet text other → other = tree) ∧
      (Text.byteSize text.toList < UInt32.size → ∃ imports,
        LoweredModule.ofTree Directive.frontEnd (tree.toTree (.ofString text)) =
          .ok ⟨body, imports⟩) := by
  obtain ⟨chunks, printed, rfl, all⟩ := exists_chunks
    (fun s member => (writable s member).readsBack positive) 0
  obtain ⟨rows, trees, levelAt, _⟩ :=
    exists_levelAt (fun chunk member => (all chunk member).1) []
  have some_line : chunks.flatMap Chunk.lines ≠ [] := by
    cases chunks with
    | nil => exact absurd rfl some_statement
    | cons chunk chunks => simp [(all chunk (.head _)).1.lines_ne_nil]
  have whole := @toList_renderAll settings.indentWidth _ some_line
  generalize same : renderAll settings.indentWidth (chunks.flatMap Chunk.lines) ++ "\n" = text at whole
  have ends : Ends (0 * settings.indentWidth) [] := by simp [Ends, behindComments]
  have builds := (levelAt.builds [] [] [] (leaves_nil _) (.done ends)).2
  rw [List.append_nil, List.append_nil, Nat.zero_mul] at builds
  have parses : ParsesModule alphabet text (moduleNode text trees) :=
    ⟨rows, trees, rowsRead_file whole levelAt.hasRows, builds, rfl⟩
  refine ⟨text, _, ?_, parses, fun other parses' => parses.unique parses', fun small => ?_⟩
  · rw [← same, Node.print, printed]
    rfl
  · obtain ⟨layout, lays, means⟩ :=
      levelAt.lays _ (shows_file whole levelAt.hasRows.areRows) small
    obtain ⟨root, children⟩ := toTree_file whole levelAt.hasRows.areRows some_line lays
    refine ofTree_of_runs root ?_
    rw [children]
    exact runs_of_means means

def decoratedLoop : List Stmt :=
  [.pragma .omp ["f(a, b)"], .functionDef { FunctionDef.plain "f" [.valued ⟨"n", none⟩ (.integer 2)]
    [.emptyLine, .comment "sums",
      .forLoop (.symbol (.plain "i")) (.symbol (.plain "n"))
        [.conditional ⟨.symbol (.plain "i"), [.expression (.symbol (.plain "n"))]⟩ [] (some [.pass])],
      .returnValue (.tuple [.symbol (.plain "n"), .symbol (.plain "i")])] with
    decorators := .ofList [("g", [])] }]

theorem decoratedLoop_reads_back :
    ∃ text tree imports,
      Node.print {} (.block decoratedLoop) = .ok text ∧ ParsesModule .ascii text tree ∧
      (∀ other, ParsesModule .ascii text other → other = tree) ∧
      LoweredModule.ofTree Directive.frontEnd (tree.toTree (.ofString text)) =
        .ok ⟨decoratedLoop, imports⟩ := by
  have isName : ∀ name ∈ ["f", "g", "i", "n"], IsName .ascii name := by
    simp only [List.mem_cons, List.not_mem_nil, or_false]
    rintro _ (rfl | rfl | rfl | rfl)
    · exact @IsWord.name .ascii 'f' [] rfl (by rintro _ ⟨⟩)
    · exact @IsWord.name .ascii 'g' [] rfl (by rintro _ ⟨⟩)
    · exact @IsWord.name .ascii 'i' [] rfl (by rintro _ ⟨⟩)
    · exact @IsWord.name .ascii 'n' [] rfl (by rintro _ ⟨⟩)
  have symbol (name : String) (member : name ∈ ["f", "g", "i", "n"]) :
      Writable .ascii .value (.symbol (.plain name)) := .symbol (isName name member)
  have condition : WritableStmt .ascii (.conditional
      ⟨.symbol (.plain "i"), [.expression (.symbol (.plain "n"))]⟩ [] (some [.pass])) := by
    refine .conditional ?_ ?_ ?_ ?_ ?_
    · simpa using symbol "i" (by decide)
    · simpa using ⟨_, rfl, rfl⟩
    · simpa using WritableStmt.expression (symbol "n" (by decide)) (by simp)
    · rintro _ ⟨⟩
      exact ⟨_, rfl, rfl⟩
    · rintro _ ⟨⟩
      simpa using WritableStmt.pass
  have loop : WritableStmt .ascii (.forLoop (.symbol (.plain "i")) (.symbol (.plain "n"))
      [.conditional ⟨.symbol (.plain "i"), [.expression (.symbol (.plain "n"))]⟩ [] (some [.pass])]) :=
    .forLoop (.symbol (isName "i" (by decide))) (symbol "n" (by decide)) ⟨_, rfl, rfl⟩
      (by simpa using condition)
  have writable : ∀ s ∈ decoratedLoop, WritableStmt .ascii s := by
    simp only [decoratedLoop, List.mem_cons, List.not_mem_nil, or_false]
    rintro s (rfl | rfl)
    · exact .pragma (by decide) (by decide)
    · refine .functionDef ⟨isName "f" (by decide), ?_, ?_, rfl⟩ ⟨_, rfl, rfl⟩ ?_
      · intro parameter member
        rw [List.mem_singleton.1 member]
        exact ⟨rfl, isName "n" (by decide), .integer 2⟩
      · intro decorator member
        rw [List.mem_singleton.1 member]
        exact ⟨⟨.symbol (.plain "g"), ⟨rfl, isName "g" (by decide)⟩, rfl⟩, by simp⟩
      · simp only [FunctionDef.plain, List.mem_cons, List.not_mem_nil, or_false]
        rintro s (rfl | rfl | rfl | rfl)
        · exact .emptyLine
        · exact .comment (by decide) (by decide)
        · exact loop
        · refine .returnValue (.tuple ?_)
          simpa using ⟨symbol "n" (by decide), symbol "i" (by decide)⟩
  obtain ⟨text, tree, printed, parses, unique, lowers⟩ :=
    @printed_module_reads_back .ascii {} (by decide) decoratedLoop (List.cons_ne_nil _ _) writable
  have same : Node.print {} (.block decoratedLoop) = .ok
      ("#$ omp f(a, b)\n@g\ndef f(n=2):\n\n    # sums\n    for i in n:\n        if i:\n" ++
        "            n\n        else:\n            pass\n    return n, i\n") := by
    decide +kernel
  rw [same] at printed
  cases printed
  obtain ⟨imports, lowered⟩ := lowers (by decide +kernel)
  exact ⟨_, tree, imports, same, parses, unique, lowered⟩

/-- A clause whose parentheses hold a line feed is balanced, but the comment ends at the line feed. -/
theorem broken_pragma_unread :
    Directive.isClause "f(\n#)" = true ∧ ∃ text tree,
      Node.print {} (.block [.pragma .omp ["f(\n#)"]]) = .ok text ∧
      ParsesModule .ascii text tree ∧ (∀ other, ParsesModule .ascii text other → other = tree) ∧
      LoweredModule.ofTree Directive.frontEnd (tree.toTree (.ofString text)) =
        .error (.directive (.directive "#$ omp f(" "unbalanced parentheses") (.ofRange 0 9)) := by
  have rows : Row.split 0 "#$ omp f(\n#)\n".toList =
      [⟨0, "#$ omp f(".toList⟩, ⟨10, "#)".toList⟩, ⟨13, []⟩] := by decide +kernel
  have ends : Ends 0 [] := by simp [Ends, behindComments]
  have parses : ParsesModule .ascii "#$ omp f(\n#)\n"
      (moduleNode "#$ omp f(\n#)\n" [commentNode 0 9, commentNode 10 12]) := by
    refine ⟨[⟨0, .comment 0 9⟩, ⟨0, .comment 10 12⟩], _, ?_,
      .comment rfl ?_ (.comment rfl ?_ (.done ends)), rfl⟩
    · rw [rows]
      exact .filled (@RowReads.comment _ 0 0 "$ omp f(".toList)
        (.filled (@RowReads.comment _ 10 0 ")".toList) (@RowsRead.blank _ 13 0 _ _ .nil))
    · exact fun ends => Nat.not_lt_zero _ (ends.1 _ rfl)
    · exact fun ends => Nat.not_lt_zero _ (ends.1 _ rfl)
  exact ⟨by decide, _, _, by decide +kernel, parses, fun other parses' => parses.unique parses', rfl⟩

end Modules

end NumericPython

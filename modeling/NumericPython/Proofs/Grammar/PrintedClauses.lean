import NumericPython.Proofs.Grammar.PrintedBodies

set_option autoImplicit false

namespace NumericPython

namespace Grammar

open Line RawTree Layout Lowering

variable {alphabet : Alphabet} {width level : Nat} {lines lines' : List Line} {text : String}
  {clause : Clause} {inside : List Tree → Prop} {result : Source → List RawTree → Prop}

section Suites

def ReadsHeader (clause : Clause) (inside : List Tree → Prop)
    (result : Source → List RawTree → Prop) (source : Source) (header : RawTree) : Prop :=
  ∀ row comments trees, (∀ colon ∈ header.children.getLast?, source.rowAt colon.stop = row) →
    ReadsBody source row comments trees inside →
    result source (header.children ++
      (comments ++ [(node "block" trees).inField clause.bodyField]))

/-- The text of a header. Its nodes are put under a node that does not count. -/
def IsHeader (alphabet : Alphabet) (clause : Clause) (inside : List Tree → Prop)
    (result : Source → List RawTree → Prop) (text : String) : Prop :=
  Worded alphabet isEnd (fun tokens tree => Header clause tokens tree.children)
    (ReadsHeader clause inside result) text.toList

theorem Header.colon {tokens : List Token} {header : List RawTree}
    (begins : Header clause tokens header) :
    ∃ colon ∈ tokens, header.getLast? = some colon.leaf := by
  cases begins <;> exact ⟨_, by simp, rfl⟩

theorem Lexes.rowAt_eq {before : List Line} {tokens : List Token} {source : Source}
    (lexes : Lexes alphabet (extent width before + level * width) text.toList tokens)
    (shows : source.Shows width before (.text level text :: lines)) {token : Token}
    (member : token ∈ tokens) : source.rowAt token.stop = before.length := by
  have bounds := lexes.bounds token member
  refine shows.rowAt_eq (by omega) ?_
  rw [chars_text, Text.byteSize_append, byteSize_spaces]
  omega

theorem makes_suite (positive : 0 < width) (header : IsHeader alphabet clause inside result text)
    (body : MakesBody alphabet width (level + 1) lines inside) :
    Makes alphabet width level (.clause clause) (.text level text :: lines) result := by
  intro before
  obtain ⟨tokens, tree, head, segment, begins, read⟩ := header (extent width before + level * width)
  obtain ⟨rows, comments, trees, body⟩ := body (before ++ [.text level text])
  have lexes := segment.lexesAt
  obtain ⟨first, others, children, spans⟩ := begins.spans
  obtain ⟨colon, member, last⟩ := begins.colon
  -- The lines of the body are indented by more than the line of the header.
  have deeper : level * width + 1 ≤ (level + 1) * width := by
    rw [Nat.add_one_mul]
    omega
  refine ⟨⟨level * width, .words tokens⟩ :: rows, tree.children ++ (comments ++
    [(Grammar.node "block" trees).inField clause.bodyField]), ⟨⟨?_, ?_, ?_, ?_⟩, ?_, ?_, ?_⟩⟩
  · exact (hasRows_words lexes head).append body.hasRows
  · simp
  · rw [children]
    rintro _ ⟨⟩
    obtain ⟨token, inside, start⟩ := spans.starts
    rw [start]
    exact (lexes.startsIn inside).append lines
  · intro block found
    rw [← List.append_assoc, List.getLast?_concat] at found
    cases found
    have behind := body.stops _ (List.getLast?_eq_some_getLast body.some_tree)
    have stop : ((Grammar.node "block" trees).inField clause.bodyField).stop =
        (trees.getLast body.some_tree).stop := by
      simp [Grammar.node, RawTree.inField, List.getLast?_eq_some_getLast body.some_tree]
    rw [stop]
    exact @StopsIn.append _ _ _ [.text level text] _ behind
  · intro rest leaves
    have builds := Builds.suite begins deeper (body.first rest)
      (body.builds rest (leaves.mono deeper))
    rwa [body.front] at builds
  · exact fun rest _ => ends_words _ _ _
  · intro source shows small
    refine read source (lexes.holds_line shows) before.length comments trees ?_
      (body.reads source before.length shows.next small (by simp))
    rw [last]
    rintro _ ⟨⟩
    exact lexes.rowAt_eq shows member

end Suites

section Conditionals

variable {meaning meaning' : Source → List RawTree → Prop}

theorem makes_conditional
    (first : Makes alphabet width level (.clause .conditional) lines meaning)
    (others : Makes alphabet width level .alternatives lines' meaning') (some_line : lines ≠ []) :
    Makes alphabet width level .statement (lines ++ lines') (single fun source tree =>
      ∃ children trees, tree = node "if_statement" (children ++ trees) ∧
        meaning source children ∧ meaning' source trees) := by
  intro before
  obtain ⟨rows, children, made⟩ := first before
  obtain ⟨rows', trees, made'⟩ := others (before ++ lines)
  have stands := made.toStands.append made'.toStands some_line
  refine ⟨_, _, stands.node (by simp [some_line]) "if_statement" none, fun rest leaves => ?_,
    fun rest ends => ?_, fun source shows small => ⟨_, rfl, children, trees, rfl,
      made.means source shows.left small, made'.means source shows.right small⟩⟩
  · rw [List.append_assoc]
    exact .conditional (made.builds _ (made'.levels rest leaves.1)) (made'.builds rest leaves)
  · rw [List.append_assoc]
    exact made.levels _ (made'.levels rest ends)

theorem makes_noAlternative :
    Makes alphabet width level .alternatives [] fun _ trees => trees = [] :=
  fun _ => ⟨[], [], stands_nil, fun _ leaves => .finished leaves.2, fun _ ends => ends,
    fun _ _ _ => rfl⟩

theorem makes_elif (first : Makes alphabet width level (.clause .alternative) lines meaning)
    (others : Makes alphabet width level .alternatives lines' meaning') (some_line : lines ≠ []) :
    Makes alphabet width level .alternatives (lines ++ lines') fun source trees =>
      ∃ children others, trees = (node "elif_clause" children).inField "alternative" :: others ∧
        meaning source children ∧ meaning' source others := by
  intro before
  obtain ⟨rows, children, made⟩ := first before
  obtain ⟨rows', trees, made'⟩ := others (before ++ lines)
  have stands := (made.toStands.node some_line "elif_clause" (some "alternative")).append
    made'.toStands some_line
  refine ⟨_, _, stands, fun rest leaves => ?_, fun rest ends => ?_, fun source shows small =>
    ⟨children, trees, rfl, made.means source shows.left small,
      made'.means source shows.right small⟩⟩
  · have branch := made.builds _ (made'.levels rest leaves.1)
    have opens := branch.clause_opens
    have builds := @Builds.alternative _ _ _ _ _ _ (opens.behindComments.symm ▸ branch)
      (made'.builds rest leaves)
    rw [opens.frontComments] at builds
    rwa [List.append_assoc]
  · rw [List.append_assoc]
    exact made.levels _ (made'.levels rest ends)

theorem makes_else (last : Makes alphabet width level (.clause .otherwise) lines meaning)
    (some_line : lines ≠ []) :
    Makes alphabet width level .alternatives lines (single fun source tree => ∃ children,
      tree = (node "else_clause" children).inField "alternative" ∧ meaning source children) := by
  refine @Makes.node _ _ _ _ _ _ _ "else_clause" (some "alternative") last some_line
    fun rows trees rest leaves builds => ?_
  have branch := builds leaves.1
  have opens := branch.clause_opens
  have built := @Builds.otherwise _ _ _ _ (opens.behindComments.symm ▸ branch)
  rwa [opens.frontComments] at built

end Conditionals

section Decorators

inductive DecoratorWords : List Token → RawTree → Prop
  | decorator {sign : Token} {value : Part} (marks : sign.isMark "@" = true)
      (derives : Derives (.at .or) value.tokens value.tree) :
      DecoratorWords (sign :: value.tokens) (decoratorNode sign value.tree)

theorem DecoratorWords.spans {tokens : List Token} {tree : RawTree}
    (words : DecoratorWords tokens tree) : Spans tokens tree := by
  cases words with
  | decorator _ derives => exact spans_between [] (spans_leaf (.head _)) (derives.spans.mono (by simp))

theorem DecoratorWords.builds {indent : Nat} {tokens : List Token} {tree : RawTree}
    (words : DecoratorWords tokens tree) {rows rest : List FilledRow} {trees : List RawTree}
    (inner : Builds .decorated indent rows trees rest) :
    Builds .decorated indent (⟨indent, .words tokens⟩ :: rows) (tree :: trees) rest ∧
      Builds .statement indent (⟨indent, .words tokens⟩ :: rows)
        [node "decorated_definition" (tree :: trees)] rest := by
  cases words with
  | decorator marks derives => exact ⟨.decorator marks derives inner, .decorated marks derives inner⟩

variable {reads : Source → RawTree → Prop} {meaning : Source → List RawTree → Prop}

theorem exists_decorator (worded : Worded alphabet isEnd DecoratorWords reads text.toList)
    (inner : Makes alphabet width level .decorated lines meaning) (before : List Line) :
    ∃ tokens tree rows trees, DecoratorWords tokens tree ∧
      Stands alphabet width before (.text level text :: lines)
        (⟨level * width, .words tokens⟩ :: rows) (tree :: trees) ∧
      (∀ rest, Form.decorated.Leaves (level * width) rest →
        Builds .decorated (level * width) (rows ++ rest) trees rest) ∧
      ∀ source, source.Shows width before (.text level text :: lines) →
        Text.byteSize source.chars < UInt32.size → reads source tree ∧ meaning source trees := by
  obtain ⟨tokens, tree, head, segment, words, read⟩ :=
    worded (extent width before + level * width)
  obtain ⟨rows, trees, made⟩ := inner (before ++ [.text level text])
  have lexes := segment.lexesAt
  exact ⟨tokens, tree, rows, trees, words,
    (stands_words lexes head words.spans).append made.toStands (by simp), made.builds,
    fun source shows small => ⟨read source (lexes.holds_line shows),
      made.means source shows.next small⟩⟩

theorem makes_decorator (worded : Worded alphabet isEnd DecoratorWords reads text.toList)
    (inner : Makes alphabet width level .decorated lines meaning) :
    Makes alphabet width level .decorated (.text level text :: lines) fun source trees =>
      ∃ tree others, trees = tree :: others ∧ reads source tree ∧ meaning source others := by
  intro before
  obtain ⟨tokens, tree, rows, trees, words, stands, builds, means⟩ :=
    exists_decorator worded inner before
  exact ⟨_, _, stands, fun rest leaves => (words.builds (builds rest leaves)).1,
    fun rest _ => ends_words _ _ _,
    fun source shows small => ⟨tree, trees, rfl, means source shows small⟩⟩

theorem makes_decorated (worded : Worded alphabet isEnd DecoratorWords reads text.toList)
    (inner : Makes alphabet width level .decorated lines meaning) :
    Makes alphabet width level .statement (.text level text :: lines) (single fun source tree =>
      ∃ first others, tree = node "decorated_definition" (first :: others) ∧
        reads source first ∧ meaning source others) := by
  intro before
  obtain ⟨tokens, tree, rows, trees, words, stands, builds, means⟩ :=
    exists_decorator worded inner before
  exact ⟨_, _, stands.node (by simp) "decorated_definition" none,
    fun rest leaves => (words.builds (builds rest leaves)).2, fun rest _ => ends_words _ _ _,
    fun source shows small => ⟨_, rfl, tree, trees, rfl, means source shows small⟩⟩

end Decorators

end Grammar

end NumericPython

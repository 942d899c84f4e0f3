import NumericPython.Proofs.Grammar.PrintedClauses
import NumericPython.Proofs.RoundTrip.Lines

set_option autoImplicit false

namespace NumericPython

open Grammar Lowering Printing RawTree

variable {alphabet : Alphabet}

section Colons

variable {rule : List Token → RawTree → Prop} {reads : Source → RawTree → Prop} {text : List Char}

inductive Closed (field : String) (rule : List Token → RawTree → Prop) :
    List Token → RawTree → Prop
  | closed {part : Part} {colon : Token} (derived : rule part.tokens part.tree)
      (ends : colon.isMark ":" = true) :
      Closed field rule (part.tokens ++ [colon])
        (node "" [part.tree.inField field, colon.leaf])

inductive ReadsClosed (field : String) (reads : Source → RawTree → Prop) (source : Source) :
    RawTree → Prop
  | closed {tree : RawTree} {colon : Token} (here : reads source tree)
      (ends : colon.isMark ":" = true) (holds : colon.Holds source) :
      ReadsClosed field reads source (node "" [tree.inField field, colon.leaf])

theorem Grammar.Worded.closed (worded : Worded alphabet isEnd rule reads text) (field : String) :
    Worded alphabet isEnd (Closed field rule) (ReadsClosed field reads) (text ++ [':']) := by
  intro start
  obtain ⟨tokens, tree, head, segment, derived, read⟩ := worded start
  refine ⟨_, _, opens_append head _,
    segment.close ':' (by decide) (by decide), @Closed.closed _ _ ⟨tokens, tree⟩ _ derived rfl,
    fun source holds => ?_⟩
  exact .closed (read source fun token member => holds token (List.mem_append_left _ member)) rfl
    (holds _ (by simp))

theorem readsHeader_of {clause : Clause} {inside : List Tree → Prop}
    {result : Source → List RawTree → Prop} {source : Source} {header : List RawTree}
    {colon : Token} (last : header.getLast? = some colon.leaf)
    (read : ∀ comments trees, ReadsBody source (source.rowAt colon.leaf.stop) comments trees inside →
      result source (header ++ (comments ++ [(node "block" trees).inField clause.bodyField]))) :
    ReadsHeader clause inside result source (node "" header) := by
  intro row comments trees place body
  obtain rfl := place colon.leaf last
  exact read comments trees body

end Colons

section Conditions

variable {inside : List Tree → Prop} {result : Source → List RawTree → Prop} {clause : Clause}

theorem isHeader_condition {e : Expr} {text : String}
    (written : WrittenAs alphabet (Derives (.at .or)) e text)
    (hasCondition : clause.hasCondition = true)
    (read : ∀ (source : Source) (keyword colon : Token) (value : RawTree) comments trees,
      keyword.isMark clause.keyword = true → Reads source value e → colon.isMark ":" = true →
      ReadsBody source (source.rowAt colon.leaf.stop) comments trees inside →
      result source (conditionHeader keyword value colon ++
        (comments ++ [(node "block" trees).inField clause.bodyField]))) :
    IsHeader alphabet clause inside result (clause.keyword ++ " " ++ text ++ ":") := by
  have whole : (clause.keyword ++ " " ++ text ++ ":").toList =
      clause.keyword.toList ++ ([' '] ++ (text.toList ++ [':'])) := by
    simp
  have known : clause.keyword.toList ∈ keywords := by
    cases clause <;> decide
  rw [IsHeader, whole]
  refine (written.2.closed "condition").behind known
    (fun keyword tree => node "" (keyword.leaf :: tree.children)) ?_ ?_
  · rintro keyword _ _ begins ⟨derives, ends⟩
    exact .condition hasCondition begins derives ends
  · rintro source keyword _ begins _ ⟨here, ends, _⟩
    exact readsHeader_of rfl fun comments trees body =>
      read source keyword _ _ comments trees begins here ends body

theorem isHeader_while {e : Expr} {text : String} {body : List Stmt}
    (written : WrittenAs alphabet (Derives (.at .or)) e text) :
    IsHeader alphabet .whileLoop (Runs body)
      (fun source children => ReadsStmt source (node "while_statement" children) (.whileLoop e body))
      ("while " ++ text ++ ":") :=
  @isHeader_condition _ _ _ .whileLoop _ _ written rfl
    fun _ _ _ _ _ _ begins here ends body => readsStmt_while begins here ends body

theorem isHeader_elif {e : Expr} {text : String} {body : List Stmt}
    (written : WrittenAs alphabet (Derives (.at .or)) e text) :
    IsHeader alphabet .alternative (Runs body)
      (fun source children => ReadsAlternative source
        ((node "elif_clause" children).inField "alternative") (some e, body))
      ("elif " ++ text ++ ":") :=
  @isHeader_condition _ _ _ .alternative _ _ written rfl
    fun _ _ _ _ _ _ begins here ends body => readsAlternative_elif begins here ends body

theorem isHeader_if {e : Expr} {text : String} {body : List Stmt} {rest : List Branch}
    {otherwise : Option (List Stmt)} (written : WrittenAs alphabet (Derives (.at .or)) e text) :
    IsHeader alphabet .conditional (Runs body)
      (fun source children => ∀ others,
        List.Forall₂ (ReadsAlternative source) others (furtherBranches rest otherwise) →
        ReadsStmt source (node "if_statement" (children ++ others))
          (.conditional ⟨e, body⟩ rest otherwise))
      ("if " ++ text ++ ":") := by
  refine @isHeader_condition _ _ _ .conditional _ _ written rfl
    fun source keyword colon value comments trees begins here ends body others further => ?_
  rw [List.append_assoc, List.append_assoc]
  exact readsStmt_if begins here ends body further

theorem isHeader_else {body : List Stmt} :
    IsHeader alphabet .otherwise (Runs body)
      (fun source children => ReadsAlternative source
        ((node "else_clause" children).inField "alternative") (none, body)) "else:" := by
  intro start
  refine ⟨_, node "" [Token.leaf ⟨.mark, "else".toList, start⟩, Token.leaf _],
    ⟨'e', "lse:".toList, rfl, rfl⟩,
    (@segment_keyword alphabet start "else".toList (by decide)).close ':' (by decide) (by decide),
    .otherwise rfl rfl, fun source holds => ?_⟩
  exact readsHeader_of rfl fun comments trees body => readsAlternative_else rfl rfl body

end Conditions

section Loops

theorem isHeader_for {loop : LoopTarget} {e : Expr} {text text' : String} {body : List Stmt}
    (left : WrittenOpen alphabet TargetValues loop.toExpr text)
    (right : WrittenAs alphabet (Derives (.at .or)) e text') :
    IsHeader alphabet .forLoop (Runs body)
      (fun source children => ReadsStmt source (node "for_statement" children)
        (.forLoop loop e body)) ("for " ++ text ++ " in " ++ text' ++ ":") := by
  have whole : ("for " ++ text ++ " in " ++ text' ++ ":").toList = "for".toList ++
      ([' '] ++ (text.toList ++ ([' '] ++ ("in".toList ++ ([' '] ++ (text'.toList ++ [':'])))))) := by
    simp
  have isEnd_space (c : Char) (space : (c == ' ') = true) : isEnd c = true := by
    rw [beq_iff_eq] at space
    rw [space]
    rfl
  have loopParts : Worded alphabet isEnd
      (fun tokens tree => ∀ keyword : Token, keyword.isMark "for" = true →
        Header .forLoop (keyword :: tokens) (keyword.leaf :: tree.children))
      (fun source tree => ∀ keyword : Token, keyword.isMark "for" = true → keyword.Holds source →
        ReadsHeader .forLoop (Runs body) (fun source children => ReadsStmt source
          (node "for_statement" children) (.forLoop loop e body)) source
          (node "" (keyword.leaf :: tree.children)))
      (text.toList ++ ([' '] ++ ("in".toList ++ ([' '] ++ (text'.toList ++ [':']))))) := by
    refine left.2.around (fun start => (segment_keyword (by decide)).imp isEnd_space) (by decide)
      ((worded_value right.2).closed "right")
      (fun target within closed => node ""
        (target.toPattern.inField "left" :: within.leaf :: closed.children)) ?_ ?_
    · rintro tokens tree within _ _ target separates ⟨values, ends⟩ keyword begins
      exact @Header.loop _ _ _ ⟨tokens, tree⟩ _ begins target.1 target.2 separates values ends
    · rintro source target within _ readsTarget separates holds ⟨here, ends, holds'⟩ keyword begins
        holds''
      refine @readsHeader_of _ _ _ _ [keyword.leaf, target.toPattern.inField "left", within.leaf, _, _]
        _ rfl fun comments trees body =>
          readsStmt_for begins readsTarget separates here ends ?_ body
      simp [holds, holds', holds'']
  rw [IsHeader, whole]
  exact loopParts.behind (by decide) (fun keyword tree => node "" (keyword.leaf :: tree.children))
    (fun keyword tokens tree begins rule => rule keyword begins)
    fun source keyword tree begins holds reads => reads keyword begins holds

end Loops

section Definitions

def Parameter.IsWritable (alphabet : Alphabet) : Parameter → Prop
  | .plain argument => argument.info = none ∧ IsName alphabet argument.name
  | .valued argument default =>
    argument.info = none ∧ IsName alphabet argument.name ∧ Writable alphabet .value default

theorem Parameter.IsWritable.written {parameter : Parameter}
    (writable : parameter.IsWritable alphabet) :
    ∃ text, parameterText parameter = .ok text ∧ Worded alphabet isEnd ParameterItem
      (fun source tree => ReadsParameter source tree parameter) text.toList := by
  cases parameter with
  | plain argument =>
      obtain ⟨name, info⟩ := argument
      obtain ⟨rfl, isName⟩ := writable
      exact ⟨name, rfl, worded_plain isName⟩
  | valued argument default =>
      obtain ⟨name, info⟩ := argument
      obtain ⟨rfl, isName, writable⟩ := writable
      obtain ⟨text, printed, worded⟩ := writable.written
      exact ⟨name ++ "=" ++ text, by rw [parameterText, printed]; rfl, worded_valued isName worded⟩

inductive ParameterWords : List Token → RawTree → Prop
  | list {opening closing : Token} {items : Option (Chain Part)} (opens : opening.isMark "(" = true)
      (series : ∀ chain ∈ items, chain.IsSeries "," ParameterItem)
      (closes : closing.isMark ")" = true) :
      ParameterWords (opening :: (itemTokens items ++ [closing]))
        (bracketedNode "parameters" opening (itemNodes (items.map (·.map Part.tree))) closing)

theorem worded_parameters {arguments : List Parameter} {texts : List String}
    (worded : List.Forall₂ (fun parameter text => Worded alphabet isEnd ParameterItem
      (fun source tree => ReadsParameter source tree parameter) (String.toList text))
      arguments texts) :
    Worded alphabet isEnd ParameterWords (fun source tree => ReadsParameters source tree arguments)
      ("(" ++ commaSeparated texts ++ ")").toList := by
  intro start
  rw [toList_parentheses]
  cases worded with
  | nil =>
      -- Nothing stands between the parentheses.
      have closing := @segment_mark alphabet (start + Text.byteSize "(".toList) [')'] (by decide)
      refine ⟨_, _, ⟨'(', _, rfl, rfl⟩, segment_open _ (by decide) ?_ (closing.imp ?_),
        @ParameterWords.list _ _ none rfl (by rintro _ ⟨⟩) rfl, fun source holds => ?_⟩
      · rintro d ⟨⟩
        rfl
      · intro d ends
        simp [isMarkTail_of_isEnd ends]
      · exact @readsParameters_node source _ _ rfl rfl none (by rintro _ ⟨⟩) (by rintro _ ⟨⟩)
  | @cons parameter first arguments texts here later =>
      obtain ⟨chain, sequence⟩ := exists_commaSequence (.cons here later)
        (start + Text.byteSize "(".toList)
      refine ⟨_, _, ⟨'(', _, rfl, rfl⟩,
        sequence.segment.between sequence.head (by decide) (by decide) (by decide),
        @ParameterWords.list _ _ (some (chain.map Prod.fst)) rfl
          (by rintro _ ⟨⟩; exact sequence.series) rfl, fun source holds => ?_⟩
      obtain ⟨separates, reads, values⟩ := @Sequence.pairs _ _ _ _ _ _ _ _ _ _ sequence source
        fun token member => holds token (.tail _ (List.mem_append_left _ member))
      have parameters := @readsParameters_node source ⟨.mark, "(".toList, start⟩ ⟨.mark, [')'],
        start + Text.byteSize "(".toList + Text.byteSize (commaSeparated (first :: texts)).toList⟩
        rfl rfl (some (readings chain)) (by rintro _ ⟨⟩; exact separates) (by rintro _ ⟨⟩; exact reads)
      rw [Option.map_some, trees_readings] at parameters
      simpa [values] using parameters

theorem worded_name {name : String} (isName : IsName alphabet name) :
    Worded alphabet isEnd NameItem (fun source tree => ReadsName source name tree) name.toList := by
  intro start
  obtain ⟨tokens, tree, head, segment, item, reads⟩ := worded_namePart isName start
  exact ⟨tokens, tree, head, segment.imp fun c ends => by simp [ends], item, reads⟩

theorem isHeader_class {name : String} {methods : List FunctionDef}
    (isName : IsName alphabet name) :
    IsHeader alphabet .classBody (HoldsMethods name methods)
      (fun source children => ReadsStmt source (node "class_definition" children)
        (.ofMethods name methods)) ("class " ++ name ++ ":") := by
  have whole : ("class " ++ name ++ ":").toList =
      "class".toList ++ ([' '] ++ (name.toList ++ [':'])) := by
    simp
  rw [IsHeader, whole]
  refine ((worded_name isName).closed "name").behind (by decide)
    (fun keyword tree => node "" (keyword.leaf :: tree.children)) ?_ ?_
  · rintro keyword _ _ begins @⟨part, colon, item, ends⟩
    generalize part.tokens = tokens at item ⊢
    generalize part.tree = tree at item ⊢
    cases item with
    | name isName => exact .classBody begins isName ends
  · rintro source keyword _ begins _ ⟨here, ends, _⟩
    exact readsHeader_of rfl fun comments trees body => readsStmt_class begins here ends body

theorem worded_afterName {rule rule' : List Token → RawTree → Prop}
    {reads reads' : Source → RawTree → Prop} {name : String} {text : List Char}
    (isName : IsName alphabet name) (worded : Worded alphabet isEnd rule reads text)
    (opens : ∀ c ∈ text.head?, isEnd c = true) (f : Token → RawTree → RawTree)
    (rules : ∀ token tokens tree, token.kind = .name → rule tokens tree →
      rule' (token :: tokens) (f token tree))
    (readings : ∀ source (token : Token) tree, ReadsName source name token.leaf → reads source tree →
      reads' source (f token tree)) :
    Worded alphabet isEnd rule' reads' (name.toList ++ text) := by
  intro start
  obtain ⟨tokens, tree, ⟨c, cs, same, _⟩, segment, derived, read⟩ :=
    worded (start + Text.byteSize name.toList)
  obtain ⟨d, ds, spelling, leads⟩ := opensWord_of_word isName (by decide)
  refine ⟨_, _, ⟨d, _, by rw [spelling]; rfl, leads⟩, ((segment_name isName).append segment
    ⟨c, cs, same, ?_⟩), rules _ _ _ rfl derived, fun source holds => readings _ _ _ ?_
      (read source fun token member => holds token (.tail _ member))⟩
  · rw [opens c (by rw [same]; rfl)]
    rfl
  · have reads := @readsName_leaf source ⟨.name, name.toList, start⟩ rfl (holds _ (.head _))
    rwa [String.ofList_toList] at reads

theorem isHeader_function {name : String} {arguments : List Parameter} {texts : List String}
    {body : List Stmt} (isName : IsName alphabet name)
    (worded : List.Forall₂ (fun parameter text => Worded alphabet isEnd ParameterItem
      (fun source tree => ReadsParameter source tree parameter) (String.toList text))
      arguments texts) :
    IsHeader alphabet .function (Runs body)
      (fun source children => ReadsPlain source (node "function_definition" children)
        (.plain name arguments body)) ("def " ++ callText name texts ++ ":") := by
  have whole : ("def " ++ callText name texts ++ ":").toList = "def".toList ++ ([' '] ++
      (name.toList ++ (("(" ++ commaSeparated texts ++ ")").toList ++ [':']))) := by
    simp [callText]
  have parts : Worded alphabet isEnd
      (fun tokens tree => ∀ keyword : Token, keyword.isMark "def" = true →
        Header .function (keyword :: tokens) (keyword.leaf :: tree.children))
      (fun source tree => ∀ keyword : Token, keyword.isMark "def" = true → keyword.Holds source →
        ReadsHeader .function (Runs body) (fun source children => ReadsPlain source
          (node "function_definition" children) (.plain name arguments body)) source
          (node "" (keyword.leaf :: tree.children)))
      (name.toList ++ (("(" ++ commaSeparated texts ++ ")").toList ++ [':'])) := by
    refine worded_afterName isName ((worded_parameters worded).closed "parameters") ?_
      (fun name closed => node "" (name.leaf.inField "name" :: closed.children)) ?_ ?_
    · rw [toList_parentheses]
      rintro c ⟨⟩
      rfl
    · rintro name _ _ isName @⟨part, colon, parameters, ends⟩ keyword begins
      generalize part.tokens = tokens at parameters ⊢
      generalize part.tree = tree at parameters ⊢
      cases parameters with
      | @list opening closing items opens series closes =>
          have header := Header.function begins isName opens series closes ends
          simpa [node] using header
    · rintro source name _ readsName ⟨reads, ends, holds⟩ keyword begins holds'
      exact @readsHeader_of _ _ _ _ [keyword.leaf, name.leaf.inField "name", _, _] _ rfl
        fun comments trees body =>
          readsPlain_function begins readsName reads ends (by simp [holds, holds']) body
  rw [IsHeader, whole]
  exact parts.behind (by decide) (fun keyword tree => node "" (keyword.leaf :: tree.children))
    (fun keyword tokens tree begins rule => rule keyword begins)
    fun source keyword tree begins holds reads => reads keyword begins holds

def IsDecorator (alphabet : Alphabet) (decorator : String × List Expr) : Prop :=
  (∃ callee : Name, IsCallee alphabet callee ∧ callee.text = decorator.1) ∧
    ∀ e ∈ decorator.2, Writable alphabet .value e

theorem worded_sign {reads reads' : Source → RawTree → Prop} {text : List Char}
    (worded : Worded alphabet isEnd (Derives (.at .or)) reads text)
    (readings : ∀ (source : Source) (sign : Token) (value : RawTree), sign.isMark "@" = true →
      reads source value → reads' source (decoratorNode sign value)) :
    Worded alphabet isEnd DecoratorWords reads' ("@".toList ++ text) := by
  intro start
  obtain ⟨tokens, tree, head, segment, derived, read⟩ := worded (start + Text.byteSize "@".toList)
  exact ⟨_, _, ⟨'@', _, rfl, rfl⟩, segment_open _ (by decide) (head_not_markTail head) segment,
    @DecoratorWords.decorator _ ⟨tokens, tree⟩ (isMark_mk "@" start) derived, fun source holds =>
      readings _ _ _ (isMark_mk "@" start)
        (read source fun token member => holds token (.tail _ member))⟩

theorem IsDecorator.written {decorator : String × List Expr} (valid : IsDecorator alphabet decorator) :
    ∃ text, decoratorText decorator = .ok text ∧ Worded alphabet isEnd DecoratorWords
      (fun source tree => ReadsDecorator source tree decorator ∧ tree.field = none) text.toList := by
  obtain ⟨name, args⟩ := decorator
  obtain ⟨⟨callee, isCallee, rfl⟩, writable⟩ := valid
  cases args with
  | nil =>
      refine ⟨"@" ++ callee.text, rfl, ?_⟩
      rw [String.toList_append]
      refine @worded_sign _ (fun source tree => ReadsCallee source tree callee) _ _ ?_ ?_
      · intro start
        obtain ⟨tokens, tree, head, segment, derives, reads⟩ := spelled_callee isCallee start
        exact ⟨tokens, tree, head, segment, .weaken (by decide) derives, reads⟩
      · exact fun source sign value marks reads => ⟨readsDecorator_name marks reads, rfl⟩
  | cons first rest =>
      obtain ⟨texts, printed, spelled⟩ :=
        recovered_tuple fun e member => (writable e member).recovered
      refine ⟨"@" ++ callText callee.text texts, ?_, ?_⟩
      · have text : decoratorText (callee.text, first :: rest) =
            (exprTexts (first :: rest)).map fun texts => "@" ++ callText callee.text texts := rfl
        rw [text, printed]
        rfl
      · rw [String.toList_append]
        refine @worded_sign _ (fun source tree => ReadsCall source tree callee (first :: rest)) _ _
          ?_ ?_
        · intro start
          obtain ⟨tokens, tree, head, segment, derives, call⟩ :=
            spelled_callNode isCallee spelled start
          exact ⟨tokens, tree, head, segment, .weaken (by decide) derives, call⟩
        · exact fun source sign value marks call => ⟨readsDecorator_call marks call, rfl⟩

end Definitions

end NumericPython

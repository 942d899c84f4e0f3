import NumericPython.Printing.Stmt
import NumericPython.Proofs.Grammar.ClauseReading
import NumericPython.Proofs.Grammar.Places
import NumericPython.Proofs.Grammar.Sequences

set_option autoImplicit false

namespace NumericPython

namespace Grammar

open Lowering Printing

variable {alphabet : Alphabet} {ends : Char → Bool} {rule : List Token → RawTree → Prop}
  {start : Nat} {text : List Char}

section Words

variable {rule' rule'' : List Token → RawTree → Prop} {reads reads' reads'' : Source → RawTree → Prop}
  {text' : List Char} {mark : String}

theorem Worded.behind (worded : Worded alphabet isEnd rule reads text)
    (known : mark.toList ∈ keywords) (f : Token → RawTree → RawTree)
    (rules : ∀ keyword tokens tree, keyword.isMark mark = true → rule tokens tree →
      rule' (keyword :: tokens) (f keyword tree))
    (readings : ∀ source keyword tree, keyword.isMark mark = true → keyword.Holds source →
      reads source tree → reads' source (f keyword tree)) :
    Worded alphabet isEnd rule' reads' (mark.toList ++ ([' '] ++ text)) := by
  intro start
  obtain ⟨tokens, tree, ⟨c, cs, same, _⟩, segment, derived, read⟩ :=
    worded (start + Text.byteSize mark.toList + Text.byteSize [' '])
  have letters : ∀ word ∈ keywords, word.head?.any opensWord = true := by decide
  have head : ∃ c cs, mark.toList = c :: cs ∧ opensWord c = true := by
    have first := letters _ known
    generalize mark.toList = word at first
    cases word with
    | nil => cases first
    | cons c cs => exact ⟨c, cs, rfl, first⟩
  obtain ⟨d, ds, spelling, leads⟩ := head
  refine ⟨_, _, ⟨d, _, by rw [spelling]; rfl, leads⟩, (segment_keyword known).append
    (segment_space.append segment ⟨c, cs, same, rfl⟩) ⟨' ', _, rfl, by decide⟩,
    rules _ _ _ (isMark_mk mark start) derived, fun source holds => ?_⟩
  exact readings _ _ _ (isMark_mk mark start) (holds _ (.head _))
    (read source fun token member => holds token (by simp [member]))

theorem Worded.around (worded : Worded alphabet isEnd rule reads text)
    (between : ∀ start, Segment alphabet (· == ' ') start mark.toList
      [⟨.mark, mark.toList, start⟩]) (some_char : mark.toList ≠ [])
    (worded' : Worded alphabet isEnd rule' reads' text') (f : RawTree → Token → RawTree → RawTree)
    (rules : ∀ tokens tree token tokens' tree', rule tokens tree → token.isMark mark = true →
      rule' tokens' tree' → rule'' (tokens ++ token :: tokens') (f tree token tree'))
    (readings : ∀ source tree token tree', reads source tree → token.isMark mark = true →
      token.Holds source → reads' source tree' → reads'' source (f tree token tree')) :
    Worded alphabet isEnd rule'' reads''
      (text ++ ([' '] ++ (mark.toList ++ ([' '] ++ text')))) := by
  intro start
  obtain ⟨tokens, tree, head, segment, derived, read⟩ := worded start
  obtain ⟨tokens', tree', ⟨c', cs', same', _⟩, segment', derived', read'⟩ :=
    worded' (start + Text.byteSize text + Text.byteSize [' '] + Text.byteSize mark.toList +
      Text.byteSize [' '])
  obtain ⟨d, ds, spelling⟩ := List.exists_cons_of_ne_nil some_char
  refine ⟨_, _, opens_append head _, segment.append (segment_space.append
    ((between _).append (segment_space.append segment' ⟨c', cs', same', rfl⟩) ⟨' ', _, rfl, rfl⟩)
      ⟨d, _, by rw [spelling]; rfl, rfl⟩) ⟨' ', _, rfl, by decide⟩,
    rules _ _ _ _ _ derived (isMark_mk mark _) derived', fun source holds => ?_⟩
  exact readings _ _ _ _ (read source fun token member => holds token (by simp [member]))
    (isMark_mk mark _) (holds _ (by simp))
    (read' source fun token member => holds token (by simp [member]))

end Words

section Sequences

variable {α : Type} {reads : α → Source → RawTree → Prop} {mark : String} {gap : Nat}

def readings (chain : Chain (Part × α)) : Chain (RawTree × α) :=
  chain.map fun item => (item.1.tree, item.2)

theorem trees_readings (chain : Chain (Part × α)) :
    (readings chain).map Prod.fst = (chain.map Prod.fst).map Part.tree := by
  simp [readings]

theorem Sequence.pairs {xs : List α} {chain : Chain (Part × α)}
    (sequence : Sequence alphabet ends rule reads mark xs start text chain) {source : Source}
    (holds : ∀ token ∈ ((chain.map Prod.fst).map Part.tokens).tokens, token.Holds source) :
    (∀ token ∈ (readings chain).separators, token.isMark mark = true) ∧
    (∀ item ∈ (readings chain).items, reads item.2 source item.1) ∧
      (readings chain).items.map Prod.snd = xs := by
  refine ⟨?_, ?_, ?_⟩
  · intro token member
    refine sequence.series.separates token ?_
    rw [readings, Chain.separators_map] at member
    rwa [Chain.separators_map]
  · intro item member
    rw [readings, Chain.items_map] at member
    obtain ⟨entry, inside, rfl⟩ := List.mem_map.1 member
    exact sequence.reads source holds entry inside
  · rw [← sequence.values, readings, Chain.items_map, List.map_map]
    rfl

end Sequences

section Values

variable {e : Expr} {es : List Expr} {texts : List String}

theorem reads_expressionList {source : Source} {chain : Chain (RawTree × Expr)}
    (separates : ∀ token ∈ chain.separators, token.isMark "," = true)
    (reads : ∀ item ∈ chain.items, Reads source item.1 item.2) :
    Reads source (node "expression_list" ((chain.map Prod.fst).nodes id id))
      (.tuple (chain.items.map Prod.snd)) := by
  refine @reads_node source _ .expressionList _ _ rfl rfl (by decide) fun span text field => ?_
  have inside := namedReads_nodes separates reads namedReads_nil
  rw [List.append_nil] at inside
  rw [lowerExpr, inside none]
  rfl

theorem worded_value (worded : Worded alphabet isEnd (Derives (.at .or))
    (fun source tree => Reads source tree e) text) :
    Worded alphabet isEnd Values (fun source tree => Reads source tree e) text :=
  worded.imp fun _ _ derives => .one derives

inductive Several (rule : List Token → RawTree → Prop) : List Token → RawTree → Prop
  | several {chain : Chain Part} (some_more : chain.more ≠ []) (series : chain.IsSeries "," rule) :
      Several rule (chain.map Part.tokens).tokens
        (node "expression_list" ((chain.map Part.tree).nodes id id))

theorem Several.values {tokens : List Token} {tree : RawTree} (several : Several rule tokens tree)
    (derives : ∀ tokens tree, rule tokens tree → Derives (.at .or) tokens tree) :
    Values tokens tree := by
  cases several with
  | several some_more series =>
      exact .several some_more ⟨series.separates, fun part member =>
        derives _ _ (series.items part member)⟩

theorem worded_several {e' : Expr} (worded : List.Forall₂ (fun e text => Worded alphabet isEnd rule
      (fun source tree => Reads source tree e) (String.toList text)) (e :: e' :: es) texts) :
    Worded alphabet isEnd (Several rule) (fun source tree => Reads source tree (.tuple (e :: e' :: es)))
      (commaSeparated texts).toList := by
  intro start
  rcases texts with _ | ⟨first, texts⟩
  · cases worded
  · obtain ⟨chain, sequence⟩ := exists_commaSequence worded start
    refine ⟨_, _, sequence.head, sequence.segment, .several sequence.some_more sequence.series,
      fun source holds => ?_⟩
    obtain ⟨separates, reads, values⟩ := sequence.pairs holds
    have list := reads_expressionList separates reads
    rwa [trees_readings, values] at list

end Values

section Targets

def TargetItem (tokens : List Token) (tree : RawTree) : Prop :=
  Derives (.at .or) tokens tree ∧ tree.isTarget = true

theorem areTargets_of_forall {children : List RawTree}
    (all : ∀ tree ∈ children, tree.isNamed = false ∨ tree.isTarget = true) :
    RawTree.areTargets children = true := by
  induction children with
  | nil => rfl
  | cons tree rest ih =>
      have here : (!tree.isNamed || tree.isTarget) = true := by
        simpa using all tree (.head _)
      rw [RawTree.areTargets, here, ih fun other member => all other (.tail _ member)]
      rfl

theorem isNamed_leaf {token : Token} {text : String} (isMark : token.isMark text = true)
    (other : constants.lookup text.toList = none) : token.leaf.isNamed = false := by
  rw [Token.eq_of_isMark isMark]
  simp [Token.leaf, Token.isOperand, other]

theorem targets_of_series {chain : Chain Part} (series : chain.IsSeries "," TargetItem) :
    ∀ tree ∈ (chain.map Part.tree).nodes id id, tree.isNamed = false ∨ tree.isTarget = true := by
  intro tree member
  rcases Chain.mem_nodes member with ⟨inner, inside, rfl⟩ | ⟨token, inside, rfl⟩
  · rw [Chain.items_map] at inside
    obtain ⟨part, found, rfl⟩ := List.mem_map.1 inside
    exact .inr (series.items part found).2
  · rw [Chain.separators_map] at inside
    exact .inl (isNamed_leaf (series.separates token inside) (by decide))

theorem Several.isTarget {tokens : List Token} {tree : RawTree}
    (several : Several TargetItem tokens tree) : tree.isTarget = true := by
  cases several with
  | several some_more series =>
      rw [node, RawTree.isTarget, areTargets_of_forall (targets_of_series series)]
      rfl

theorem isTarget_bracketed {opening closing : Token} {inside : List RawTree}
    (opens : opening.isMark "(" = true) (closes : closing.isMark ")" = true)
    (all : ∀ tree ∈ inside, tree.isNamed = false ∨ tree.isTarget = true) :
    (bracketedNode "tuple" opening inside closing).isTarget = true := by
  have children : RawTree.areTargets (opening.leaf :: (inside ++ [closing.leaf])) = true := by
    refine areTargets_of_forall fun tree member => ?_
    simp only [List.mem_cons, List.mem_append, List.not_mem_nil, or_false] at member
    rcases member with rfl | member | rfl
    · exact .inl (isNamed_leaf opens (by decide))
    · exact all tree member
    · exact .inl (isNamed_leaf closes (by decide))
  rw [bracketedNode, node, RawTree.isTarget, children]
  rfl

variable {e e' : Expr} {es : List Expr} {texts : List String}

theorem worded_tupleTarget (worded : List.Forall₂ (fun e text => Worded alphabet isEnd TargetItem
      (fun source tree => Reads source tree e) (String.toList text)) (e :: e' :: es) texts) :
    Worded alphabet isEnd TargetItem (fun source tree => Reads source tree (.tuple (e :: e' :: es)))
      ("(" ++ commaSeparated texts ++ ")").toList := by
  intro start
  rw [toList_parentheses]
  rcases texts with _ | ⟨first, texts⟩
  · cases worded
  · obtain ⟨chain, sequence⟩ := exists_commaSequence worded (start + Text.byteSize "(".toList)
    refine ⟨⟨.mark, "(".toList, start⟩ :: (itemTokens (some (chain.map Prod.fst)) ++
        [⟨.mark, [')'], start + Text.byteSize "(".toList +
          Text.byteSize (commaSeparated (first :: texts)).toList⟩]), _, ⟨'(', _, rfl, rfl⟩,
      sequence.segment.between sequence.head (by decide) (by decide) (by decide),
      ⟨.weaken (by decide) (.tuple rfl rfl (by rintro _ ⟨⟩; exact sequence.some_more)
        (by rintro _ ⟨⟩; exact sequence.series.separates)
        (by rintro _ ⟨⟩ part member; exact (sequence.series.items part member).1)),
        isTarget_bracketed rfl rfl (targets_of_series sequence.series)⟩, fun source holds => ?_⟩
    obtain ⟨separates, reads, values⟩ := @Sequence.pairs _ _ _ _ _ _ _ _ _ _ sequence source
      fun token member => holds token (.tail _ (List.mem_append_left _ member))
    have tuple := @reads_tuple source ⟨.mark, "(".toList, start⟩ ⟨.mark, [')'], start +
      Text.byteSize "(".toList + Text.byteSize (commaSeparated (first :: texts)).toList⟩
      (some (readings chain)) rfl rfl (by rintro _ ⟨⟩; exact separates)
      (by rintro _ ⟨⟩; exact reads)
    rw [Option.map_some, trees_readings] at tuple
    have exprs : itemExprs (some (readings chain)) = e :: e' :: es := values
    rwa [exprs] at tuple

theorem worded_singleTarget {text : String} (worded : Worded alphabet isEnd TargetItem
      (fun source tree => Reads source tree e) text.toList) :
    Worded alphabet isEnd TargetItem (fun source tree => Reads source tree (.tuple [e]))
      ("(" ++ text ++ ",)").toList := by
  intro start
  obtain ⟨tokens, tree, head, segment, target, reads⟩ := worded (start + Text.byteSize "(".toList)
  have textEq : ("(" ++ text ++ ",)").toList =
      "(".toList ++ (text.toList ++ (",".toList ++ [')'])) := by
    simp
  rw [textEq]
  refine ⟨_, _, ⟨'(', _, rfl, rfl⟩, segment.singleton head,
    ⟨.weaken (by decide) (@Derives.singleton _ _ _ ⟨tokens, tree⟩ rfl rfl rfl target.1),
      isTarget_bracketed rfl rfl ?_⟩, fun source holds => ?_⟩
  · simp only [List.mem_cons, List.not_mem_nil, or_false]
    rintro other (rfl | rfl)
    · exact .inr target.2
    · exact .inl rfl
  · exact reads_singleton rfl rfl rfl (reads source fun token member => holds token (by simp [member]))

end Targets

section Names

theorem worded_namePart {name : String} (isName : IsName alphabet name) :
    Worded alphabet (fun c => isEnd c || c == '.') NameItem
      (fun source tree => ReadsName source name tree) name.toList := by
  refine fun start => ⟨_, _, opensWord_of_word isName (by decide), segment_name isName, .name rfl,
    fun source holds => ?_⟩
  simpa using @readsName_leaf source ⟨.name, name.toList, start⟩ rfl (holds _ (.head _))

theorem worded_parts {part : String} {parts : List String} {name : Name}
    (names : ∀ other ∈ part :: parts, IsName alphabet other)
    (made : Name.ofParts (part :: parts) = .ok name) :
    Worded alphabet isEnd PathItem (fun source tree => ReadsPath source name tree)
      (Text.joinWith "." (part :: parts)).toList := by
  intro start
  have worded : List.Forall₂ (fun name text => Worded alphabet (fun c => isEnd c || c == '.')
      NameItem (fun source tree => ReadsName source name tree) (String.toList text))
      (part :: parts) (part :: parts) :=
    List.forall₂_same.2 fun name member => worded_namePart (names name member)
  obtain ⟨chain, sequence⟩ :=
    @exists_sequence _ _ _ _ _ "." 0 (by decide) (by rintro _ ⟨⟩; rfl) "." rfl _ _ _ _ worded start
  refine ⟨_, _, sequence.head, sequence.segment.imp fun c isEnd => by simp [isEnd],
    .path sequence.series, fun source holds => ?_⟩
  obtain ⟨separates, reads, values⟩ := sequence.pairs holds
  have path := readsPath_node separates reads (by rw [values, made])
  rwa [trees_readings] at path

theorem IsWord.no_dot {word : List Char} (isWord : IsWord alphabet .name word) : '.' ∉ word := by
  generalize kind : TokenKind.name = sort at isWord
  cases isWord with
  | @name c cs begins part =>
      intro member
      rcases List.mem_cons.1 member with rfl | member
      · rw [alphabet.isStart_ascii _ (by decide)] at begins
        cases begins
      · have inside := part _ member
        rw [alphabet.isPart_ascii _ (by decide)] at inside
        cases inside
  | number => split at kind <;> cases kind
  | string => cases kind
  | mark => cases kind

theorem isNamePart_of_isName {name : String} (isName : IsName alphabet name) :
    isNamePart name = true := by
  have word : IsWord alphabet .name name.toList := isName
  have noDot := word.no_dot
  have some_char : name.toList ≠ [] := word.ne_nil
  have notEmpty : name.isEmpty = false := by
    refine Bool.eq_false_iff.2 fun empty => some_char ?_
    simpa using empty
  simp [isNamePart, notEmpty, noDot]

theorem worded_path {name : Name} (isCallee : IsCallee alphabet name) :
    Worded alphabet isEnd PathItem (fun source tree => ReadsPath source name tree)
      name.text.toList := by
  cases name with
  | symbol symbol =>
      obtain ⟨name, info⟩ := symbol
      obtain ⟨rfl, isName⟩ := isCallee
      have made : Name.ofParts [name] = .ok (.symbol ⟨name, none⟩) := by
        rw [Name.ofParts, if_pos (isNamePart_of_isName isName)]
        rfl
      exact worded_parts (by simpa using isName) made
  | dotted name =>
      rcases parts : name.parts with _ | ⟨first, _ | ⟨second, more⟩⟩
      · have two := name.two_le
        rw [parts] at two
        cases two
      · have two := name.two_le
        rw [parts] at two
        simp at two
      · have names : ∀ part ∈ name.parts, IsName alphabet part := isCallee
        rw [parts] at names
        have made : Name.ofParts (first :: second :: more) = .ok (.dotted name) := by
          have dotted := ofParts_parts name
          rw [parts] at dotted
          have longer : Name.ofParts (first :: second :: more) =
              (DottedName.ofParts (first :: second :: more)).map .dotted := rfl
          rw [longer, dotted]
          rfl
        rw [Name.text, DottedName.text, parts]
        exact worded_parts names made

@[simp] theorem byteSize_spaces (n : Nat) : Text.byteSize (spaces n) = n := by
  induction n with
  | zero => rfl
  | succ n ih =>
      have size : Text.byteSize (spaces (n + 1)) = 1 + Text.byteSize (spaces n) := rfl
      rw [size, ih, Nat.add_comm]

theorem Lexes.exists_source {tokens : List Token} (lexes : Lexes alphabet start text tokens) :
    ∃ source, ∀ token ∈ tokens, token.Holds source :=
  ⟨.ofString (String.ofList (spaces start ++ text)), @Lexes.holdsAt _ _ _ _ lexes _ (spaces start) []
    (by simp [Source.ofString]) (by simp)⟩

theorem not_future {name : Name} {tokens : List Token} {tree : RawTree}
    (other : name ≠ .symbol (.plain "__future__")) (lexes : Lexes alphabet start text tokens)
    (isPath : PathItem tokens tree)
    (reads : ∀ source, (∀ token ∈ tokens, token.Holds source) → ReadsPath source name tree) :
    tokens.map Token.text ≠ ["__future__".toList] := by
  intro same
  obtain ⟨source, holds⟩ := lexes.exists_source
  have path := reads source holds
  cases isPath with
  | @path chain series =>
      obtain ⟨first, more⟩ := chain
      have item := series.items first (.head _)
      obtain ⟨words, leaf⟩ := first
      cases item with
      | @name token isName =>
          -- There is no room for a second word.
          cases more with
          | cons link more => simp [Chain.map, Chain.tokens] at same
          | nil =>
              have text : token.text = "__future__".toList := by
                simpa [Chain.map, Chain.tokens] using same
              have made : Name.ofParts ["__future__"] = .ok (.symbol (.plain "__future__")) := by
                rw [Name.ofParts, if_pos (by decide)]
              have future := @readsPath_node source ⟨(token.leaf, "__future__"), []⟩
                (.symbol (.plain "__future__")) (by rintro _ ⟨⟩) (by
                  intro item member
                  rw [List.mem_singleton.1 member]
                  have named := readsName_leaf isName (holds token (by simp [Chain.map, Chain.tokens]))
                  rwa [text, String.ofList_toList] at named) made
              have result := (path.lowers none none).symm.trans (future.lowers none none)
              injection result with result
              exact other result

end Names

section Items

theorem worded_target {target : ImportTarget} (isCallee : IsCallee alphabet target.name)
    (isName : ∀ name ∈ target.asName, IsName alphabet name) :
    Worded alphabet isEnd ImportItem (fun source tree => ReadsTarget source target tree)
      (targetText target).toList := by
  obtain ⟨path, asName⟩ := target
  cases asName with
  | none =>
      exact (worded_path isCallee).map id (fun _ _ isPath => .path isPath) fun _ _ reads => reads.target
  | some name =>
      intro start
      obtain ⟨tokens, tree, head, segment, isPath, reads⟩ := worded_path isCallee start
      have isName := isName name rfl
      have word : IsWord alphabet .name name.toList := isName
      obtain ⟨d, ds, same', _⟩ := opensWord_of_word word (by decide)
      have text : (targetText ⟨path, some name⟩).toList = path.text.toList ++
          (spaces 1 ++ ("as".toList ++ (spaces 1 ++ name.toList))) := by
        simp [targetText, spaces]
      have keyword := @segment_keyword alphabet (start + Text.byteSize path.text.toList + 1)
        "as".toList (by decide)
      have nameSegment := (@segment_name alphabet (start + Text.byteSize path.text.toList + 1 +
        Text.byteSize "as".toList + 1) name isName).imp fun c (ends : isEnd c = true) => by simp [ends]
      rw [text]
      refine ⟨_, _, opens_append head _, segment.append (segment_spaces 1
        (keyword.append (segment_spaces 1 nameSegment) ⟨' ', _, rfl, by decide⟩))
        ⟨' ', _, rfl, by decide⟩, @ImportItem.renamed ⟨tokens, tree⟩ _ _ isPath rfl rfl,
        fun source holds => ?_⟩
      have nameHolds := holds _ (List.mem_append_right _ (.tail _ (.head _)))
      have target (keyword : Token) := @readsTarget_renamed source tree keyword _ _ rfl nameHolds
        (reads source fun token member => holds token (by simp [member]))
      simpa using target _

theorem worded_plain {name : String} (isName : IsName alphabet name) :
    Worded alphabet isEnd ParameterItem
      (fun source tree => ReadsParameter source tree (.plain ⟨name, none⟩)) name.toList := by
  refine fun start => ⟨_, _, opensWord_of_word isName (by decide),
    (segment_name isName).imp fun c ends => by simp [ends], .plain rfl, fun source holds => ?_⟩
  have reads := @readsName_leaf source ⟨.name, name.toList, start⟩ rfl (holds _ (.head _))
  rw [String.ofList_toList] at reads
  exact reads.parameter

theorem worded_valued {name text : String} {e : Expr} (isName : IsName alphabet name)
    (worded : Worded alphabet isEnd (Derives (.at .or)) (fun source tree => Reads source tree e)
      text.toList) : Worded alphabet isEnd ParameterItem
      (fun source tree => ReadsParameter source tree (.valued ⟨name, none⟩ e))
      (name ++ "=" ++ text).toList := by
  intro start
  have whole : (name ++ "=" ++ text).toList = name.toList ++ ("=".toList ++ text.toList) := by
    simp
  obtain ⟨tokens, tree, head, segment, derives, reads⟩ :=
    worded (start + Text.byteSize name.toList + Text.byteSize "=".toList)
  have equals := @segment_open _ (start + Text.byteSize name.toList) "=".toList (by decide) _ _
    (head_not_markTail head) segment
  rw [whole]
  refine ⟨_, _, opens_append (opensWord_of_word isName (by decide)) _, (segment_wholeName isName).append equals
    ⟨'=', _, rfl, ?_⟩, @ParameterItem.valued ⟨.name, name.toList, start⟩ _ ⟨tokens, tree⟩ rfl rfl
      derives, fun source holds => ?_⟩
  · rw [alphabet.isPart_ascii '=' (by decide)]
    rfl
  · have readsName := @readsName_leaf source ⟨.name, name.toList, start⟩ rfl (holds _ (.head _))
    rw [String.ofList_toList] at readsName
    exact readsParameter_valued readsName
      (reads source fun token member => holds token (by simp [member]))

end Items

end Grammar

end NumericPython

import NumericPython.Proofs.Grammar.Series
import NumericPython.Proofs.Grammar.Statements

set_option autoImplicit false

namespace NumericPython

namespace Grammar

variable {alphabet : Alphabet} {start : Nat} {text : List Char} {tokens : List Token}

theorem IsWord.ne_nil {kind : TokenKind} {word : List Char} (isWord : IsWord alphabet kind word) :
    word ≠ [] := by
  obtain ⟨c, cs, rfl, _⟩ := isWord.cases_head
  simp

theorem Lexes.bounds (lexes : Lexes alphabet start text tokens) :
    ∀ token ∈ tokens, start ≤ token.start ∧ token.start < token.stop ∧
      token.stop ≤ start + Text.byteSize text := by
  induction lexes with
  | done => simp
  | @space start cs tokens rest ih =>
      intro token member
      have inside := ih token member
      have size : ' '.utf8Size = 1 := rfl
      simp only [Text.byteSize_cons]
      omega
  | @word start kind word cs tokens isWord longest rest ih =>
      intro token member
      rw [Text.byteSize_append]
      rcases List.mem_cons.1 member with rfl | member
      · obtain ⟨c, cs', rfl, _⟩ := isWord.cases_head
        have positive := c.utf8Size_pos
        simp only [Token.stop, Text.byteSize_cons]
        omega
      · have inside := ih token member
        omega

theorem Lexes.holdsAt (lexes : Lexes alphabet start text tokens) {source : Source}
    {before after : List Char} (whole : source.chars = before ++ (text ++ after))
    (place : start = Text.byteSize before) : ∀ token ∈ tokens, token.Holds source := by
  induction lexes generalizing before with
  | done => simp
  | space rest ih =>
      exact @ih (before ++ [' ']) (by simp [whole]) (by simp [place]; rfl)
  | @word start kind word cs tokens isWord longest rest ih =>
      intro token member
      rcases List.mem_cons.1 member with rfl | member
      · have slice := Text.slice_append before word (cs ++ after)
        rw [Token.Holds, Source.slice, whole, List.append_assoc, ← List.append_assoc, Token.stop,
          place, slice]
      · exact @ih (before ++ word) (by simp [whole]) (by simp [place]) token member

theorem IsContent.no_feed {quote : Char} {cs : List Char} (inside : IsContent quote cs) :
    '\n' ∉ cs := by
  induction inside with
  | nil => simp
  | plain _ _ sameLine _ ih => simp [Ne.symm sameLine, ih]
  | escape sameLine _ ih => simp [Ne.symm sameLine, ih]

theorem IsWord.no_feed {kind : TokenKind} {word : List Char} (isWord : IsWord alphabet kind word) :
    '\n' ∉ word := by
  cases isWord with
  | @name c cs begins part =>
      intro member
      rcases List.mem_cons.1 member with rfl | member
      · rw [alphabet.isStart_ascii _ (by decide)] at begins
        cases begins
      · have inside := part _ member
        rw [alphabet.isPart_ascii _ (by decide)] at inside
        cases inside
  | number valid =>
      intro member
      rcases Numeral.mem_chars valid member with digit | mark
      · cases digit
      · cases mark
  | @string quote content isQuote inside =>
      have notFeed : '\n' ≠ quote := by
        rintro rfl
        cases isQuote
      simp [notFeed, inside.no_feed]
  | mark known =>
      have all : ∀ word ∈ marks, '\n' ∉ word := by decide
      exact all _ known

theorem Lexes.no_feed (lexes : Lexes alphabet start text tokens) : '\n' ∉ text := by
  induction lexes with
  | done => simp
  | space _ ih => simp [ih]
  | word isWord _ _ ih => simp [isWord.no_feed, ih]

theorem Segment.lexesAt {ends : Char → Bool} (segment : Segment alphabet ends start text tokens) :
    Lexes alphabet start text tokens := by
  simpa using segment [] [] (by simp) .done

/-- The node starts with one of the words and stops with one of them. -/
structure Spans (tokens : List Token) (tree : RawTree) : Prop where
  starts : ∃ token ∈ tokens, tree.start = token.start
  stops : ∃ token ∈ tokens, tree.stop = token.stop

theorem Spans.mono {others : List Token} {tree : RawTree} (spans : Spans tokens tree)
    (inside : tokens ⊆ others) : Spans others tree := by
  obtain ⟨⟨first, member, starts⟩, last, member', stops⟩ := spans
  exact ⟨⟨first, inside member, starts⟩, last, inside member', stops⟩

theorem Spans.inField {tree : RawTree} (spans : Spans tokens tree) (field : String) :
    Spans tokens (tree.inField field) :=
  ⟨spans.starts, spans.stops⟩

theorem spans_leaf {token : Token} (member : token ∈ tokens) : Spans tokens token.leaf :=
  ⟨⟨token, member, rfl⟩, token, member, rfl⟩

theorem spans_node {kind : String} {first last : RawTree} {children : List RawTree}
    (begins : children.head? = some first) (ends : children.getLast? = some last)
    (spans : Spans tokens first) (spans' : Spans tokens last) :
    Spans tokens (node kind children) := by
  constructor
  · simpa [node, begins] using spans.starts
  · simpa [node, ends] using spans'.stops

theorem Chain.last_nodes {chain : Chain RawTree} {item separator : RawTree → RawTree}
    {p : RawTree → Prop} (all : ∀ tree ∈ chain.items, p (item tree)) :
    ∃ last, (chain.nodes item separator).getLast? = some last ∧ p last := by
  obtain ⟨first, more⟩ := chain
  rcases List.eq_nil_or_concat more with rfl | ⟨init, link, rfl⟩
  · exact ⟨item first, by simp [nodes], all _ (by simp [items])⟩
  · refine ⟨item link.2, ?_, all _ (by simp [items])⟩
    simp [nodes, List.getLast?_cons]

theorem mem_tokens_of_item {chain : Chain Part} {part : Part} (member : part ∈ chain.items) :
    part.tokens ⊆ (chain.map Part.tokens).tokens := by
  intro token inside
  simp only [Chain.items, List.mem_cons, List.mem_map] at member
  simp only [Chain.map, Chain.tokens, List.mem_append, List.mem_flatMap, List.mem_map]
  rcases member with rfl | ⟨link, member, rfl⟩
  · exact .inl inside
  · exact .inr ⟨_, ⟨link, member, rfl⟩, .tail _ inside⟩

theorem spans_chain {kind : String} {chain : Chain Part} {item separator : RawTree → RawTree}
    (keeps : ∀ tree, (item tree).start = tree.start ∧ (item tree).stop = tree.stop)
    (all : ∀ part ∈ chain.items, Spans part.tokens part.tree) :
    Spans (chain.map Part.tokens).tokens
      (node kind ((chain.map Part.tree).nodes item separator)) := by
  have spans : ∀ tree ∈ (chain.map Part.tree).items,
      Spans (chain.map Part.tokens).tokens (item tree) := by
    intro tree member
    rw [Chain.items_map] at member
    obtain ⟨part, inside, rfl⟩ := List.mem_map.1 member
    have here := (all part inside).mono (mem_tokens_of_item inside)
    constructor
    · rw [(keeps _).1]
      exact here.starts
    · rw [(keeps _).2]
      exact here.stops
  obtain ⟨last, ends, spansLast⟩ := Chain.last_nodes spans
  exact spans_node rfl ends (spans _ (.head _)) spansLast

theorem spans_between {kind : String} {first last : RawTree} (middle : List RawTree)
    (spans : Spans tokens first) (spans' : Spans tokens last) :
    Spans tokens (node kind (first :: (middle ++ [last]))) := by
  refine spans_node rfl ?_ spans spans'
  rw [← List.cons_append, List.getLast?_concat]

theorem spans_slice {start stop : Option Part} {colon : Token} {step : Option (Token × Option Part)}
    (first : ∀ part ∈ start, Spans part.tokens part.tree)
    (second : ∀ part ∈ stop, Spans part.tokens part.tree)
    (third : ∀ link ∈ step, ∀ part ∈ link.2, Spans part.tokens part.tree) :
    Spans (Part.optionalTokens start ++ colon :: (Part.optionalTokens stop ++
        (step.map fun link => link.1 :: Part.optionalTokens link.2).getD []))
      (sliceNode (start.map Part.tree) colon (stop.map Part.tree)
        (step.map fun link => (link.1, link.2.map Part.tree))) := by
  -- The slice starts with its first part or with its colon, and stops with the last thing there is.
  constructor
  · cases start with
    | none => exact (spans_leaf (by simp [Part.optionalTokens])).starts
    | some part => exact ((first part rfl).mono (by simp [Part.optionalTokens])).starts
  · rcases step with _ | ⟨colon', _ | part⟩
    · cases stop with
      | none => cases start <;> exact (@spans_leaf _ colon (by simp [Part.optionalTokens])).stops
      | some part =>
          cases start <;> exact ((second part rfl).mono (by simp [Part.optionalTokens])).stops
    · have inside := @spans_leaf (Part.optionalTokens start ++ colon :: (Part.optionalTokens stop ++
        [colon'])) colon' (by simp)
      cases start <;> cases stop <;> exact inside.stops
    · cases start <;> cases stop <;>
        exact ((third _ rfl part rfl).mono fun token member => by
          simp [Part.optionalTokens, member]).stops

theorem Derives.spans {phrase : Phrase} {tree : RawTree} (derives : Derives phrase tokens tree) :
    Spans tokens tree := by
  induction derives with
  | weaken _ _ ih => exact ih
  | element _ ih => exact ih
  | operand => exact spans_leaf (.head _)
  | binary _ _ _ _ _ ih ih' | power _ _ _ ih ih' =>
      exact spans_between [_] ((ih.mono (by simp)).inField _) ((ih'.mono (by simp)).inField _)
  | not _ _ ih => exact spans_between [] (spans_leaf (.head _)) ((ih.mono (by simp)).inField _)
  | negation _ _ ih =>
      exact spans_between [] ((spans_leaf (.head _)).inField _) ((ih.mono (by simp)).inField _)
  | comparison _ _ _ ih => exact spans_chain (fun _ => ⟨rfl, rfl⟩) ih
  | group | singleton | tuple =>
      refine spans_between _ (spans_leaf ?_) (spans_leaf ?_) <;> simp
  | @call function opening closing arguments _ _ _ _ _ ih =>
      have brackets : Spans (function.tokens ++ opening :: (itemTokens arguments ++ [closing]))
          (bracketedNode "argument_list" opening (itemNodes (arguments.map (·.map Part.tree)))
            closing) := by
        refine spans_between _ (spans_leaf ?_) (spans_leaf ?_) <;> simp
      exact spans_between [] ((ih.mono (by simp)).inField _) (brackets.inField _)
  | @subscript base opening closing indices _ _ _ _ _ ih =>
      exact spans_between (opening.leaf :: _) ((ih.mono (by simp)).inField _) (spans_leaf (by simp))
  | @attributeAccess object dot name _ _ _ ih =>
      exact spans_between [dot.leaf] ((ih.mono (by simp)).inField _)
        ((spans_leaf (by simp)).inField _)
  | slice _ _ _ _ _ ih ih' ih'' => exact spans_slice ih ih' ih''

section Statements

theorem Values.spans {tree : RawTree} (values : Values tokens tree) : Spans tokens tree := by
  cases values with
  | one value => exact value.spans
  | several _ series =>
      exact spans_chain (fun _ => ⟨rfl, rfl⟩) fun part member => (series.items part member).spans

theorem spans_pattern {tree : RawTree} (spans : Spans tokens tree) :
    Spans tokens tree.toPattern := by
  obtain ⟨kind, field, start, stop, isNamed, isError, isMissing, children⟩ := tree
  have places : (RawTree.toPattern
      ⟨kind, field, start, stop, isNamed, isError, isMissing, children⟩).start = start ∧
      (RawTree.toPattern
        ⟨kind, field, start, stop, isNamed, isError, isMissing, children⟩).stop = stop := by
    rw [RawTree.toPattern]
    split
    · exact ⟨rfl, rfl⟩
    · split <;> exact ⟨rfl, rfl⟩
  constructor
  · rw [places.1]
    exact spans.starts
  · rw [places.2]
    exact spans.stops

theorem spans_assignment {kind : String} {left operator right : RawTree}
    (spans : Spans tokens left) (spans' : Spans tokens right) :
    Spans tokens (assignmentNode kind left operator right) := by
  have inner : Spans tokens (node kind
      [left.toPattern.inField "left", operator, right.inField "right"]) :=
    spans_between [operator] ((spans_pattern spans).inField _) (spans'.inField _)
  exact spans_node rfl rfl inner inner

theorem PathItem.spans {tree : RawTree} (isPath : PathItem tokens tree) : Spans tokens tree := by
  cases isPath with
  | path series =>
      refine spans_chain (fun _ => ⟨rfl, rfl⟩) fun part member => ?_
      have item := series.items part member
      generalize part.tokens = words at item ⊢
      generalize part.tree = tree at item ⊢
      cases item with
      | name => exact spans_leaf (.head _)

theorem ImportItem.spans {tree : RawTree} (item : ImportItem tokens tree) : Spans tokens tree := by
  cases item with
  | path isPath => exact isPath.spans
  | @renamed path keyword name isPath _ _ =>
      exact spans_between [keyword.leaf] ((isPath.spans.mono (by simp)).inField _)
        ((spans_leaf (by simp)).inField _)

theorem spans_before_chain {kind : String} {first : RawTree} {chain : Chain Part}
    (middle : List RawTree) (spans : Spans tokens first)
    (series : chain.IsSeries "," ImportItem) (inside : (chain.map Part.tokens).tokens ⊆ tokens) :
    Spans tokens (node kind (first :: (middle ++
      (chain.map Part.tree).nodes (RawTree.inField "name") id))) := by
  have trees : ∀ tree ∈ (chain.map Part.tree).items, Spans tokens (tree.inField "name") := by
    intro tree member
    rw [Chain.items_map] at member
    obtain ⟨part, found, rfl⟩ := List.mem_map.1 member
    exact ((series.items part found).spans.mono fun token here =>
      inside (mem_tokens_of_item found here)).inField _
  obtain ⟨last, ends, spansLast⟩ := Chain.last_nodes trees
  refine spans_node rfl ?_ spans spansLast
  have some_node : (chain.map Part.tree).nodes (RawTree.inField "name") id ≠ [] := by
    simp [Chain.nodes]
  rw [← List.cons_append, List.getLast?_append_of_ne_nil _ some_node, ends]

theorem Simple.spans {lead : Lead} {tree : RawTree} (simple : Simple lead tokens tree) :
    Spans tokens tree := by
  cases simple with
  | expression value => exact spans_node rfl rfl value.spans value.spans
  | assignment left _ _ right =>
      exact spans_assignment (left.spans.mono (by simp)) (right.spans.mono (by simp))
  | augmented left _ _ _ right =>
      exact spans_assignment (left.spans.mono (by simp)) (right.spans.mono (by simp))
  | returned _ values =>
      exact spans_between [] (spans_leaf (.head _)) (values.spans.mono (by simp))
  | @pass keyword _ => exact spans_node rfl rfl (spans_leaf (.head _)) (spans_leaf (.head _))
  | imports _ series =>
      exact spans_before_chain [] (spans_leaf (.head _)) series (by simp)
  | @importsFrom keyword keyword' path _ _ _ _ _ series =>
      exact spans_before_chain [path.tree.inField "module_name", keyword'.leaf]
        (spans_leaf (.head _)) series fun token member => by simp [member]

theorem Header.spans {clause : Clause} {header : List RawTree}
    (begins : Header clause tokens header) :
    ∃ first rest, header = first :: rest ∧ Spans tokens first := by
  cases begins <;> exact ⟨_, _, rfl, spans_leaf (.head _)⟩

end Statements

end Grammar

end NumericPython

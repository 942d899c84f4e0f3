import NumericPython.Proofs.Grammar.Parser
import NumericPython.Proofs.Grammar.Statements

set_option autoImplicit false

namespace NumericPython

namespace Grammar

section Rows

variable {alphabet : Alphabet}

theorem spaces_append_inj {n m : Nat} {text text' : List Char}
    (same : spaces n ++ text = spaces m ++ text') (noSpace : text.head? ≠ some ' ')
    (noSpace' : text'.head? ≠ some ' ') : n = m ∧ text = text' := by
  induction n generalizing m with
  | zero =>
      cases m with
      | zero => exact ⟨rfl, same⟩
      | succ m =>
          have front : text = ' ' :: (spaces m ++ text') := same
          rw [front] at noSpace
          exact absurd rfl noSpace
  | succ n ih =>
      cases m with
      | zero =>
          have front : ' ' :: (spaces n ++ text) = text' := same
          rw [← front] at noSpace'
          exact absurd rfl noSpace'
      | succ m =>
          have tails : spaces n ++ text = spaces m ++ text' := (List.cons.inj same).2
          obtain ⟨rfl, rest⟩ := ih tails
          exact ⟨rfl, rest⟩

theorem Lexes.no_comment {start : Nat} {text : List Char} {tokens : List Token}
    (lexes : Lexes alphabet start ('#' :: text) tokens) : False := by
  generalize same : '#' :: text = chars at lexes
  cases lexes with
  | done => cases same
  | space _ => cases same
  | word isWord _ _ =>
      obtain ⟨c, cs, rfl, classes⟩ := isWord.cases_head
      cases same
      rcases classes with begins | digit | isQuote | sign
      · rw [alphabet.isStart_ascii '#' (by decide)] at begins
        cases begins
      · cases digit
      · cases isQuote
      · exact absurd sign (by decide)

theorem Lexes.of_nil {start : Nat} {tokens : List Token} (lexes : Lexes alphabet start [] tokens) :
    tokens = [] :=
  lexes.unique .done

theorem RowReads.unique {row : Row} {line other : FilledRow} (reads : RowReads alphabet row line)
    (reads' : RowReads alphabet row other) : line = other := by
  cases reads with
  | @comment start indent text =>
      generalize whole : (⟨start, spaces indent ++ '#' :: text⟩ : Row) = row at reads'
      cases reads' with
      | comment =>
          injection whole with same same'
          obtain ⟨rfl, tails⟩ := spaces_append_inj same' (by simp) (by simp)
          cases tails
          rw [same]
      | words lexes _ noSpace =>
          injection whole with same same'
          obtain ⟨rfl, tails⟩ := spaces_append_inj same' (by simp) noSpace
          rw [← tails] at lexes
          exact lexes.no_comment.elim
  | @words start indent text tokens lexes _ noSpace =>
      generalize whole : (⟨start, spaces indent ++ text⟩ : Row) = row at reads'
      cases reads' with
      | comment =>
          injection whole with same same'
          obtain ⟨rfl, tails⟩ := spaces_append_inj same' noSpace (by simp)
          rw [tails] at lexes
          exact lexes.no_comment.elim
      | words lexes' _ noSpace' =>
          injection whole with same same'
          obtain ⟨rfl, tails⟩ := spaces_append_inj same' noSpace noSpace'
          rw [same, tails] at lexes
          rw [lexes.unique lexes']

theorem RowReads.not_blank {start n : Nat} {line : FilledRow}
    (reads : RowReads alphabet ⟨start, spaces n⟩ line) : False := by
  generalize whole : (⟨start, spaces n⟩ : Row) = row at reads
  cases reads with
  | @comment start' indent text =>
      injection whole with _ same
      have sign : '#' ∈ spaces n := by simp [same]
      cases (List.mem_replicate.1 sign).2
  | @words start' indent text tokens lexes some_word noSpace =>
      injection whole with _ same
      rcases text with _ | ⟨c, cs⟩
      · exact some_word lexes.of_nil
      · have inside : c ∈ spaces n := by simp [same]
        exact noSpace (congrArg some (List.mem_replicate.1 inside).2)

theorem RowsRead.unique {rows : List Row} {lines others : List FilledRow}
    (read : RowsRead alphabet rows lines) (read' : RowsRead alphabet rows others) :
    lines = others := by
  induction read generalizing others with
  | nil =>
      cases read'
      rfl
  | @blank start indent rows lines later ih =>
      generalize whole : (⟨start, spaces indent⟩ : Row) :: rows = all at read'
      cases read' with
      | nil => cases whole
      | blank later' =>
          obtain ⟨_, rfl⟩ := List.cons.inj whole
          exact ih later'
      | filled reads _ =>
          obtain ⟨rfl, _⟩ := List.cons.inj whole
          exact reads.not_blank.elim
  | @filled row line rows lines reads later ih =>
      generalize whole : row :: rows = all at read'
      cases read' with
      | nil => cases whole
      | blank _ =>
          obtain ⟨rfl, _⟩ := List.cons.inj whole
          exact reads.not_blank.elim
      | filled reads' later' =>
          obtain ⟨rfl, rfl⟩ := List.cons.inj whole
          rw [reads.unique reads', ih later']

end Rows

section Words

/-- A word behind which no expression goes on. -/
def Token.Stops (token : Token) : Prop :=
  token.level? = none

/-- At the front of some words stands at most one item, provided that a word of the given kind
follows it. -/
def FoundOnce (item : List Token → RawTree → Prop) (stops : Token → Prop) : Prop :=
  ∀ {tokens tokens' rest rest' : List Token} {tree tree' : RawTree}, item tokens tree →
    item tokens' tree' → tokens ++ rest = tokens' ++ rest' → (∀ token ∈ rest.head?, stops token) →
    (∀ token ∈ rest'.head?, stops token) → tokens = tokens' ∧ tree = tree'

variable {item : List Token → RawTree → Prop} {stops : Token → Prop} {separator : String}

theorem FoundOnce.rest (once : FoundOnce item stops) {tokens tokens' rest rest' : List Token}
    {tree tree' : RawTree} (found : item tokens tree) (found' : item tokens' tree')
    (same : tokens ++ rest = tokens' ++ rest') (stop : ∀ token ∈ rest.head?, stops token)
    (stop' : ∀ token ∈ rest'.head?, stops token) :
    tokens = tokens' ∧ tree = tree' ∧ rest = rest' := by
  obtain ⟨rfl, trees⟩ := once found found' same stop stop'
  exact ⟨rfl, trees, List.append_cancel_left same⟩

theorem foundOnce_derives : FoundOnce (Derives (.at .or)) Token.Stops := by
  intro tokens tokens' rest rest' tree tree' derives derives' same stop stop'
  have none_lower {rest : List Token} (stop : ∀ token ∈ rest.head?, token.Stops) :
      ∀ token ∈ rest.head?, ∀ r, token.level? = some r → r < .or := by
    intro token first r level
    rw [stop token first] at level
    cases level
  have parsed := derives.complete.read (none_lower stop)
  have parsed' := derives'.complete.read (none_lower stop')
  rw [same, parsed'] at parsed
  cases parsed
  exact ⟨List.append_cancel_right same, rfl⟩

theorem Token.isMark_unique {token : Token} {text other : String} (isMark : token.isMark text = true)
    (isMark' : token.isMark other = true) : text = other := by
  have same := (Token.eq_of_isMark isMark).symm.trans (Token.eq_of_isMark isMark')
  injection same with _ chars
  exact String.toList_inj.1 chars

theorem Chain.IsSeries.unique {chain chain' : Chain Part} {rest rest' : List Token}
    (once : FoundOnce item stops) (stop : ∀ token, token.isMark separator = true → stops token)
    (series : chain.IsSeries separator item) (series' : chain'.IsSeries separator item)
    (same : (chain.map Part.tokens).tokens ++ rest = (chain'.map Part.tokens).tokens ++ rest')
    (ends : ∀ token ∈ rest.head?, stops token ∧ token.isMark separator = false)
    (ends' : ∀ token ∈ rest'.head?, stops token ∧ token.isMark separator = false) :
    chain.map Part.tree = chain'.map Part.tree ∧ rest = rest' := by
  have behind {rest : List Token}
      (ends : ∀ token ∈ rest.head?, stops token ∧ token.isMark separator = false) :
      ∀ token ∈ rest.head?, stops token := fun token first => (ends token first).1
  -- The items are read one by one; both chains end where no separator is next.
  induction chain using Chain.induction generalizing chain' with
  | one first =>
      have here := series.items first (.head _)
      cases chain' using Chain.induction with
      | one first' =>
          have here' := series'.items first' (.head _)
          obtain ⟨_, trees, later⟩ := once.rest here here'
            (by simpa using same) (behind ends) (behind ends')
          exact ⟨by rw [Chain.map_single, Chain.map_single, trees], later⟩
      | cons first' mark' chain' _ =>
          obtain ⟨here', isMark', _⟩ := Chain.IsSeries.cons_iff.1 series'
          obtain ⟨_, _, later⟩ := once.rest here here'
            (by simpa using same) (behind ends)
            (by rintro _ ⟨⟩; exact stop _ isMark')
          rw [(ends mark' (by rw [later]; rfl)).2] at isMark'
          cases isMark'
  | cons first mark chain ih =>
      obtain ⟨here, isMark, behindMark⟩ := Chain.IsSeries.cons_iff.1 series
      cases chain' using Chain.induction with
      | one first' =>
          have here' := series'.items first' (.head _)
          obtain ⟨_, _, later⟩ := once.rest here here'
            (by simpa using same)
            (by rintro _ ⟨⟩; exact stop _ isMark) (behind ends')
          rw [(ends' mark (by rw [← later]; rfl)).2] at isMark
          cases isMark
      | cons first' mark' chain' _ =>
          obtain ⟨here', isMark', behindMark'⟩ := Chain.IsSeries.cons_iff.1 series'
          obtain ⟨_, trees, later⟩ := once.rest here here' (by simpa using same)
            (by rintro _ ⟨⟩; exact stop _ isMark) (by rintro _ ⟨⟩; exact stop _ isMark')
          obtain ⟨marks, tails⟩ := List.cons.inj later
          obtain ⟨others, rests⟩ := ih behindMark behindMark' tails
          exact ⟨by rw [Chain.map_cons, Chain.map_cons, marks, trees, others], rests⟩

def listNode (chain : Chain RawTree) : RawTree :=
  match chain.more with
  | [] => chain.first
  | _ => node "expression_list" (chain.nodes id id)

theorem Values.series {tokens : List Token} {tree : RawTree} (values : Values tokens tree) :
    ∃ chain : Chain Part, chain.IsSeries "," (Derives (.at .or)) ∧
      tokens = (chain.map Part.tokens).tokens ∧ tree = listNode (chain.map Part.tree) := by
  cases values with
  | one value =>
      refine ⟨⟨⟨tokens, tree⟩, []⟩, ⟨by rintro _ ⟨⟩, ?_⟩, by simp [Chain.map, Chain.tokens], rfl⟩
      intro part member
      rw [List.mem_singleton.1 member]
      exact value
  | @several chain some_more series =>
      refine ⟨chain, series, rfl, ?_⟩
      rw [listNode]
      split
      next none_more => exact absurd (List.map_eq_nil_iff.1 none_more) some_more
      next => rfl

theorem Token.comma_stops (token : Token) (separates : token.isMark "," = true) : token.Stops := by
  rw [Token.eq_of_isMark separates]
  rfl

theorem foundOnce_values :
    FoundOnce Values fun token => token.Stops ∧ token.isMark "," = false := by
  intro tokens tokens' rest rest' tree tree' values values' same stop stop'
  obtain ⟨chain, series, rfl, rfl⟩ := values.series
  obtain ⟨chain', series', rfl, rfl⟩ := values'.series
  obtain ⟨trees, rfl⟩ :=
    Chain.IsSeries.unique foundOnce_derives Token.comma_stops series series' same stop stop'
  exact ⟨List.append_cancel_right same, by rw [trees]⟩

theorem foundOnce_name : FoundOnce NameItem fun _ => True := by
  rintro _ _ rest rest' _ _ ⟨isName⟩ ⟨isName'⟩ same _ _
  obtain ⟨rfl, _⟩ := List.cons.inj same
  exact ⟨rfl, rfl⟩

theorem foundOnce_path : FoundOnce PathItem fun token => token.isMark "." = false := by
  rintro _ _ rest rest' _ _ ⟨series⟩ ⟨series'⟩ same stop stop'
  obtain ⟨trees, rfl⟩ := Chain.IsSeries.unique foundOnce_name (fun _ _ => trivial) series series' same
    (fun token first => ⟨trivial, stop token first⟩) fun token first => ⟨trivial, stop' token first⟩
  exact ⟨List.append_cancel_right same, by rw [trees]⟩

theorem Token.other_mark {token : Token} {text other : String} (isMark : token.isMark text = true)
    (differs : text ≠ other) : token.isMark other = false :=
  Bool.eq_false_iff.2 fun isMark' => differs (Token.isMark_unique isMark isMark')

theorem foundOnce_import :
    FoundOnce ImportItem fun token => token.isMark "." = false ∧ token.isMark "as" = false := by
  rintro _ _ rest rest' _ _ (isPath | @⟨path, keyword, name, isPath, isAs, isName⟩)
    (isPath' | @⟨path', keyword', name', isPath', isAs', isName'⟩) same stop stop'
  · exact foundOnce_path isPath isPath' same (fun token first => (stop token first).1)
      fun token first => (stop' token first).1
  · rw [List.append_assoc] at same
    obtain ⟨_, _, rfl⟩ := foundOnce_path.rest isPath isPath' same
      (fun token first => (stop token first).1)
      (by rintro token ⟨⟩; exact Token.other_mark isAs' (by decide))
    rw [(stop _ rfl).2] at isAs'
    cases isAs'
  · rw [List.append_assoc] at same
    obtain ⟨_, _, rfl⟩ := foundOnce_path.rest isPath isPath' same
      (by rintro token ⟨⟩; exact Token.other_mark isAs (by decide))
      (fun token first => (stop' token first).1)
    rw [(stop' _ rfl).2] at isAs
    cases isAs
  · rw [List.append_assoc, List.append_assoc] at same
    obtain ⟨tokens, tree, later⟩ := foundOnce_path.rest isPath isPath' same
      (by rintro token ⟨⟩; exact Token.other_mark isAs (by decide))
      (by rintro token ⟨⟩; exact Token.other_mark isAs' (by decide))
    cases later
    exact ⟨by rw [tokens], by rw [tree]⟩

theorem foundOnce_parameter :
    FoundOnce ParameterItem fun token => token.Stops ∧ token.isMark "=" = false := by
  rintro _ _ rest rest' _ _ (isName | @⟨name, equals, value, isName, assigns, derives⟩)
    (isName' | @⟨name', equals', value', isName', assigns', derives'⟩) same stop stop'
  · obtain ⟨rfl, _⟩ := List.cons.inj same
    exact ⟨rfl, rfl⟩
  · obtain ⟨_, rfl⟩ := List.cons.inj same
    rw [(stop _ rfl).2] at assigns'
    cases assigns'
  · obtain ⟨_, rfl⟩ := List.cons.inj same
    rw [(stop' _ rfl).2] at assigns
    cases assigns
  · simp only [List.cons_append, List.cons.injEq] at same
    obtain ⟨rfl, rfl, later⟩ := same
    obtain ⟨tokens, tree⟩ := foundOnce_derives derives derives' later
      (fun token first => (stop token first).1) fun token first => (stop' token first).1
    exact ⟨by rw [tokens], by rw [tree]⟩

end Words

section Statements

def leads : List (String × Lead) :=
  [("return", .returned), ("pass", .pass), ("import", .imports), ("from", .importsFrom),
    ("@", .decorator), ("if", .clause .conditional), ("elif", .clause .alternative),
    ("else", .clause .otherwise), ("while", .clause .whileLoop), ("for", .clause .forLoop),
    ("def", .clause .function), ("class", .clause .classBody)]

def leadOf : List Token → Lead
  | [] => .expression
  | token :: _ => ((leads.find? fun entry => token.isMark entry.1).map Prod.snd).getD .expression

theorem leadOf_clause {clause : Clause} {token : Token} {rest : List Token}
    (begins : token.isMark clause.keyword = true) : leadOf (token :: rest) = .clause clause := by
  rw [Token.eq_of_isMark begins]
  cases clause <;> rfl

theorem leadOf_begins {token : Token} {rest : List Token} (begins : token.begins .or = true) :
    leadOf (token :: rest) = .expression := by
  have unknown : leads.find? (fun entry => token.isMark entry.1) = none := by
    rw [List.find?_eq_none]
    intro entry member isMark
    have none_begins : ∀ entry ∈ leads,
        (⟨.mark, entry.1.toList, 0⟩ : Token).begins .or = false := by decide
    have begins' : (⟨.mark, entry.1.toList, 0⟩ : Token).begins .or = true := by
      rw [Token.eq_of_isMark isMark] at begins
      exact begins
    rw [none_begins entry member] at begins'
    cases begins'
  rw [leadOf, unknown]
  rfl

theorem Values.head {tokens : List Token} {tree : RawTree} (values : Values tokens tree) :
    ∃ token rest, tokens = token :: rest ∧ token.begins .or = true := by
  obtain ⟨chain, series, rfl, _⟩ := values.series
  obtain ⟨token, rest, same, begins⟩ := (series.items chain.first (.head _)).head
  rw [Chain.tokens_map, same]
  exact ⟨token, _, rfl, begins⟩

theorem Simple.lead {lead : Lead} {tokens : List Token} {tree : RawTree}
    (simple : Simple lead tokens tree) : leadOf tokens = lead := by
  cases simple with
  | expression value =>
      obtain ⟨token, rest, rfl, begins⟩ := value.head
      exact leadOf_begins begins
  | assignment left =>
      obtain ⟨token, rest, same, begins⟩ := left.head
      rw [same]
      exact leadOf_begins begins
  | augmented left =>
      obtain ⟨token, rest, same, begins⟩ := left.head
      rw [same]
      exact leadOf_begins begins
  | returned returns _ =>
      rw [Token.eq_of_isMark returns]
      rfl
  | pass passes =>
      rw [Token.eq_of_isMark passes]
      rfl
  | imports imports _ =>
      rw [Token.eq_of_isMark imports]
      rfl
  | importsFrom starts _ _ _ _ =>
      rw [Token.eq_of_isMark starts]
      rfl

theorem Header.lead {clause : Clause} {tokens : List Token} {header : List RawTree}
    (begins : Header clause tokens header) : leadOf tokens = .clause clause := by
  cases begins with
  | condition _ begins _ _ => exact leadOf_clause begins
  | otherwise begins _ => exact @leadOf_clause .otherwise _ _ begins
  | loop begins _ _ _ _ _ => exact @leadOf_clause .forLoop _ _ begins
  | function begins _ _ _ _ _ => exact @leadOf_clause .function _ _ begins
  | classBody begins _ _ => exact @leadOf_clause .classBody _ _ begins

inductive Assigned : Part → List Token → RawTree → Prop
  | nothing {first : Part} :
      Assigned first [] (node "expression_statement" [first.tree])
  | plain {first value : Part} {equals : Token} (assigns : equals.isMark "=" = true)
      (right : Values value.tokens value.tree) :
      Assigned first (equals :: value.tokens)
        (assignmentNode "assignment" first.tree equals.leaf value.tree)
  | operation {first value : Part} {operator : Token} {mark : String} (known : mark ∈ augmentedMarks)
      (assigns : operator.isMark mark = true) (right : Values value.tokens value.tree) :
      Assigned first (operator :: value.tokens)
        (assignmentNode "augmented_assignment" first.tree (operator.leaf.inField "operator")
          value.tree)

theorem Simple.assigned {tokens : List Token} {tree : RawTree}
    (simple : Simple .expression tokens tree) :
    ∃ first rest, tokens = first.tokens ++ rest ∧ Values first.tokens first.tree ∧
      Assigned first rest tree := by
  cases simple with
  | @expression _ value derives =>
      exact ⟨⟨tokens, value⟩, [], by simp, .one derives, .nothing⟩
  | assignment left _ assigns right => exact ⟨_, _, rfl, left, .plain assigns right⟩
  | augmented left _ known assigns right =>
      exact ⟨_, _, rfl, .one left, .operation known assigns right⟩

theorem Assigned.stops {first : Part} {rest : List Token} {tree : RawTree}
    (assigned : Assigned first rest tree) :
    ∀ token ∈ rest.head?, token.Stops ∧ token.isMark "," = false := by
  cases assigned with
  | nothing => rintro token ⟨⟩
  | plain assigns _ =>
      rintro token ⟨⟩
      rw [Token.eq_of_isMark assigns]
      exact ⟨rfl, rfl⟩
  | operation known assigns _ =>
      rintro token ⟨⟩
      have all_stop : ∀ mark ∈ augmentedMarks, (⟨.mark, mark.toList, 0⟩ : Token).level? = none ∧
          (⟨.mark, mark.toList, 0⟩ : Token).isMark "," = false := by decide
      rw [Token.eq_of_isMark assigns]
      exact all_stop _ known

theorem Values.unique {tokens : List Token} {tree tree' : RawTree} (values : Values tokens tree)
    (values' : Values tokens tree') : tree = tree' :=
  (@foundOnce_values tokens tokens [] [] _ _ values values' rfl (by rintro _ ⟨⟩)
    (by rintro _ ⟨⟩)).2

theorem equals_not_augmented {token : Token} {mark : String} (assigns : token.isMark "=" = true)
    (known : mark ∈ augmentedMarks) (isMark : token.isMark mark = true) : False := by
  rw [← Token.isMark_unique assigns isMark] at known
  revert known
  decide

theorem Assigned.unique {first : Part} {rest : List Token} {tree tree' : RawTree}
    (assigned : Assigned first rest tree) (assigned' : Assigned first rest tree') :
    tree = tree' := by
  cases assigned with
  | nothing =>
      cases assigned'
      rfl
  | @plain value equals assigns right =>
      generalize same : equals :: value.tokens = words at assigned'
      cases assigned' with
      | nothing => cases same
      | plain _ right' =>
          obtain ⟨rfl, tokens⟩ := List.cons.inj same
          rw [tokens] at right
          rw [right.unique right']
      | operation known assigns' _ =>
          obtain ⟨rfl, _⟩ := List.cons.inj same
          exact (equals_not_augmented assigns known assigns').elim
  | @operation value operator _ known assigns right =>
      generalize same : operator :: value.tokens = words at assigned'
      cases assigned' with
      | nothing => cases same
      | plain assigns' _ =>
          obtain ⟨rfl, _⟩ := List.cons.inj same
          exact (equals_not_augmented assigns' known assigns).elim
      | operation _ _ right' =>
          obtain ⟨rfl, tokens⟩ := List.cons.inj same
          rw [tokens] at right
          rw [right.unique right']

theorem imports_unique {chain chain' : Chain Part} (series : chain.IsSeries "," ImportItem)
    (series' : chain'.IsSeries "," ImportItem)
    (same : (chain.map Part.tokens).tokens = (chain'.map Part.tokens).tokens) :
    chain.map Part.tree = chain'.map Part.tree := by
  have separates (token : Token) (isMark : token.isMark "," = true) :
      token.isMark "." = false ∧ token.isMark "as" = false :=
    ⟨Token.other_mark isMark (by decide), Token.other_mark isMark (by decide)⟩
  exact (@Chain.IsSeries.unique _ _ _ _ _ [] [] foundOnce_import separates series series'
    (by rw [same]) (by rintro _ ⟨⟩) (by rintro _ ⟨⟩)).1

theorem Simple.unique {lead lead' : Lead} {tokens : List Token} {tree tree' : RawTree}
    (simple : Simple lead tokens tree) (simple' : Simple lead' tokens tree') : tree = tree' := by
  obtain rfl : lead = lead' := simple.lead.symm.trans simple'.lead
  cases lead with
  | expression =>
      obtain ⟨first, rest, rfl, values, assigned⟩ := simple.assigned
      obtain ⟨first', rest', same, values', assigned'⟩ := simple'.assigned
      obtain ⟨tokens, trees, rfl⟩ :=
        foundOnce_values.rest values values' same assigned.stops assigned'.stops
      obtain rfl : first = first' := by
        cases first
        cases first'
        rw [Part.mk.injEq]
        exact ⟨tokens, trees⟩
      exact assigned.unique assigned'
  | returned =>
      generalize whole : tokens = words at simple'
      cases simple with
      | returned _ values =>
          cases simple' with
          | returned _ values' =>
              obtain ⟨rfl, same⟩ := List.cons.inj whole
              rw [same] at values
              rw [values.unique values']
  | pass =>
      cases simple
      cases simple'
      rfl
  | imports =>
      generalize whole : tokens = words at simple'
      cases simple with
      | imports _ series =>
          cases simple' with
          | imports _ series' =>
              obtain ⟨rfl, same⟩ := List.cons.inj whole
              rw [imports_unique series series' same]
  | importsFrom =>
      generalize whole : tokens = words at simple'
      cases simple with
      | importsFrom _ isPath _ imports series =>
          cases simple' with
          | importsFrom _ isPath' _ imports' series' =>
              obtain ⟨rfl, same⟩ := List.cons.inj whole
              obtain ⟨_, path, later⟩ := foundOnce_path.rest isPath isPath' same
                (by rintro token ⟨⟩; exact Token.other_mark imports (by decide))
                (by rintro token ⟨⟩; exact Token.other_mark imports' (by decide))
              obtain ⟨rfl, targets⟩ := List.cons.inj later
              rw [path, imports_unique series series' targets]
  | clause => cases simple
  | decorator => cases simple

theorem parameters_unique {items items' : Option (Chain Part)} {closing closing' : Token}
    {rest rest' : List Token} (series : ∀ chain ∈ items, chain.IsSeries "," ParameterItem)
    (series' : ∀ chain ∈ items', chain.IsSeries "," ParameterItem)
    (closes : closing.isMark ")" = true) (closes' : closing'.isMark ")" = true)
    (same : itemTokens items ++ closing :: rest = itemTokens items' ++ closing' :: rest') :
    items.map (·.map Part.tree) = items'.map (·.map Part.tree) ∧
      closing :: rest = closing' :: rest' := by
  have notName {chain : Chain Part} (series : chain.IsSeries "," ParameterItem) :
      ∃ token rest, (chain.map Part.tokens).tokens = token :: rest ∧ token.kind = .name := by
    rw [Chain.tokens_map]
    have item := series.items chain.first (.head _)
    generalize chain.first.tokens = tokens at item
    generalize chain.first.tree = tree at item
    cases item with
    | plain isName => exact ⟨_, _, rfl, isName⟩
    | valued isName _ _ => exact ⟨_, _, rfl, isName⟩
  have mark_ne {token : Token} (closes : token.isMark ")" = true) : token.kind ≠ .name := by
    rw [Token.eq_of_isMark closes]
    rintro ⟨⟩
  have stops {token : Token} (isMark : token.isMark ")" = true ∨ token.isMark "," = true) :
      token.Stops ∧ token.isMark "=" = false := by
    rcases isMark with isMark | isMark <;>
    · rw [Token.eq_of_isMark isMark]
      exact ⟨rfl, rfl⟩
  -- A list without parameters is told from one with them by its first word, which is a name.
  cases items with
  | none =>
      cases items' with
      | none => exact ⟨rfl, same⟩
      | some chain' =>
          obtain ⟨token, words, tokens, isName⟩ := notName (series' chain' rfl)
          have words' : closing :: rest = (chain'.map Part.tokens).tokens ++ closing' :: rest' := same
          rw [tokens] at words'
          rw [← (List.cons.inj words').1] at isName
          exact absurd isName (mark_ne closes)
  | some chain =>
      cases items' with
      | none =>
          obtain ⟨token, words, tokens, isName⟩ := notName (series chain rfl)
          have words' : (chain.map Part.tokens).tokens ++ closing :: rest = closing' :: rest' := same
          rw [tokens] at words'
          rw [(List.cons.inj words').1] at isName
          exact absurd isName (mark_ne closes')
      | some chain' =>
          obtain ⟨trees, later⟩ := Chain.IsSeries.unique foundOnce_parameter
            (fun token isMark => stops (.inr isMark)) (series chain rfl) (series' chain' rfl) same
            (by rintro token ⟨⟩; exact ⟨stops (.inl closes), Token.other_mark closes (by decide)⟩)
            (by rintro token ⟨⟩; exact ⟨stops (.inl closes'), Token.other_mark closes' (by decide)⟩)
          exact ⟨by rw [Option.map_some, Option.map_some, trees], later⟩

theorem Header.unique {clause : Clause} {tokens : List Token} {header header' : List RawTree}
    (begins : Header clause tokens header) (begins' : Header clause tokens header') :
    header = header' := by
  generalize whole : tokens = words at begins'
  cases begins with
  | condition holds _ derives _ =>
      cases begins' with
      | condition _ _ derives' _ =>
          obtain ⟨rfl, same⟩ := List.cons.inj whole
          obtain ⟨tokens, colon⟩ := List.append_inj' same rfl
          cases colon
          rw [tokens] at derives
          rw [derives.unique derives']
      | otherwise => cases holds
      | loop => cases holds
      | function => cases holds
      | classBody => cases holds
  | otherwise =>
      cases begins' with
      | condition holds => cases holds
      | otherwise =>
          cases whole
          rfl
  | loop _ left _ separates right _ =>
      cases begins' with
      | condition holds => cases holds
      | loop _ left' _ separates' right' _ =>
          -- The target ends at the first `in`, which no expression goes on with.
          obtain ⟨rfl, same⟩ := List.cons.inj whole
          have stops {token : Token} (isIn : token.isMark "in" = true) :
              token.Stops ∧ token.isMark "," = false := by
            rw [Token.eq_of_isMark isIn]
            exact ⟨rfl, rfl⟩
          obtain ⟨_, target, later⟩ := foundOnce_values.rest left left' same
            (by rintro token ⟨⟩; exact stops separates) (by rintro token ⟨⟩; exact stops separates')
          obtain ⟨rfl, same'⟩ := List.cons.inj later
          obtain ⟨tokens, colon⟩ := List.append_inj' same' rfl
          cases colon
          rw [tokens] at right
          rw [target, right.unique right']
  | function _ _ _ series closes _ =>
      cases begins' with
      | condition holds => cases holds
      | function _ _ _ series' closes' _ =>
          simp only [List.cons.injEq] at whole
          obtain ⟨rfl, rfl, rfl, same⟩ := whole
          obtain ⟨trees, ends⟩ := parameters_unique series series' closes closes' same
          cases ends
          rw [trees]
  | classBody =>
      cases begins' with
      | condition holds => cases holds
      | classBody =>
          cases whole
          rfl

end Statements

section Blocks

def Opens (indent : Nat) (lead : Lead) (lines : List FilledRow) : Prop :=
  ∃ tokens rest, lines = ⟨indent, .words tokens⟩ :: rest ∧ leadOf tokens = lead

theorem Opens.unique {indent indent' : Nat} {lead lead' : Lead} {lines : List FilledRow}
    (opens : Opens indent lead lines) (opens' : Opens indent' lead' lines) : lead = lead' := by
  obtain ⟨tokens, rest, rfl, leads⟩ := opens
  obtain ⟨tokens', rest', same, leads'⟩ := opens'
  cases same
  exact leads.symm.trans leads'

theorem Opens.behindComments {indent : Nat} {lead : Lead} {lines : List FilledRow}
    (opens : Opens indent lead lines) : behindComments lines = lines := by
  obtain ⟨tokens, rest, rfl, _⟩ := opens
  rfl

theorem Opens.frontComments {indent : Nat} {lead : Lead} {lines : List FilledRow}
    (opens : Opens indent lead lines) : frontComments lines = [] := by
  obtain ⟨tokens, rest, rfl, _⟩ := opens
  rfl

theorem Opens.not_ends {indent : Nat} {lead : Lead} {lines : List FilledRow}
    (opens : Opens indent lead lines) : ¬Ends indent lines := by
  obtain ⟨tokens, rest, rfl, _⟩ := opens
  exact fun ends => Nat.lt_irrefl _ (ends.1 _ rfl)

theorem Opens.not_comment {indent : Nat} {lead : Lead} {line : FilledRow} {lines : List FilledRow}
    {tree : RawTree} (opens : Opens indent lead (line :: lines))
    (isComment : line.comment? = some tree) : False := by
  obtain ⟨tokens, rest, same, _⟩ := opens
  obtain ⟨rfl, _⟩ := List.cons.inj same
  cases isComment

theorem leadOf_decorator {sign : Token} {words : List Token} (marks : sign.isMark "@" = true) :
    leadOf (sign :: words) = .decorator := by
  rw [Token.eq_of_isMark marks]
  rfl

theorem decorator_opens {indent : Nat} {sign : Token} {words : List Token} {lines : List FilledRow}
    (marks : sign.isMark "@" = true) :
    Opens indent .decorator (⟨indent, .words (sign :: words)⟩ :: lines) :=
  ⟨_, _, rfl, leadOf_decorator marks⟩

theorem Simple.not_decorator {lead : Lead} {sign : Token} {words : List Token} {tree : RawTree}
    (marks : sign.isMark "@" = true) (simple : Simple lead (sign :: words) tree) : False := by
  have leads := simple.lead
  rw [leadOf_decorator marks] at leads
  rw [← leads] at simple
  cases simple

variable {indent : Nat} {lines rest : List FilledRow} {trees : List RawTree}

theorem Simple.not_clause {lead : Lead} {tokens : List Token} {tree : RawTree} {clause : Clause}
    (simple : Simple lead tokens tree)
    (opens : Opens indent (.clause clause) (⟨indent, .words tokens⟩ :: lines)) : False := by
  have same := opens.unique ⟨_, _, rfl, simple.lead⟩
  rw [← same] at simple
  cases simple

theorem words_inj {sign sign' : Token} {words words' : List Token} {lines lines' : List FilledRow}
    (same : (⟨indent, .words (sign :: words)⟩ : FilledRow) :: lines =
      ⟨indent, .words (sign' :: words')⟩ :: lines') :
    sign = sign' ∧ words = words' ∧ lines = lines' := by
  simp only [List.cons.injEq, FilledRow.mk.injEq, Content.words.injEq, true_and] at same
  exact ⟨same.1.1, same.1.2, same.2⟩

theorem Builds.clause_opens {clause : Clause}
    (builds : Builds (.clause clause) indent lines trees rest) :
    Opens indent (.clause clause) lines := by
  cases builds with
  | suite begins _ _ _ => exact ⟨_, _, rfl, begins.lead⟩

theorem Builds.statement_opens (builds : Builds .statement indent lines trees rest) :
    ∃ lead, Opens indent lead lines := by
  cases builds with
  | simple simple => exact ⟨_, _, _, rfl, simple.lead⟩
  | compound _ inner => exact ⟨_, inner.clause_opens⟩
  | conditional first _ => exact ⟨_, first.clause_opens⟩
  | decorated marks _ _ => exact ⟨_, decorator_opens marks⟩

theorem Builds.statement_not_ends (builds : Builds .statement indent lines trees rest) :
    ¬Ends indent lines := by
  obtain ⟨_, opens⟩ := builds.statement_opens
  exact opens.not_ends

theorem Builds.statement_not_comment {line : FilledRow} {tree : RawTree}
    (builds : Builds .statement indent (line :: lines) trees rest)
    (isComment : line.comment? = some tree) : False := by
  obtain ⟨_, opens⟩ := builds.statement_opens
  exact opens.not_comment isComment

theorem Header.continues {clause : Clause} {tokens : List Token} {header : List RawTree}
    (begins : Header clause tokens header)
    (carriesOn : clause = .alternative ∨ clause = .otherwise) :
    (⟨indent, .words tokens⟩ : FilledRow).continues = true := by
  cases begins with
  | condition holds begins _ _ =>
      rcases carriesOn with rfl | rfl
      · exact Bool.or_eq_true_iff.2 (.inl begins)
      · cases holds
  | otherwise begins _ => exact Bool.or_eq_true_iff.2 (.inr begins)
  | loop | function | classBody => rcases carriesOn with same | same <;> cases same

theorem NotContinued.no_branch {clause : Clause} (last : NotContinued indent lines)
    (builds : Builds (.clause clause) indent (behindComments lines) trees rest)
    (carriesOn : clause = .alternative ∨ clause = .otherwise) : False := by
  generalize behind : behindComments lines = branch at builds
  cases builds with
  | suite begins _ _ _ =>
      have ends := last _ (by rw [behind]; rfl) rfl
      rw [begins.continues carriesOn] at ends
      cases ends

section Inversion

variable {line : FilledRow} {tokens : List Token} {tree : RawTree} {lead : Lead} {clause : Clause}

theorem Builds.done_inv (ends : Ends indent lines)
    (builds : Builds .block indent lines trees rest) : trees = [] ∧ rest = lines := by
  cases builds with
  | done => exact ⟨rfl, rfl⟩
  | comment _ goesOn _ => exact absurd ends goesOn
  | statement first _ => exact absurd ends first.statement_not_ends

theorem Builds.comment_inv (isComment : line.comment? = some tree)
    (goesOn : ¬Ends indent (line :: lines))
    (builds : Builds .block indent (line :: lines) trees rest) :
    ∃ others, trees = tree :: others ∧ Builds .block indent lines others rest := by
  cases builds with
  | done ends => exact absurd ends goesOn
  | comment isComment' _ later =>
      rw [isComment] at isComment'
      cases isComment'
      exact ⟨_, rfl, later⟩
  | statement first _ => exact (first.statement_not_comment isComment).elim

theorem Builds.statement_inv (opens : Opens indent lead lines)
    (builds : Builds .block indent lines trees rest) :
    ∃ tree others middle, trees = tree :: others ∧
      Builds .statement indent lines [tree] middle ∧ Builds .block indent middle others rest := by
  cases builds with
  | done ends => exact absurd ends opens.not_ends
  | comment isComment _ _ => exact (opens.not_comment isComment).elim
  | statement first later => exact ⟨_, _, _, rfl, first, later⟩

theorem Builds.simple_inv (simple : Simple lead tokens tree)
    (builds : Builds .statement indent (⟨indent, .words tokens⟩ :: lines) trees rest) :
    trees = [tree] ∧ rest = lines := by
  cases builds with
  | simple simple' => exact ⟨by rw [simple.unique simple'], rfl⟩
  | compound _ inner => exact (simple.not_clause inner.clause_opens).elim
  | conditional first _ => exact (simple.not_clause first.clause_opens).elim
  | decorated marks _ _ => exact (simple.not_decorator marks).elim

theorem Builds.compound_inv (alone : clause.standsAlone = true)
    (opens : Opens indent (.clause clause) lines)
    (builds : Builds .statement indent lines trees rest) :
    ∃ children, trees = [node clause.nodeName children] ∧
      Builds (.clause clause) indent lines children rest := by
  cases builds with
  | simple simple => exact (simple.not_clause opens).elim
  | compound _ inner =>
      cases opens.unique inner.clause_opens
      exact ⟨_, rfl, inner⟩
  | conditional first _ =>
      cases opens.unique first.clause_opens
      cases alone
  | decorated marks _ _ => cases opens.unique (decorator_opens marks)

theorem Builds.conditional_inv (opens : Opens indent (.clause .conditional) lines)
    (builds : Builds .statement indent lines trees rest) :
    ∃ children others middle,
      trees = [node Clause.conditional.nodeName (children ++ others)] ∧
      Builds (.clause .conditional) indent lines children middle ∧
      Builds .alternatives indent middle others rest := by
  cases builds with
  | simple simple => exact (simple.not_clause opens).elim
  | compound alone inner =>
      cases opens.unique inner.clause_opens
      cases alone
  | conditional first others => exact ⟨_, _, _, rfl, first, others⟩
  | decorated marks _ _ => cases opens.unique (decorator_opens marks)

theorem Builds.decorated_inv {sign : Token} {words : List Token} (marks : sign.isMark "@" = true)
    (builds : Builds .statement indent (⟨indent, .words (sign :: words)⟩ :: lines) trees rest) :
    ∃ value children, trees = [node "decorated_definition" (decoratorNode sign value :: children)] ∧
      Derives (.at .or) words value ∧ Builds .decorated indent lines children rest := by
  generalize whole : (⟨indent, .words (sign :: words)⟩ : FilledRow) :: lines = all at builds
  cases builds with
  | simple simple =>
      cases whole
      exact (simple.not_decorator marks).elim
  | compound _ inner => cases inner.clause_opens.unique (whole ▸ decorator_opens marks)
  | conditional first _ => cases first.clause_opens.unique (whole ▸ decorator_opens marks)
  | decorated _ derives inner =>
      obtain ⟨rfl, rfl, rfl⟩ := words_inj whole
      exact ⟨_, _, rfl, derives, inner⟩

theorem Builds.decorator_inv {sign : Token} {words : List Token} (marks : sign.isMark "@" = true)
    (builds : Builds .decorated indent (⟨indent, .words (sign :: words)⟩ :: lines) trees rest) :
    ∃ value children, trees = decoratorNode sign value :: children ∧
      Derives (.at .or) words value ∧ Builds .decorated indent lines children rest := by
  generalize whole : (⟨indent, .words (sign :: words)⟩ : FilledRow) :: lines = all at builds
  cases builds with
  | decorator _ derives inner =>
      obtain ⟨rfl, rfl, rfl⟩ := words_inj whole
      exact ⟨_, _, rfl, derives, inner⟩
  | definition _ inner => cases inner.clause_opens.unique (whole ▸ decorator_opens marks)

theorem Builds.definition_inv (opens : Opens indent (.clause clause) lines)
    (builds : Builds .decorated indent lines trees rest) :
    ∃ children, trees = [(node clause.nodeName children).inField "definition"] ∧
      Builds (.clause clause) indent lines children rest := by
  cases builds with
  | decorator marks _ _ => cases opens.unique (decorator_opens marks)
  | definition _ inner =>
      cases opens.unique inner.clause_opens
      exact ⟨_, rfl, inner⟩

theorem Builds.suite_inv
    (builds : Builds (.clause clause) indent (⟨indent, .words tokens⟩ :: lines) trees rest) :
    ∃ header inner body, Header clause tokens header ∧
      (behindComments lines).head?.map FilledRow.indent = some inner ∧
      Builds .block inner (behindComments lines) body rest ∧
      trees = header ++ (frontComments lines ++
        [(node "block" body).inField clause.bodyField]) := by
  cases builds with
  | suite begins _ first body => exact ⟨_, _, _, begins, first, body, rfl⟩

theorem Builds.finished_inv (last : NotContinued indent lines)
    (builds : Builds .alternatives indent lines trees rest) : trees = [] ∧ rest = lines := by
  cases builds with
  | finished => exact ⟨rfl, rfl⟩
  | alternative first _ => exact (last.no_branch first (.inl rfl)).elim
  | otherwise branch => exact (last.no_branch branch (.inr rfl)).elim

theorem Builds.alternative_inv
    (opens : Opens indent (.clause .alternative) (behindComments lines))
    (carriesOn : ¬NotContinued indent lines)
    (builds : Builds .alternatives indent lines trees rest) :
    ∃ children others middle,
      trees = frontComments lines ++
        (node Clause.alternative.nodeName children).inField "alternative" :: others ∧
      Builds (.clause .alternative) indent (behindComments lines) children middle ∧
      Builds .alternatives indent middle others rest := by
  cases builds with
  | finished last => exact absurd last carriesOn
  | alternative first others => exact ⟨_, _, _, rfl, first, others⟩
  | otherwise branch => cases opens.unique branch.clause_opens

theorem Builds.otherwise_inv
    (opens : Opens indent (.clause .otherwise) (behindComments lines))
    (carriesOn : ¬NotContinued indent lines)
    (builds : Builds .alternatives indent lines trees rest) :
    ∃ children,
      trees = frontComments lines ++
        [(node Clause.otherwise.nodeName children).inField "alternative"] ∧
      Builds (.clause .otherwise) indent (behindComments lines) children rest := by
  cases builds with
  | finished last => exact absurd last carriesOn
  | alternative first _ => cases opens.unique first.clause_opens
  | otherwise branch => exact ⟨_, rfl, branch⟩

end Inversion

/-- The rows determine what stands at their front, and what is left of them. -/
theorem Builds.unique {form : Form} (builds : Builds form indent lines trees rest)
    {trees' : List RawTree} {rest' : List FilledRow}
    (builds' : Builds form indent lines trees' rest') : trees = trees' ∧ rest = rest' := by
  -- The first row of the rows tells that the second derivation starts with the rule of the first.
  induction builds generalizing trees' rest' with
  | done ends =>
      obtain ⟨rfl, rfl⟩ := builds'.done_inv ends
      exact ⟨rfl, rfl⟩
  | comment isComment goesOn _ ih =>
      obtain ⟨_, rfl, later'⟩ := builds'.comment_inv isComment goesOn
      obtain ⟨rfl, rest⟩ := ih later'
      exact ⟨rfl, rest⟩
  | statement first later ih ih' =>
      obtain ⟨_, opens⟩ := first.statement_opens
      obtain ⟨_, _, _, rfl, first', later'⟩ := builds'.statement_inv opens
      obtain ⟨tree, rfl⟩ := ih first'
      obtain ⟨rfl, rest⟩ := ih' later'
      exact ⟨by rw [List.head_eq_of_cons_eq tree], rest⟩
  | simple simple =>
      obtain ⟨rfl, rfl⟩ := builds'.simple_inv simple
      exact ⟨rfl, rfl⟩
  | compound alone inner ih =>
      obtain ⟨_, rfl, inner'⟩ := builds'.compound_inv alone inner.clause_opens
      obtain ⟨rfl, rest⟩ := ih inner'
      exact ⟨rfl, rest⟩
  | conditional first _ ih ih' =>
      obtain ⟨_, _, _, rfl, first', others'⟩ := builds'.conditional_inv first.clause_opens
      obtain ⟨rfl, rfl⟩ := ih first'
      obtain ⟨rfl, rest⟩ := ih' others'
      exact ⟨rfl, rest⟩
  | decorated marks derives _ ih =>
      obtain ⟨_, _, rfl, derives', inner'⟩ := builds'.decorated_inv marks
      obtain ⟨rfl, rest⟩ := ih inner'
      exact ⟨by rw [derives.unique derives'], rest⟩
  | decorator marks derives _ ih =>
      obtain ⟨_, _, rfl, derives', inner'⟩ := builds'.decorator_inv marks
      obtain ⟨rfl, rest⟩ := ih inner'
      exact ⟨by rw [derives.unique derives'], rest⟩
  | definition _ inner ih =>
      obtain ⟨_, rfl, inner'⟩ := builds'.definition_inv inner.clause_opens
      obtain ⟨rfl, rest⟩ := ih inner'
      exact ⟨rfl, rest⟩
  | suite begins _ first _ ih =>
      obtain ⟨_, _, _, begins', first', body', rfl⟩ := builds'.suite_inv
      rw [first, Option.some.injEq] at first'
      subst first'
      obtain ⟨rfl, rest⟩ := ih body'
      exact ⟨by rw [begins.unique begins'], rest⟩
  | finished last =>
      obtain ⟨rfl, rfl⟩ := builds'.finished_inv last
      exact ⟨rfl, rfl⟩
  | alternative first _ ih ih' =>
      obtain ⟨_, _, _, rfl, first', others'⟩ := builds'.alternative_inv first.clause_opens
        fun last => last.no_branch first (.inl rfl)
      obtain ⟨rfl, rfl⟩ := ih first'
      obtain ⟨rfl, rest⟩ := ih' others'
      exact ⟨rfl, rest⟩
  | otherwise branch ih =>
      obtain ⟨_, rfl, branch'⟩ := builds'.otherwise_inv branch.clause_opens
        fun last => last.no_branch branch (.inr rfl)
      obtain ⟨rfl, rest⟩ := ih branch'
      exact ⟨rfl, rest⟩

theorem ParsesModule.unique {alphabet : Alphabet} {text : String} {tree other : RawTree}
    (parses : ParsesModule alphabet text tree) (parses' : ParsesModule alphabet text other) :
    other = tree := by
  obtain ⟨lines, trees, read, builds, rfl⟩ := parses
  obtain ⟨lines', trees', read', builds', rfl⟩ := parses'
  obtain rfl := read.unique read'
  rw [(builds.unique builds').1]

end Blocks

end Grammar

end NumericPython

import NumericPython.Proofs.Grammar.Chains

set_option autoImplicit false

namespace NumericPython

namespace Precedence

def next : Precedence → Precedence
  | or => and
  | and => not
  | not => comparison
  | comparison => sum
  | sum => product
  | product => unary
  | unary => power
  | power => atom
  | atom => atom

theorem rank_next {p : Precedence} (notAtom : p ≠ atom) : p.next.rank = p.rank + 1 := by
  revert notAtom
  cases p <;> decide

theorem rank_le (p : Precedence) : p.rank ≤ 9 := by
  cases p <;> decide

end Precedence

namespace Grammar

def expect (text : String) : List Token → Option (Token × List Token)
  | [] => none
  | token :: rest => if token.isMark text then some (token, rest) else none

def Token.begins (p : Precedence) (token : Token) : Bool :=
  token.isOperand || token.isMark "(" || (token.isMark "-" && p ≤ .unary) ||
    (token.isMark "not" && p ≤ .not)

mutual

/-- Reads an expression on level `p` from the front of a list of words. A reading that takes no word
is given up. -/
def parseAt (p : Precedence) (tokens : List Token) : Option (RawTree × List Token) :=
  if p = .not then
    match tokens with
    | [] => none
    | token :: rest =>
      if token.isMark "not" then do
        let (argument, rest) ← parseAt .not rest
        some (prefixedNode "not_operator" token.leaf argument, rest)
      else parseAt .comparison (token :: rest)
  else if p = .unary then
    match tokens with
    | [] => none
    | token :: rest =>
      if token.isMark "-" then do
        let (argument, rest) ← parseAt .unary rest
        some (prefixedNode "unary_operator" (token.leaf.inField "operator") argument, rest)
      else parseAt .power (token :: rest)
  else if p = .atom then do
    let (operand, rest) ← parseOperand tokens
    if rest.length < tokens.length then resume .atom operand rest else none
  else do
    let (left, rest) ← parseAt p.next tokens
    if rest.length < tokens.length then resume p left rest else none
termination_by (tokens.length, 11 - p.rank)
decreasing_by
  · decreasing_tactic
  · subst_vars
    exact .right _ (by decide)
  · decreasing_tactic
  · subst_vars
    exact .right _ (by decide)
  · subst_vars
    exact .right _ (by decide)
  · decreasing_tactic
  · next notAtom =>
      have bound := p.rank_le
      apply Prod.Lex.right
      rw [Precedence.rank_next notAtom]
      omega
  · decreasing_tactic

def resume (p : Precedence) (left : RawTree) (tokens : List Token) : Option (RawTree × List Token) :=
  match tokens with
  | [] => some (left, [])
  | operator :: rest =>
    if operator.level? = some p then
      match p with
      | .comparison => do
        let (links, rest) ← parseLinks (·.level? = some .comparison) (.at .sum) (operator :: rest)
        some (comparisonNode ⟨left, links⟩, rest)
      | .power => do
        let (right, rest) ← parseAt .unary rest
        some (operationNode "binary_operator" left operator right, rest)
      | .atom =>
        if operator.isMark "(" then do
          let (arguments, after) ← parseItems ")" rest
          let (closing, after) ← expect ")" after
          if after.length < rest.length then
            resume .atom (callNode left operator arguments closing) after
          else none
        else if operator.isMark "[" then do
          let (first, after) ← parsePhrase .index rest
          if after.length < rest.length then do
            let (more, after) ← parseLinks (·.isMark ",") .index after
            let (closing, after) ← expect "]" after
            if after.length < rest.length then
              resume .atom (subscriptNode left operator ⟨first, more⟩ closing) after
            else none
          else none
        else
          match rest with
          | [] => none
          | name :: rest => resume .atom (attributeNode left operator name) rest
      | p =>
        match leftGrouping? p with
        | none => none
        | some kind => do
          let (right, after) ← parseAt p.next rest
          if after.length < rest.length then resume p (operationNode kind left operator right) after
          else none
    else some (left, operator :: rest)
termination_by (tokens.length, 1)

def parseOperand (tokens : List Token) : Option (RawTree × List Token) :=
  match tokens with
  | [] => none
  | token :: rest =>
    if token.isOperand then some (token.leaf, rest)
    else if token.isMark "(" then do
      let (items, rest) ← parseItems ")" rest
      match items with
      | some ⟨first, []⟩ =>
        match rest with
        | [] => none
        | closing :: rest =>
          if closing.isMark ")" then
            some (bracketedNode "parenthesized_expression" token [first] closing, rest)
          else do
            let (comma, rest) ← expect "," (closing :: rest)
            let (closing, rest) ← expect ")" rest
            some (bracketedNode "tuple" token [first, comma.leaf] closing, rest)
      | items => do
        let (closing, rest) ← expect ")" rest
        some (bracketedNode "tuple" token (itemNodes items) closing, rest)
    else none
termination_by (tokens.length, 0)

def parseItems (closing : String) (tokens : List Token) : Option (Option (Chain RawTree) × List Token) :=
  match tokens with
  | [] => none
  | token :: rest =>
    if token.isMark closing then some (none, token :: rest)
    else do
      let (first, after) ← parsePhrase (.at .or) (token :: rest)
      if after.length ≤ rest.length then do
        let (more, after) ← parseLinks (·.isMark ",") (.at .or) after
        some (some ⟨first, more⟩, after)
      else none
termination_by (tokens.length, 14)

def parseLinks (separates : Token → Bool) (phrase : Phrase) (tokens : List Token) :
    Option (List (Token × RawTree) × List Token) :=
  -- A separator in front of a closing parenthesis is left where it is.
  match tokens with
  | separator :: token :: rest =>
    if separates separator && !token.isMark ")" then do
      let (tree, after) ← parsePhrase phrase (token :: rest)
      if after.length ≤ rest.length then do
        let (links, after) ← parseLinks separates phrase after
        some ((separator, tree) :: links, after)
      else none
    else some ([], separator :: token :: rest)
  | tokens => some ([], tokens)
termination_by (tokens.length, 0)

def parsePhrase (phrase : Phrase) (tokens : List Token) : Option (RawTree × List Token) :=
  match phrase with
  | .at p => parseAt p tokens
  | .index => do
    let (start, rest) ← parsePart tokens
    match rest with
    | colon :: rest =>
      if colon.isMark ":" then
        if rest.length < tokens.length then do
          let (stop, after) ← parsePart rest
          match after with
          | colon' :: after =>
            if colon'.isMark ":" then
              if after.length < rest.length then do
                let (step, after) ← parsePart after
                some (sliceNode start colon stop (some (colon', step)), after)
              else none
            else some (sliceNode start colon stop none, colon' :: after)
          | [] => some (sliceNode start colon stop none, [])
        else none
      else start.map fun tree => (tree, colon :: rest)
    | [] => start.map fun tree => (tree, [])
termination_by (tokens.length, 13)

def parsePart (tokens : List Token) : Option (Option RawTree × List Token) :=
  match tokens with
  | [] => some (none, [])
  | token :: rest =>
    if token.begins .or then do
      let (tree, rest) ← parseAt .or (token :: rest)
      some (some tree, rest)
    else some (none, token :: rest)
termination_by (tokens.length, 12)

end

def Token.Closes (token : Token) : Prop :=
  -- The word neither carries on an expression nor begins one.
  token.level? = none ∧ token.begins .or = false ∧ token.isMark ":" = false

theorem Token.closes_of_isMark {token : Token}
    (isMark : token.isMark ")" = true ∨ token.isMark "]" = true ∨ token.isMark "," = true) :
    token.Closes := by
  rcases isMark with isMark | isMark | isMark <;>
    · rw [Token.eq_of_isMark isMark]
      exact ⟨rfl, rfl, rfl⟩

theorem Token.begins_mono {p q : Precedence} (le : p ≤ q) {token : Token}
    (begins : token.begins q = true) : token.begins p = true := by
  have trans {r : Precedence} (below : q ≤ r) : p ≤ r := Nat.le_trans le below
  simp only [Token.begins, Bool.or_eq_true, Bool.and_eq_true, decide_eq_true_eq] at begins ⊢
  rcases begins with ((operand | opens) | ⟨sign, level⟩) | ⟨keyword, level⟩
  · exact .inl (.inl (.inl operand))
  · exact .inl (.inl (.inr opens))
  · exact .inl (.inr ⟨sign, trans level⟩)
  · exact .inr ⟨keyword, trans level⟩

def Phrase.begins : Phrase → Token → Bool
  | .at p, token => token.begins p
  | .index, token => token.begins .or || token.isMark ":"

theorem Phrase.isMark_of_begins {phrase : Phrase} {token : Token}
    (begins : phrase.begins token = true) : token.isMark ")" = false := by
  refine Bool.eq_false_iff.2 fun isMark => ?_
  rw [Token.eq_of_isMark isMark] at begins
  cases phrase <;> cases begins

theorem Token.level_ne {token : Token} {p : Precedence} (level : token.level? = some p) :
    p ≠ .not ∧ p ≠ .unary := by
  have all : ∀ entry ∈ levels, entry.2 ≠ .not ∧ entry.2 ≠ .unary := by decide
  unfold Token.level? at level
  split at level
  · obtain ⟨text, _, found⟩ := List.lookup_eq_some_iff.1 level
    exact all (token.text, p) (by rw [found.1]; simp)
  · cases level

theorem Derives.head {phrase : Phrase} {tokens : List Token} {tree : RawTree}
    (derives : Derives phrase tokens tree) :
    ∃ token rest, tokens = token :: rest ∧ phrase.begins token = true := by
  induction derives with
  | weaken le inner ih =>
      obtain ⟨token, rest, same, begins⟩ := ih
      exact ⟨token, rest, same, Token.begins_mono le begins⟩
  | binary _ _ _ _ _ before _ =>
      obtain ⟨token, rest, same, begins⟩ := before
      exact ⟨token, _, by rw [same]; rfl, begins⟩
  | @not operator argument keyword _ _ =>
      have same : (.not : Precedence) ≤ .not := Nat.le_refl _
      exact ⟨operator, _, rfl, by simp [Phrase.begins, Token.begins, keyword, same]⟩
  | @comparison chain _ _ operands ih =>
      -- The first word of a chain is that of its first operand.
      obtain ⟨token, rest, same, begins⟩ := ih chain.first (.head _)
      refine ⟨token, rest ++ (chain.map Part.tokens).more.flatMap fun link => link.1 :: link.2, ?_,
        Token.begins_mono (by decide) begins⟩
      rw [Chain.tokens, Chain.map, same]
      rfl
  | @negation operator argument sign _ _ =>
      have same : (.unary : Precedence) ≤ .unary := Nat.le_refl _
      exact ⟨operator, _, rfl, by simp [Phrase.begins, Token.begins, sign, same]⟩
  | power _ _ _ before _ =>
      obtain ⟨token, rest, same, begins⟩ := before
      exact ⟨token, _, by rw [same]; rfl, Token.begins_mono (by decide) begins⟩
  | operand isOperand => exact ⟨_, _, rfl, by simp [Phrase.begins, Token.begins, isOperand]⟩
  | group opens _ _ _ => exact ⟨_, _, rfl, by simp [Phrase.begins, Token.begins, opens]⟩
  | singleton opens _ _ _ _ => exact ⟨_, _, rfl, by simp [Phrase.begins, Token.begins, opens]⟩
  | tuple opens _ _ _ _ _ => exact ⟨_, _, rfl, by simp [Phrase.begins, Token.begins, opens]⟩
  | call _ _ _ _ _ before _ =>
      obtain ⟨token, rest, same, begins⟩ := before
      exact ⟨token, _, by rw [same]; rfl, begins⟩
  | subscript _ _ _ _ _ before _ =>
      obtain ⟨token, rest, same, begins⟩ := before
      exact ⟨token, _, by rw [same]; rfl, begins⟩
  | attributeAccess _ _ _ before =>
      obtain ⟨token, rest, same, begins⟩ := before
      exact ⟨token, _, by rw [same]; rfl, begins⟩
  | element _ ih =>
      obtain ⟨token, rest, same, begins⟩ := ih
      exact ⟨token, rest, same, Bool.or_eq_true_iff.2 (.inl begins)⟩
  | @slice start stop colon step separates _ _ _ _ ih _ _ =>
      cases start with
      | none =>
          -- Without a start the slice begins with its colon.
          exact ⟨colon, _, rfl, Bool.or_eq_true_iff.2 (.inr separates)⟩
      | some part =>
          obtain ⟨token, rest, same, begins⟩ := ih part rfl
          rw [Part.optionalTokens, Option.map_some, Option.getD_some, same, List.cons_append]
          exact ⟨token, _, rfl, Bool.or_eq_true_iff.2 (.inl begins)⟩

theorem length_lt_cons_append (token : Token) (others rest : List Token) :
    rest.length < (token :: others ++ rest).length := by
  simp only [List.length_append, List.length_cons]
  omega

theorem length_lt_append_cons (before : List Token) (token : Token) (rest : List Token) :
    rest.length < (before ++ token :: rest).length := by
  simp only [List.length_append, List.length_cons]
  omega

theorem Derives.length_lt {phrase : Phrase} {tokens : List Token} {tree : RawTree}
    (derives : Derives phrase tokens tree) (rest : List Token) :
    rest.length < (tokens ++ rest).length := by
  obtain ⟨token, others, rfl, _⟩ := derives.head
  exact length_lt_cons_append token others rest

/-- Whether a word behind an expression on level `p` leaves that expression as it is, but for longer
ones on the same level. -/
def Allows (p : Precedence) (rest : List Token) : Prop :=
  ∀ token ∈ rest.head?, ∀ q, token.level? = some q →
    q < p ∨ (q = p ∧ ((leftGrouping? p).isSome = true ∨ p = .atom))

theorem Allows.of_lt {p q : Precedence} (lt : p < q) {rest : List Token}
    (allows : Allows p rest) : ∀ token ∈ rest.head?, ∀ r, token.level? = some r → r < q := by
  intro token first r level
  rcases allows token first r level with lower | ⟨same, _⟩
  · exact Nat.lt_trans lower lt
  · rw [same]
    exact lt

theorem resume_of_other {p : Precedence} {rest : List Token}
    (other : ∀ token ∈ rest.head?, token.level? ≠ some p) (tree : RawTree) :
    resume p tree rest = some (tree, rest) := by
  rw [resume.eq_def]
  rcases rest with _ | ⟨token, rest⟩
  · rfl
  · simp only [other token rfl, if_false]

theorem resume_of_lt {p : Precedence} {rest : List Token}
    (lower : ∀ token ∈ rest.head?, ∀ r, token.level? = some r → r < p) (tree : RawTree) :
    resume p tree rest = some (tree, rest) :=
  resume_of_other (fun token first level => Nat.lt_irrefl _ (lower token first p level)) tree

/-- The parser reads the words of a phrase and leaves what is behind them. -/
def Complete : Phrase → List Token → RawTree → Prop
  | .at p, tokens, tree => ∀ rest, Allows p rest → parseAt p (tokens ++ rest) = resume p tree rest
  | .index, tokens, tree => ∀ rest, (∀ token ∈ rest.head?, token.Closes) →
      parsePhrase .index (tokens ++ rest) = some (tree, rest)

theorem parseAt_of_read {p : Precedence} (notNot : p ≠ .not) (notUnary : p ≠ .unary)
    (notAtom : p ≠ .atom) {tokens rest : List Token} {left : RawTree}
    (reads : parseAt p.next tokens = some (left, rest)) (shorter : rest.length < tokens.length) :
    parseAt p tokens = resume p left rest := by
  rw [parseAt.eq_def]
  simp only [notNot, notUnary, notAtom, if_false, reads, Option.bind_eq_bind, Option.bind_some,
    shorter, if_true]

theorem parseAt_atom_of_read {tokens rest : List Token} {operand : RawTree}
    (reads : parseOperand tokens = some (operand, rest)) (shorter : rest.length < tokens.length) :
    parseAt .atom tokens = resume .atom operand rest := by
  rw [parseAt.eq_def]
  simp only [reduceCtorEq, if_false, if_true, reads, Option.bind_eq_bind, Option.bind_some, shorter]

theorem Complete.step {p : Precedence} {tokens : List Token} {tree : RawTree}
    (notAtom : p ≠ .atom) (complete : Complete (.at p.next) tokens tree)
    (head : ∃ token rest, tokens = token :: rest ∧ token.begins p.next = true) :
    Complete (.at p) tokens tree := by
  intro rest allows
  have lt : p < p.next := by
    revert notAtom
    cases p <;> decide
  have lower := allows.of_lt lt
  have inner : parseAt p.next (tokens ++ rest) = some (tree, rest) := by
    rw [complete rest fun token first q level => .inl (lower token first q level),
      resume_of_lt lower]
  obtain ⟨token, others, rfl, begins⟩ := head
  by_cases levels : p = .not ∨ p = .unary
  · -- On these levels the parser first looks for an operator in front.
    have none_here (tree : RawTree) : resume p tree rest = some (tree, rest) := by
      refine resume_of_other (fun token _ level => ?_) tree
      have other := Token.level_ne level
      rcases levels with rfl | rfl
      · exact other.1 rfl
      · exact other.2 rfl
    rw [none_here, ← inner, parseAt.eq_def p]
    rcases levels with rfl | rfl
    · have notKeyword : token.isMark "not" = false := by
        refine Bool.eq_false_iff.2 fun isMark => ?_
        rw [Token.eq_of_isMark isMark] at begins
        cases begins
      simp only [List.cons_append, notKeyword, Bool.false_eq_true, if_false]
      rfl
    · have notSign : token.isMark "-" = false := by
        refine Bool.eq_false_iff.2 fun isMark => ?_
        rw [Token.eq_of_isMark isMark] at begins
        cases begins
      simp only [List.cons_append, notSign, Bool.false_eq_true, if_false]
      rfl
  · -- On the others it reads an operand of the next level and goes on.
    rw [not_or] at levels
    exact parseAt_of_read levels.1 levels.2 notAtom inner (length_lt_cons_append _ _ _)

theorem Complete.weaken {p q : Precedence} {tokens : List Token} {tree : RawTree} (le : p ≤ q)
    (complete : Complete (.at q) tokens tree)
    (head : ∃ token rest, tokens = token :: rest ∧ token.begins q = true) :
    Complete (.at p) tokens tree := by
  obtain ⟨distance, measure⟩ : ∃ distance, q.rank - p.rank = distance := ⟨_, rfl⟩
  induction distance generalizing p with
  | zero =>
      have same : p.rank = q.rank := Nat.le_antisymm le (Nat.sub_eq_zero_iff_le.1 measure)
      rwa [Precedence.rank_injective same]
  | succ distance ih =>
      have notAtom : p ≠ .atom := by
        rintro rfl
        have top := q.rank_le
        have nine : Precedence.atom.rank = 9 := rfl
        omega
      have next := Precedence.rank_next notAtom
      have le' : p.next ≤ q := by
        have bound : p.next.rank ≤ q.rank := by omega
        exact bound
      obtain ⟨token, rest, same, begins⟩ := head
      exact (ih le' (by omega)).step notAtom ⟨token, rest, same, Token.begins_mono le' begins⟩

theorem Complete.read {p : Precedence} {tokens rest : List Token} {tree : RawTree}
    (complete : Complete (.at p) tokens tree)
    (lower : ∀ token ∈ rest.head?, ∀ r, token.level? = some r → r < p) :
    parseAt p (tokens ++ rest) = some (tree, rest) := by
  rw [complete rest fun token first q level => .inl (lower token first q level),
    resume_of_lt lower]

theorem Complete.read_of_closes {phrase : Phrase} {tokens rest : List Token} {tree : RawTree}
    (complete : Complete phrase tokens tree) (closes : ∀ token ∈ rest.head?, token.Closes) :
    parsePhrase phrase (tokens ++ rest) = some (tree, rest) := by
  cases phrase with
  | «at» p =>
      rw [parsePhrase.eq_def]
      refine complete.read fun token first q level => ?_
      rw [(closes token first).1] at level
      cases level
  | index => exact complete rest closes

def linkTokens (more : List (Token × Part)) : List Token :=
  more.flatMap fun link => link.1 :: link.2.tokens

theorem Chain.tokens_map (chain : Chain Part) :
    (chain.map Part.tokens).tokens = chain.first.tokens ++ linkTokens chain.more := by
  simp [Chain.map, Chain.tokens, linkTokens, List.flatMap_map]

theorem parseLinks_stop {separates : Token → Bool} {phrase : Phrase} {rest : List Token}
    (stop : ∀ token ∈ rest.head?, separates token = false) :
    parseLinks separates phrase rest = some ([], rest) := by
  rw [parseLinks.eq_def]
  rcases rest with _ | ⟨token, _ | ⟨token', rest⟩⟩
  · rfl
  · rfl
  · simp only [stop token rfl, Bool.false_and, Bool.false_eq_true, if_false]

theorem parseLinks_linkTokens {separates : Token → Bool} {phrase : Phrase}
    {Behind : Token → Prop} {more : List (Token × Part)} {rest : List Token}
    (separators : ∀ link ∈ more, separates link.1 = true ∧ Behind link.1)
    (derives : ∀ link ∈ more, Derives phrase link.2.tokens link.2.tree)
    (reads : ∀ link ∈ more, ∀ rest, (∀ token ∈ rest.head?, Behind token) →
      parsePhrase phrase (link.2.tokens ++ rest) = some (link.2.tree, rest))
    (behind : ∀ token ∈ rest.head?, Behind token)
    (stop : parseLinks separates phrase rest = some ([], rest)) :
    parseLinks separates phrase (linkTokens more ++ rest) =
      some (more.map fun link => (link.1, link.2.tree), rest) := by
  induction more with
  | nil => exact stop
  | cons link more ih =>
      obtain ⟨token, others, words, begins⟩ := (derives link (.head _)).head
      have later := ih (fun link member => separators link (.tail _ member))
        (fun link member => derives link (.tail _ member))
        (fun link member => reads link (.tail _ member))
      have next : ∀ token ∈ (linkTokens more ++ rest).head?, Behind token := by
        cases more with
        | nil => exact behind
        | cons link' more =>
            intro token first
            cases first
            exact (separators link' (.tail _ (.head _))).2
      have here := reads link (.head _) _ next
      have shorter : (linkTokens more ++ rest).length ≤
          (others ++ (linkTokens more ++ rest)).length := by
        simp only [List.length_append]
        omega
      have text : linkTokens (link :: more) ++ rest =
          link.1 :: (link.2.tokens ++ (linkTokens more ++ rest)) := by
        simp [linkTokens]
      rw [text]
      rw [words, List.cons_append] at here ⊢
      rw [parseLinks.eq_def]
      simp only [(separators link (.head _)).1, Phrase.isMark_of_begins begins, Bool.not_false,
        Bool.and_true, if_true, here, shorter, later, Option.bind_eq_bind, Option.bind_some,
        List.map_cons]

theorem complete_binary {p q : Precedence} {kind : String} {left right : Part} {operator : Token}
    (groups : leftGrouping? p = some kind) (level : operator.level? = some p) (lt : p < q)
    (derives : Derives (.at q) right.tokens right.tree)
    (before : Complete (.at p) left.tokens left.tree)
    (behind : Complete (.at q) right.tokens right.tree) :
    Complete (.at p) (left.tokens ++ operator :: right.tokens)
      (operationNode kind left.tree operator right.tree) := by
  intro rest allows
  have next : p < p.next ∧ p.next ≤ q := by
    cases p <;> first | (cases groups; done) | exact ⟨by decide, Nat.succ_le_of_lt lt⟩
  have opens : Allows p (operator :: (right.tokens ++ rest)) := by
    intro token first r other
    cases first
    rw [level] at other
    cases other
    exact .inr ⟨rfl, .inl (by rw [groups]; rfl)⟩
  have operand := (behind.weaken next.2 derives.head).read (allows.of_lt next.1)
  rw [List.append_assoc, List.cons_append, before _ opens, resume.eq_def]
  simp only [level, if_true]
  cases p <;> cases groups <;>
    simp only [leftGrouping?, operand, Option.bind_eq_bind, Option.bind_some,
      derives.length_lt rest, if_true]

theorem complete_not {operator : Token} {argument : Part} (keyword : operator.isMark "not" = true)
    (behind : Complete (.at .not) argument.tokens argument.tree) :
    Complete (.at .not) (operator :: argument.tokens)
      (prefixedNode "not_operator" operator.leaf argument.tree) := by
  intro rest allows
  have none_here (tree : RawTree) : resume .not tree rest = some (tree, rest) :=
    resume_of_other (fun token _ level => (Token.level_ne level).1 rfl) tree
  rw [none_here, parseAt.eq_def]
  simp only [List.cons_append, keyword, if_true, behind rest allows, none_here, Option.bind_eq_bind,
    Option.bind_some]

theorem complete_negation {operator : Token} {argument : Part} (sign : operator.isMark "-" = true)
    (behind : Complete (.at .unary) argument.tokens argument.tree) :
    Complete (.at .unary) (operator :: argument.tokens)
      (prefixedNode "unary_operator" (operator.leaf.inField "operator") argument.tree) := by
  intro rest allows
  have none_here (tree : RawTree) : resume .unary tree rest = some (tree, rest) :=
    resume_of_other (fun token _ level => (Token.level_ne level).2 rfl) tree
  rw [none_here, parseAt.eq_def]
  simp only [reduceCtorEq, if_false, List.cons_append, sign, if_true, behind rest allows, none_here,
    Option.bind_eq_bind, Option.bind_some]

theorem complete_comparison {chain : Chain Part} (some_more : chain.more ≠ [])
    (level : ∀ operator ∈ chain.separators, operator.level? = some .comparison)
    (derives : ∀ part ∈ chain.items, Derives (.at .sum) part.tokens part.tree)
    (operands : ∀ part ∈ chain.items, Complete (.at .sum) part.tokens part.tree) :
    Complete (.at .comparison) (chain.map Part.tokens).tokens
      (comparisonNode (chain.map Part.tree)) := by
  intro rest allows
  have behind : ∀ token ∈ rest.head?, ∀ r, token.level? = some r → r < .sum :=
    allows.of_lt (by decide)
  -- Behind a whole comparison stands no comparison operator: the chain would have gone on.
  have stop : ∀ token ∈ rest.head?, token.level? ≠ some .comparison := by
    intro token first same
    rcases allows token first _ same with lower | ⟨_, grouping | atom⟩
    · exact Nat.lt_irrefl _ lower
    · cases grouping
    · cases atom
  have item {link : Token × Part} (member : link ∈ chain.more) : link.2 ∈ chain.items :=
    .tail _ (List.mem_map_of_mem member)
  have separator {link : Token × Part} (member : link ∈ chain.more) :
      link.1.level? = some .comparison :=
    level _ (List.mem_map_of_mem member)
  have lower {link : Token × Part} (member : link ∈ chain.more) :
      ∀ r, link.1.level? = some r → r < .sum := by
    intro r same
    rw [separator member] at same
    cases same
    decide
  -- Each operand ends in front of the next operator, whose level is lower than that of a sum.
  have links := @parseLinks_linkTokens (·.level? = some .comparison) (.at .sum)
    (fun token => ∀ r, token.level? = some r → r < .sum) chain.more rest
    (fun link member => ⟨by simp [separator member], lower member⟩)
    (fun link member => derives _ (item member))
    (fun link member rest behind => by
      rw [parsePhrase.eq_def]
      exact (operands _ (item member)).read behind)
    behind (parseLinks_stop fun token first => by simp [stop token first])
  obtain ⟨first, more⟩ := chain
  rcases more with _ | ⟨link, more⟩
  · exact absurd rfl some_more
  · have start : parseAt .sum (first.tokens ++ (linkTokens (link :: more) ++ rest)) =
        some (first.tree, linkTokens (link :: more) ++ rest) := by
      refine (operands first (.head _)).read fun token first => ?_
      cases first
      exact lower (.head _)
    rw [Chain.tokens_map, List.append_assoc,
      parseAt_of_read (p := .comparison) (by decide) (by decide) (by decide) start
        ((derives first (.head _)).length_lt _), resume_of_other stop]
    have words : linkTokens (link :: more) ++ rest =
        link.1 :: (link.2.tokens ++ (linkTokens more ++ rest)) := by
      simp [linkTokens]
    rw [words] at links ⊢
    rw [resume.eq_def]
    simp only [separator (.head _), if_true, links, Option.bind_eq_bind, Option.bind_some]
    rfl

theorem complete_power {base exponent : Part} {operator : Token}
    (level : operator.level? = some .power) (basis : Derives (.at .atom) base.tokens base.tree)
    (before : Complete (.at .atom) base.tokens base.tree)
    (behind : Complete (.at .unary) exponent.tokens exponent.tree) :
    Complete (.at .power) (base.tokens ++ operator :: exponent.tokens)
      (operationNode "binary_operator" base.tree operator exponent.tree) := by
  intro rest allows
  have lower : ∀ token ∈ rest.head?, ∀ r, token.level? = some r → r < .unary := by
    intro token first r same
    have other := (Token.level_ne same).2
    rcases allows token first r same with lower | ⟨_, grouping | atom⟩
    · revert lower other
      cases r <;> decide
    · cases grouping
    · cases atom
  have left : parseAt .atom (base.tokens ++ operator :: (exponent.tokens ++ rest)) =
      some (base.tree, operator :: (exponent.tokens ++ rest)) := by
    refine before.read fun token first r same => ?_
    cases first
    rw [level] at same
    cases same
    decide
  have stays (tree : RawTree) : resume .power tree rest = some (tree, rest) :=
    resume_of_lt (fun token first r same => Nat.lt_trans (lower token first r same) (by decide)) tree
  rw [stays, List.append_assoc, List.cons_append,
    parseAt_of_read (p := .power) (by decide) (by decide) (by decide) left (basis.length_lt _),
    resume.eq_def]
  simp only [level, if_true, behind.read lower, Option.bind_eq_bind, Option.bind_some]

theorem complete_operand {token : Token} (isOperand : token.isOperand = true) :
    Complete (.at .atom) [token] token.leaf := by
  intro rest _
  refine parseAt_atom_of_read ?_ (length_lt_append_cons [] token rest)
  rw [parseOperand.eq_def]
  simp only [List.cons_append, List.nil_append, isOperand, if_true]

theorem Token.not_operand {token : Token} (opens : token.isMark "(" = true) :
    token.isOperand = false := by
  rw [Token.eq_of_isMark opens]
  rfl

theorem expect_mark {text : String} {token : Token} (isMark : token.isMark text = true)
    (rest : List Token) : expect text (token :: rest) = some (token, rest) := by
  simp [expect, isMark]

theorem parseItems_chain {chain : Chain Part} {rest : List Token}
    (separates : ∀ comma ∈ chain.separators, comma.isMark "," = true)
    (derives : ∀ part ∈ chain.items, Derives (.at .or) part.tokens part.tree)
    (inner : ∀ part ∈ chain.items, Complete (.at .or) part.tokens part.tree)
    (behind : ∀ token ∈ rest.head?, token.Closes)
    (stop : parseLinks (·.isMark ",") (.at .or) rest = some ([], rest)) :
    parseItems ")" ((chain.map Part.tokens).tokens ++ rest) =
      some (some (chain.map Part.tree), rest) := by
  have item {link : Token × Part} (member : link ∈ chain.more) : link.2 ∈ chain.items :=
    .tail _ (List.mem_map_of_mem member)
  have comma {link : Token × Part} (member : link ∈ chain.more) : link.1.isMark "," = true :=
    separates _ (List.mem_map_of_mem member)
  have links := @parseLinks_linkTokens (·.isMark ",") (.at .or) Token.Closes chain.more rest
    (fun link member => ⟨comma member, Token.closes_of_isMark (.inr (.inr (comma member)))⟩)
    (fun link member => derives _ (item member))
    (fun link member rest behind => (inner _ (item member)).read_of_closes behind) behind stop
  have next : ∀ token ∈ (linkTokens chain.more ++ rest).head?, token.Closes := by
    obtain ⟨_, _ | ⟨link, more⟩⟩ := chain
    · exact behind
    · intro token first
      cases first
      exact Token.closes_of_isMark (.inr (.inr (comma (.head _))))
  have start := (inner chain.first (.head _)).read_of_closes next
  obtain ⟨token, others, words, begins⟩ := (derives chain.first (.head _)).head
  rw [Chain.tokens_map, List.append_assoc]
  rw [words, List.cons_append] at start ⊢
  have shorter : (linkTokens chain.more ++ rest).length ≤
      (others ++ (linkTokens chain.more ++ rest)).length := by
    simp only [List.length_append]
    omega
  rw [parseItems.eq_def]
  simp only [Phrase.isMark_of_begins begins, Bool.false_eq_true, if_false, start, links, shorter,
    if_true, Option.bind_eq_bind, Option.bind_some]
  rfl

theorem parseItems_itemTokens {items : Option (Chain Part)} {closing : Token}
    (closes : closing.isMark ")" = true) (rest : List Token)
    (separates : ∀ chain ∈ items, ∀ comma ∈ chain.separators, comma.isMark "," = true)
    (derives : ∀ chain ∈ items, ∀ part ∈ chain.items, Derives (.at .or) part.tokens part.tree)
    (inner : ∀ chain ∈ items, ∀ part ∈ chain.items, Complete (.at .or) part.tokens part.tree) :
    parseItems ")" (itemTokens items ++ closing :: rest) =
      some (items.map (·.map Part.tree), closing :: rest) := by
  cases items with
  | none =>
      rw [parseItems.eq_def]
      simp only [itemTokens, Option.map_none, Option.getD_none, List.nil_append, closes, if_true]
  | some chain =>
      refine parseItems_chain (separates chain rfl) (derives chain rfl) (inner chain rfl) ?_ ?_
      · intro token first
        cases first
        exact Token.closes_of_isMark (.inl closes)
      · refine parseLinks_stop fun token first => ?_
        cases first
        rw [Token.eq_of_isMark closes]
        rfl

theorem complete_group {opening closing : Token} {inside : Part}
    (opens : opening.isMark "(" = true) (closes : closing.isMark ")" = true)
    (derives : Derives (.at .or) inside.tokens inside.tree)
    (inner : Complete (.at .or) inside.tokens inside.tree) :
    Complete (.at .atom) (opening :: (inside.tokens ++ [closing]))
      (bracketedNode "parenthesized_expression" opening [inside.tree] closing) := by
  intro rest _
  have items := @parseItems_itemTokens (some (.one inside)) closing closes rest
    (by rintro _ ⟨⟩ comma ⟨⟩)
    (by rintro _ ⟨⟩ part member; rwa [Chain.of_mem_one member])
    (by rintro _ ⟨⟩ part member; rwa [Chain.of_mem_one member])
  simp only [itemTokens, Option.map_some, Option.getD_some, Chain.tokens_one] at items
  refine parseAt_atom_of_read ?_ (length_lt_cons_append _ _ _)
  rw [parseOperand.eq_def]
  simp only [List.cons_append, List.append_assoc, List.nil_append, Token.not_operand opens, opens,
    Bool.false_eq_true, if_false, if_true, items, Option.bind_eq_bind, Option.bind_some, Chain.one,
    Chain.map, List.map_nil, closes]

theorem complete_singleton {opening comma closing : Token} {inside : Part}
    (opens : opening.isMark "(" = true) (separates : comma.isMark "," = true)
    (closes : closing.isMark ")" = true)
    (derives : Derives (.at .or) inside.tokens inside.tree)
    (inner : Complete (.at .or) inside.tokens inside.tree) :
    Complete (.at .atom) (opening :: (inside.tokens ++ [comma, closing]))
      (bracketedNode "tuple" opening [inside.tree, comma.leaf] closing) := by
  intro rest _
  have stop : parseLinks (·.isMark ",") (.at .or) (comma :: closing :: rest) =
      some ([], comma :: closing :: rest) := by
    rw [parseLinks.eq_def]
    simp only [closes, Bool.not_true, Bool.and_false, Bool.false_eq_true, if_false]
  have items := @parseItems_chain (.one inside) (comma :: closing :: rest) (by rintro comma ⟨⟩)
    (by intro part member; rwa [Chain.of_mem_one member])
    (by intro part member; rwa [Chain.of_mem_one member])
    (by rintro token ⟨⟩; exact Token.closes_of_isMark (.inr (.inr separates))) stop
  have notClosing : comma.isMark ")" = false := by
    rw [Token.eq_of_isMark separates]
    rfl
  rw [Chain.tokens_one] at items
  refine parseAt_atom_of_read ?_ (length_lt_cons_append _ _ _)
  rw [parseOperand.eq_def]
  simp only [List.cons_append, List.append_assoc, List.nil_append, Token.not_operand opens, opens,
    Bool.false_eq_true, if_false, if_true, items, Option.bind_eq_bind, Option.bind_some, Chain.one,
    Chain.map, List.map_nil, notClosing, expect_mark separates, expect_mark closes]

theorem complete_tuple {opening closing : Token} {items : Option (Chain Part)}
    (opens : opening.isMark "(" = true) (closes : closing.isMark ")" = true)
    (some_more : ∀ chain ∈ items, chain.more ≠ [])
    (separates : ∀ chain ∈ items, ∀ comma ∈ chain.separators, comma.isMark "," = true)
    (derives : ∀ chain ∈ items, ∀ part ∈ chain.items, Derives (.at .or) part.tokens part.tree)
    (inner : ∀ chain ∈ items, ∀ part ∈ chain.items, Complete (.at .or) part.tokens part.tree) :
    Complete (.at .atom) (opening :: (itemTokens items ++ [closing]))
      (bracketedNode "tuple" opening (itemNodes (items.map (·.map Part.tree))) closing) := by
  intro rest _
  have parsed := parseItems_itemTokens closes rest separates derives inner
  refine parseAt_atom_of_read ?_ (length_lt_cons_append _ _ _)
  rw [parseOperand.eq_def]
  simp only [List.cons_append, List.append_assoc, List.nil_append, Token.not_operand opens, opens,
    Bool.false_eq_true, if_false, if_true, parsed, Option.bind_eq_bind, Option.bind_some]
  rcases items with _ | ⟨first, _ | ⟨link, more⟩⟩
  · simp only [Option.map_none, expect_mark closes, Option.bind_some]
  · exact absurd rfl (some_more _ rfl)
  · simp only [Option.map_some, Chain.map, List.map_cons, expect_mark closes, Option.bind_some]

theorem allows_atom (rest : List Token) : Allows .atom rest := by
  intro token _ q level
  rcases decEq q .atom with other | same
  · refine .inl ?_
    revert other
    cases q <;> decide
  · exact .inr ⟨same, .inr rfl⟩

theorem Token.level_of_bracket {token : Token}
    (opens : token.isMark "(" = true ∨ token.isMark "[" = true ∨ token.isMark "." = true) :
    token.level? = some .atom := by
  rcases opens with opens | opens | opens <;>
    · rw [Token.eq_of_isMark opens]
      rfl

theorem complete_call {function : Part} {opening closing : Token} {arguments : Option (Chain Part)}
    (opens : opening.isMark "(" = true) (closes : closing.isMark ")" = true)
    (separates : ∀ chain ∈ arguments, ∀ comma ∈ chain.separators, comma.isMark "," = true)
    (derives : ∀ chain ∈ arguments, ∀ part ∈ chain.items, Derives (.at .or) part.tokens part.tree)
    (before : Complete (.at .atom) function.tokens function.tree)
    (inner : ∀ chain ∈ arguments, ∀ part ∈ chain.items, Complete (.at .or) part.tokens part.tree) :
    Complete (.at .atom) (function.tokens ++ opening :: (itemTokens arguments ++ [closing]))
      (callNode function.tree opening (arguments.map (·.map Part.tree)) closing) := by
  intro rest _
  have parsed := parseItems_itemTokens closes rest separates derives inner
  rw [List.append_assoc, before _ (allows_atom _), List.cons_append, resume.eq_def]
  simp only [Token.level_of_bracket (.inl opens), opens, if_true, List.append_assoc,
    List.cons_append, List.nil_append, parsed, Option.bind_eq_bind, Option.bind_some,
    expect_mark closes, length_lt_append_cons (itemTokens arguments) closing rest]

theorem complete_subscript {base : Part} {opening closing : Token} {indices : Chain Part}
    (opens : opening.isMark "[" = true) (closes : closing.isMark "]" = true)
    (separates : ∀ comma ∈ indices.separators, comma.isMark "," = true)
    (derives : ∀ part ∈ indices.items, Derives .index part.tokens part.tree)
    (before : Complete (.at .atom) base.tokens base.tree)
    (inner : ∀ part ∈ indices.items, Complete .index part.tokens part.tree) :
    Complete (.at .atom)
      (base.tokens ++ opening :: ((indices.map Part.tokens).tokens ++ [closing]))
      (subscriptNode base.tree opening (indices.map Part.tree) closing) := by
  intro rest _
  have item {link : Token × Part} (member : link ∈ indices.more) : link.2 ∈ indices.items :=
    .tail _ (List.mem_map_of_mem member)
  have comma {link : Token × Part} (member : link ∈ indices.more) : link.1.isMark "," = true :=
    separates _ (List.mem_map_of_mem member)
  have behind : ∀ token ∈ (closing :: rest).head?, token.Closes := by
    rintro token ⟨⟩
    exact Token.closes_of_isMark (.inr (.inl closes))
  have links := @parseLinks_linkTokens (·.isMark ",") .index Token.Closes indices.more
    (closing :: rest)
    (fun link member => ⟨comma member, Token.closes_of_isMark (.inr (.inr (comma member)))⟩)
    (fun link member => derives _ (item member))
    (fun link member rest behind => inner _ (item member) rest behind) behind
    (parseLinks_stop (by
      rintro token ⟨⟩
      rw [Token.eq_of_isMark closes]
      rfl))
  -- The first index stops at a comma or at the closing bracket.
  have next : ∀ token ∈ (linkTokens indices.more ++ closing :: rest).head?, token.Closes := by
    obtain ⟨_, _ | ⟨link, more⟩⟩ := indices
    · exact behind
    · rintro token ⟨⟩
      exact Token.closes_of_isMark (.inr (.inr (comma (.head _))))
  have start := inner indices.first (.head _) _ next
  have shorter := (derives indices.first (.head _)).length_lt
    (linkTokens indices.more ++ closing :: rest)
  have shorter' : rest.length <
      (indices.first.tokens ++ (linkTokens indices.more ++ closing :: rest)).length := by
    rw [← List.append_assoc]
    exact length_lt_append_cons _ closing rest
  have notCall : opening.isMark "(" = false := by
    rw [Token.eq_of_isMark opens]
    rfl
  rw [List.append_assoc, before _ (allows_atom _), List.cons_append, resume.eq_def,
    Chain.tokens_map]
  simp only [Token.level_of_bracket (.inr (.inl opens)), opens, notCall, Bool.false_eq_true,
    if_false, if_true, List.append_assoc, List.cons_append, List.nil_append, start, links, shorter,
    shorter', Option.bind_eq_bind, Option.bind_some, expect_mark closes]
  rfl

theorem complete_attributeAccess {object : Part} {dot name : Token}
    (separates : dot.isMark "." = true) (before : Complete (.at .atom) object.tokens object.tree) :
    Complete (.at .atom) (object.tokens ++ [dot, name]) (attributeNode object.tree dot name) := by
  intro rest _
  have notBracket : dot.isMark "(" = false ∧ dot.isMark "[" = false := by
    rw [Token.eq_of_isMark separates]
    exact ⟨rfl, rfl⟩
  rw [List.append_assoc, before _ (allows_atom _)]
  simp only [List.cons_append, List.nil_append]
  rw [resume.eq_def]
  simp only [Token.level_of_bracket (.inr (.inr separates)), notBracket.1, notBracket.2,
    Bool.false_eq_true, if_false, if_true]

theorem complete_element {tokens : List Token} {tree : RawTree}
    (derives : Derives (.at .or) tokens tree) (inner : Complete (.at .or) tokens tree) :
    Complete .index tokens tree := by
  intro rest closes
  have start : parseAt .or (tokens ++ rest) = some (tree, rest) := by
    refine inner.read fun token first r level => ?_
    rw [(closes token first).1] at level
    cases level
  obtain ⟨token, others, rfl, begins⟩ := derives.head
  have first : parsePart (token :: others ++ rest) = some (some tree, rest) := by
    rw [List.cons_append] at start ⊢
    have begins' : token.begins .or = true := begins
    rw [parsePart.eq_def]
    simp only [begins', if_true, start, Option.bind_eq_bind, Option.bind_some]
  rw [parsePhrase.eq_def]
  simp only [first, Option.bind_eq_bind, Option.bind_some]
  rcases rest with _ | ⟨colon, rest⟩
  · rfl
  · simp only [(closes colon rfl).2.2, Bool.false_eq_true, if_false, Option.map_some]

theorem parsePart_optionalTokens {optional : Option Part} {rest : List Token}
    (derives : ∀ part ∈ optional, Derives (.at .or) part.tokens part.tree)
    (inner : ∀ part ∈ optional, Complete (.at .or) part.tokens part.tree)
    (behind : ∀ token ∈ rest.head?, token.level? = none ∧ token.begins .or = false) :
    parsePart (Part.optionalTokens optional ++ rest) = some (optional.map Part.tree, rest) := by
  cases optional with
  | none =>
      rw [Part.optionalTokens, Option.map_none, Option.getD_none, List.nil_append, parsePart.eq_def]
      rcases rest with _ | ⟨token, rest⟩
      · rfl
      · simp only [(behind token rfl).2, Bool.false_eq_true, if_false, Option.map_none]
  | some part =>
      have start : parseAt .or (part.tokens ++ rest) = some (part.tree, rest) := by
        refine (inner part rfl).read fun token first r level => ?_
        rw [(behind token first).1] at level
        cases level
      obtain ⟨token, others, words, begins⟩ := (derives part rfl).head
      rw [Part.optionalTokens, Option.map_some, Option.getD_some]
      rw [words, List.cons_append] at start ⊢
      have begins' : token.begins .or = true := begins
      rw [parsePart.eq_def]
      simp only [begins', if_true, start, Option.bind_eq_bind, Option.bind_some, Option.map_some]

theorem complete_slice {start stop : Option Part} {colon : Token}
    {step : Option (Token × Option Part)} (separates : colon.isMark ":" = true)
    (separates' : ∀ link ∈ step, link.1.isMark ":" = true)
    (first : ∀ part ∈ start, Derives (.at .or) part.tokens part.tree)
    (second : ∀ part ∈ stop, Derives (.at .or) part.tokens part.tree)
    (third : ∀ link ∈ step, ∀ part ∈ link.2, Derives (.at .or) part.tokens part.tree)
    (first' : ∀ part ∈ start, Complete (.at .or) part.tokens part.tree)
    (second' : ∀ part ∈ stop, Complete (.at .or) part.tokens part.tree)
    (third' : ∀ link ∈ step, ∀ part ∈ link.2, Complete (.at .or) part.tokens part.tree) :
    Complete .index
      (Part.optionalTokens start ++ colon :: (Part.optionalTokens stop ++
        (step.map fun link => link.1 :: Part.optionalTokens link.2).getD []))
      (sliceNode (start.map Part.tree) colon (stop.map Part.tree)
        (step.map fun link => (link.1, link.2.map Part.tree))) := by
  intro rest closes
  have behind : ∀ token ∈ rest.head?, token.level? = none ∧ token.begins .or = false :=
    fun token head => ⟨(closes token head).1, (closes token head).2.1⟩
  -- No expression goes on with a colon or begins with one, so each part stops in front of it.
  have stops {token : Token} (isColon : token.isMark ":" = true) :
      token.level? = none ∧ token.begins .or = false := by
    rw [Token.eq_of_isMark isColon]
    exact ⟨rfl, rfl⟩
  rw [parsePhrase.eq_def]
  cases step with
  | none =>
      have part₁ := @parsePart_optionalTokens start
        (colon :: (Part.optionalTokens stop ++ rest)) first first' (by
          rintro token ⟨⟩
          exact stops separates)
      have part₂ := parsePart_optionalTokens second second' behind
      simp only [Option.map_none, Option.getD_none, List.append_nil, List.append_assoc,
        List.cons_append, part₁, separates, if_true, length_lt_append_cons, part₂,
        Option.bind_eq_bind, Option.bind_some]
      rcases rest with _ | ⟨token, rest⟩
      · rfl
      · simp only [(closes token rfl).2.2, Bool.false_eq_true, if_false]
  | some link =>
      obtain ⟨colon', part⟩ := link
      have separates' : colon'.isMark ":" = true := separates' _ rfl
      have part₁ := @parsePart_optionalTokens start
        (colon :: (Part.optionalTokens stop ++ colon' :: (Part.optionalTokens part ++ rest)))
        first first' (by
          rintro token ⟨⟩
          exact stops separates)
      have part₂ := @parsePart_optionalTokens stop
        (colon' :: (Part.optionalTokens part ++ rest)) second second' (by
          rintro token ⟨⟩
          exact stops separates')
      have part₃ := @parsePart_optionalTokens part rest (third _ rfl) (third' _ rfl) behind
      simp only [Option.map_some, Option.getD_some, List.append_assoc, List.cons_append, part₁,
        separates, separates', if_true, length_lt_append_cons, part₂, part₃, Option.bind_eq_bind,
        Option.bind_some]

theorem Derives.complete {phrase : Phrase} {tokens : List Token} {tree : RawTree}
    (derives : Derives phrase tokens tree) : Complete phrase tokens tree := by
  induction derives with
  | weaken le inner ih => exact ih.weaken le inner.head
  | binary groups level lt _ derives before behind =>
      exact complete_binary groups level lt derives before behind
  | not keyword _ behind => exact complete_not keyword behind
  | comparison some_more level derives operands =>
      exact complete_comparison some_more level derives operands
  | negation sign _ behind => exact complete_negation sign behind
  | power level derives _ before behind => exact complete_power level derives before behind
  | operand isOperand => exact complete_operand isOperand
  | group opens closes derives inner => exact complete_group opens closes derives inner
  | singleton opens separates closes derives inner =>
      exact complete_singleton opens separates closes derives inner
  | tuple opens closes some_more separates derives inner =>
      exact complete_tuple opens closes some_more separates derives inner
  | call opens closes _ separates derives before inner =>
      exact complete_call opens closes separates derives before inner
  | subscript opens closes _ separates derives before inner =>
      exact complete_subscript opens closes separates derives before inner
  | attributeAccess separates _ _ before => exact complete_attributeAccess separates before
  | element derives inner => exact complete_element derives inner
  | slice separates separates' first second third first' second' third' =>
      exact complete_slice separates separates' first second third first' second' third'

/-- The words of an expression have one tree. -/
theorem Derives.unique {tokens : List Token} {tree other : RawTree}
    (derives : Derives (.at .or) tokens tree) (derives' : Derives (.at .or) tokens other) :
    tree = other := by
  have parsed := derives.complete [] (by rintro token ⟨⟩)
  have parsed' := derives'.complete [] (by rintro token ⟨⟩)
  rw [parsed, resume_of_lt (by rintro token ⟨⟩), resume_of_lt (by rintro token ⟨⟩)] at parsed'
  cases parsed'
  rfl

theorem Parses.unique {alphabet : Alphabet} {text : String} {tree other : RawTree}
    (parses : Parses alphabet text tree) (parses' : Parses alphabet text other) : tree = other := by
  obtain ⟨tokens, lexes, derives⟩ := parses
  obtain ⟨tokens', lexes', derives'⟩ := parses'
  rw [← lexes.unique lexes'] at derives'
  exact derives.unique derives'

end Grammar

end NumericPython

import NumericPython.Printing.Expr
import NumericPython.Proofs.Grammar.Reading

set_option autoImplicit false

namespace NumericPython

namespace Grammar

open Lowering Printing

def isEnd (c : Char) : Bool :=
  " )],:([".toList.contains c

/-- In front of a character that `ends` admits, the text at byte `start` has the given words. -/
def Segment (alphabet : Alphabet) (ends : Char → Bool) (start : Nat) (text : List Char)
    (tokens : List Token) : Prop :=
  ∀ after others, (∀ c ∈ after.head?, ends c = true) →
    Lexes alphabet (start + Text.byteSize text) after others →
    Lexes alphabet start (text ++ after) (tokens ++ others)

section Segments

variable {alphabet : Alphabet} {ends : Char → Bool} {start : Nat} {text : List Char}
  {tokens : List Token}

theorem Segment.append {ends' : Char → Bool} {text' : List Char} {tokens' : List Token}
    (first : Segment alphabet ends start text tokens)
    (second : Segment alphabet ends' (start + Text.byteSize text) text' tokens')
    (meets : ∃ c cs, text' = c :: cs ∧ ends c = true) :
    Segment alphabet ends' start (text ++ text') (tokens ++ tokens') := by
  intro after others behind lexes
  rw [List.append_assoc, List.append_assoc]
  refine first _ _ ?_ (second after others behind ?_)
  · obtain ⟨c, cs, rfl, admitted⟩ := meets
    rintro d ⟨⟩
    exact admitted
  · rwa [Text.byteSize_append, ← Nat.add_assoc] at lexes

theorem Segment.imp {ends' : Char → Bool} (segment : Segment alphabet ends start text tokens)
    (fewer : ∀ c, ends' c = true → ends c = true) : Segment alphabet ends' start text tokens :=
  fun after others behind lexes =>
    segment after others (fun c first => fewer c (behind c first)) lexes

theorem Segment.lexes (segment : Segment alphabet ends 0 text tokens) :
    Lexes alphabet 0 text tokens := by
  simpa using segment [] [] (by rintro c ⟨⟩) .done

theorem segment_space : Segment alphabet (fun _ => true) start [' '] [] := by
  intro after others _ lexes
  exact .space lexes

theorem segment_word {kind : TokenKind} (isWord : IsWord alphabet kind text)
    (longest : ∀ after : List Char, (∀ c ∈ after.head?, ends c = true) →
      ∀ other kind', IsWord alphabet kind' other → other <+: text ++ after →
        other.length ≤ text.length) :
    Segment alphabet ends start text [⟨kind, text, start⟩] :=
  fun after _ behind lexes => .word isWord (longest after behind) lexes

theorem segment_mark (known : text ∈ marks) :
    Segment alphabet (fun c => !isMarkTail c) start text [⟨.mark, text, start⟩] := by
  refine segment_word (.mark known) fun after behind => mark_longest (.mark known) ?_ ?_
  · obtain ⟨c, cs, rfl, sign, _⟩ := mark_spelling known
    rintro d ⟨⟩
    exact sign
  · intro c first
    simpa using behind c first

theorem isPart_of_isEnd {c : Char} (isEnd : isEnd c = true) : alphabet.isPart c = false := by
  have all : " )],:([".toList.all (fun c => c.toNat < 128 ∧ (c.isAlphanum || c == '_') = false) =
      true := by decide
  obtain ⟨ascii, other⟩ :=
    of_decide_eq_true (List.all_eq_true.mp all c (by simpa [Grammar.isEnd] using isEnd))
  rw [alphabet.isPart_ascii c ascii, other]

theorem isStart_ascii {c : Char} (letter : c.toNat < 128 ∧ (c.isAlpha || c == '_') = true) :
    alphabet.isStart c = true :=
  (alphabet.isStart_ascii c letter.1).trans letter.2

theorem isWord_ascii {c : Char} {cs : List Char}
    (first : c.toNat < 128 ∧ (c.isAlpha || c == '_') = true)
    (others : cs.all (fun d => d.toNat < 128 ∧ (d.isAlphanum || d == '_') = true) = true) :
    IsWord alphabet (if c :: cs ∈ keywords then .mark else .name) (c :: cs) := by
  refine .name (isStart_ascii first) fun d member => ?_
  obtain ⟨ascii, letter⟩ := of_decide_eq_true (List.all_eq_true.mp others d member)
  exact (alphabet.isPart_ascii d ascii).trans letter

theorem segment_keyword (known : text ∈ keywords) :
    Segment alphabet isEnd start text [⟨.mark, text, start⟩] := by
  have letters : ∀ word ∈ keywords, word ≠ [] ∧
      word.head?.all (fun c => c.toNat < 128 ∧ (c.isAlpha || c == '_') = true) = true ∧
      word.tail.all (fun c => c.toNat < 128 ∧ (c.isAlphanum || c == '_') = true) = true := by
    decide
  obtain ⟨some_word, first, all⟩ := letters text known
  rcases text with _ | ⟨c, cs⟩
  · exact absurd rfl some_word
  · have first : c.toNat < 128 ∧ (c.isAlpha || c == '_') = true := of_decide_eq_true first
    have isWord := @isWord_ascii alphabet c cs first all
    rw [if_pos known] at isWord
    refine segment_word isWord fun after behind => name_longest isWord ?_ ?_
    · rintro d ⟨⟩
      exact isStart_ascii first
    · exact fun d next => isPart_of_isEnd (behind d next)

theorem segment_wholeName {name : String} (isName : IsName alphabet name) :
    Segment alphabet (fun c => !alphabet.isPart c) start name.toList
      [⟨.name, name.toList, start⟩] := by
  have word : IsWord alphabet .name name.toList := isName
  refine segment_word word fun after behind => name_longest word ?_ ?_
  · generalize name.toList = chars at word
    cases word' : chars with
    | nil => rintro c ⟨⟩
    | cons c cs =>
        rintro d ⟨⟩
        rw [word'] at word
        obtain ⟨c', cs', same, isStart | digit | isQuote | sign⟩ := word.cases_head
        · cases same
          exact isStart
        · cases same
          obtain ⟨numeral, _, _, kind⟩ := word.of_digit digit
          split at kind <;> cases kind
        · cases same
          cases (word.of_quote isQuote).1
        · cases same
          cases (word.of_sign sign).1
  · intro c next
    simpa using behind c next

theorem segment_name {name : String} (isName : IsName alphabet name) :
    Segment alphabet (fun c => isEnd c || c == '.') start name.toList
      [⟨.name, name.toList, start⟩] := by
  refine (segment_wholeName isName).imp fun c admitted => ?_
  simp only [Bool.or_eq_true, beq_iff_eq] at admitted
  rcases admitted with isEnd | rfl
  · rw [isPart_of_isEnd isEnd]
    rfl
  · rw [alphabet.isPart_ascii '.' (by decide)]
    rfl

theorem segment_number {numeral : Numeral} (valid : numeral.Valid) :
    Segment alphabet isEnd start numeral.chars
      [⟨if numeral.isFloat then .float else .integer, numeral.chars, start⟩] := by
  refine segment_word (.number valid) fun after behind => number_longest (.number valid) ?_ ?_
  · obtain ⟨c, cs, chars, digit⟩ := Numeral.chars_cons valid
    rw [chars]
    rintro d ⟨⟩
    exact digit
  · have all : " )],:([".toList.all (fun c => c.isDigit = false ∧ Numeral.isMark c = false) =
        true := by decide
    exact fun c next =>
      of_decide_eq_true (List.all_eq_true.mp all c (by simpa [isEnd] using behind c next))

theorem isContent_encodeChars {quote : Char} (isQuote : Quoted.isQuote quote = true)
    (text : List Char) : IsContent quote (text.flatMap (Quoted.encodeChar quote)) := by
  induction text with
  | nil => exact .nil
  | cons c cs ih =>
      rw [List.flatMap_cons]
      unfold Quoted.encodeChar
      split
      · exact .escape (by decide) ih
      next notBackslash =>
        split
        · exact .escape (by decide) ih
        next notFeed =>
        split
        · exact .escape (by decide) ih
        split
        · exact .escape (by decide) ih
        split
        · exact .escape notFeed ih
        next other =>
        split
        next control =>
          -- A digit of a code is no quote, so that the code does not end the literal.
          have digit {n : Nat} (small : n < 16) : Quoted.hexDigit n ≠ quote ∧
              Quoted.hexDigit n ≠ '\\' ∧ Quoted.hexDigit n ≠ '\n' := by
            have all : ∀ i : Fin 16, Quoted.isQuote (Quoted.hexDigit i.val) = false ∧
                Quoted.hexDigit i.val ≠ '\\' ∧ Quoted.hexDigit i.val ≠ '\n' := by decide
            obtain ⟨notQuote, others⟩ := all ⟨n, small⟩
            refine ⟨?_, others⟩
            rintro rfl
            exact Bool.false_ne_true (notQuote.symm.trans isQuote)
          have bound := Quoted.isControl_lt control
          obtain ⟨first, first', first''⟩ := @digit (c.toNat / 16) (by omega)
          obtain ⟨second, second', second''⟩ := @digit (c.toNat % 16) (by omega)
          exact .escape (by decide) (.plain first first' first'' (.plain second second' second'' ih))
        next => exact .plain other notBackslash notFeed ih

theorem segment_string (text : List Char) :
    Segment alphabet (fun _ => true) start (Quoted.encode text)
      [⟨.string, Quoted.encode text, start⟩] := by
  have isQuote := Quoted.delimiter_isQuote text
  have inside := isContent_encodeChars isQuote text
  exact segment_word (.string isQuote inside) fun after _ => string_longest isQuote inside

end Segments

def opensWord (c : Char) : Bool :=
  !isMarkTail c && c != ' '

theorem isMarkTail_of_opens {c : Char} (opens : opensWord c = true) : isMarkTail c = false := by
  simp only [opensWord, Bool.and_eq_true, Bool.not_eq_true'] at opens
  exact opens.1

theorem opens_append {text : List Char} (head : ∃ c cs, text = c :: cs ∧ opensWord c = true)
    (more : List Char) : ∃ c cs, text ++ more = c :: cs ∧ opensWord c = true := by
  obtain ⟨c, cs, rfl, leads⟩ := head
  exact ⟨c, cs ++ more, rfl, leads⟩

theorem head_not_markTail {text : List Char}
    (head : ∃ c cs, text = c :: cs ∧ opensWord c = true) :
    ∀ c ∈ text.head?, isMarkTail c = false := by
  obtain ⟨c, cs, rfl, leads⟩ := head
  rintro d ⟨⟩
  exact isMarkTail_of_opens leads

def Phrase.Reads : Phrase → Source → RawTree → Expr → Prop
  | .at _, source, tree, e => Grammar.Reads source tree e
  | .index, source, tree, e => ReadsIndex source tree e

/-- The text at byte `start` has the given words and tree, and the tree is lowered to `e`. -/
structure Spells (alphabet : Alphabet) (phrase : Phrase) (e : Expr) (start : Nat)
    (text : List Char) (tokens : List Token) (tree : RawTree) : Prop where
  head : ∃ c cs, text = c :: cs ∧ opensWord c = true
  segment : Segment alphabet isEnd start text tokens
  derives : Derives phrase tokens tree
  reads : ∀ source, (∀ token ∈ tokens, token.Holds source) → phrase.Reads source tree e

def Spelled (alphabet : Alphabet) (phrase : Phrase) (e : Expr) (text : List Char) : Prop :=
  ∀ start, ∃ tokens tree, Spells alphabet phrase e start text tokens tree

section Words

variable {alphabet : Alphabet} {p q : Precedence} {e : Expr} {start : Nat} {text : List Char}
  {tokens : List Token} {tree : RawTree}

theorem isMark_mk (text : String) (start : Nat) :
    (⟨.mark, text.toList, start⟩ : Token).isMark text = true := by
  simp [Token.isMark]

theorem Spells.weaken (le : p ≤ q) (spells : Spells alphabet (.at q) e start text tokens tree) :
    Spells alphabet (.at p) e start text tokens tree :=
  ⟨spells.head, spells.segment, .weaken le spells.derives, spells.reads⟩

theorem Spelled.weaken (le : p ≤ q) (spelled : Spelled alphabet (.at q) e text) :
    Spelled alphabet (.at p) e text := by
  intro start
  obtain ⟨tokens, tree, spells⟩ := spelled start
  exact ⟨tokens, tree, spells.weaken le⟩

theorem le_atom (p : Precedence) : p ≤ .atom := by
  cases p <;> decide

theorem or_le (p : Precedence) : .or ≤ p := by
  cases p <;> decide

theorem spelled_word {kind : TokenKind} (head : ∃ c cs, text = c :: cs ∧ opensWord c = true)
    (segment : ∀ start, Segment alphabet isEnd start text [⟨kind, text, start⟩])
    (isOperand : ∀ start, (⟨kind, text, start⟩ : Token).isOperand = true)
    (reads : ∀ source start, (⟨kind, text, start⟩ : Token).Holds source →
      Reads source (Token.leaf ⟨kind, text, start⟩) e) :
    Spelled alphabet (.at .atom) e text := fun start =>
  ⟨[⟨kind, text, start⟩], _, head, segment start, .operand (isOperand start),
    fun source holds => reads source start (holds _ (.head _))⟩

theorem opensWord_of_word {kind : TokenKind} (isWord : IsWord alphabet kind text)
    (notMark : kind ≠ .mark) : ∃ c cs, text = c :: cs ∧ opensWord c = true := by
  obtain ⟨c, cs, rfl, classes⟩ := isWord.cases_head
  have notTail : isMarkTail c = false := by
    refine Bool.eq_false_iff.2 fun tail => ?_
    have sign : c ∈ signs := by
      simp only [isMarkTail, Bool.or_eq_true, beq_iff_eq] at tail
      rcases tail with ((((rfl | rfl) | rfl) | rfl) | rfl) | rfl <;> decide
    exact notMark (isWord.of_sign sign).1
  have notSpace : c ≠ ' ' := by
    rintro rfl
    exact @IsWord.no_space _ _ _ cs [] isWord (by simp)
  exact ⟨c, cs, rfl, by simp [opensWord, notTail, notSpace]⟩

theorem spelled_name {name : String} (isName : IsName alphabet name) :
    Spelled alphabet (.at .atom) (.symbol (.plain name)) name.toList := by
  refine @spelled_word alphabet _ _ .name (opensWord_of_word isName (by decide)) (fun start => ?_)
    (fun start => rfl) fun source start holds => ?_
  · exact (segment_name isName).imp fun c isEnd => by simp [isEnd]
  · simpa using @reads_name source ⟨.name, name.toList, start⟩ rfl holds

theorem spelled_string (text : String) :
    Spelled alphabet (.at .atom) (.string text) (Quoted.encode text.toList) := by
  have isWord : IsWord alphabet .string (Quoted.encode text.toList) :=
    .string (Quoted.delimiter_isQuote _) (isContent_encodeChars (Quoted.delimiter_isQuote _) _)
  refine @spelled_word alphabet _ _ .string (opensWord_of_word isWord (by decide))
    (fun start => ?_) (fun start => rfl) fun source start holds => ?_
  · exact (segment_string _).imp fun c _ => rfl
  · simpa using @reads_string source ⟨.string, Quoted.encode text.toList, start⟩ _ rfl holds
      (Quoted.read_encode _)

theorem spelled_boolean (value : Bool) :
    Spelled alphabet (.at .atom) (.boolean value) (if value then "True" else "False").toList := by
  cases value with
  | true =>
      exact spelled_word ⟨'T', _, rfl, rfl⟩ (fun start => segment_keyword (by decide))
        (fun start => rfl) fun source start holds => reads_boolean (isMark_mk _ _) holds
  | false =>
      exact spelled_word ⟨'F', _, rfl, rfl⟩ (fun start => segment_keyword (by decide))
        (fun start => rfl) fun source start holds => reads_boolean (isMark_mk _ _) holds

theorem spelled_nil : Spelled alphabet (.at .atom) .nil "None".toList :=
  spelled_word ⟨'N', _, rfl, rfl⟩ (fun start => segment_keyword (by decide))
    (fun start => rfl) fun source start holds => reads_none (isMark_mk _ _) holds

end Words

section Operations

variable {alphabet : Alphabet} {p q r : Precedence} {e a b : Expr} {text left right : List Char}
  {op : BinaryOperator}

theorem isMarkTail_of_isEnd {c : Char} (ends : isEnd c = true) : isMarkTail c = false := by
  have all : " )],:([".toList.all (isMarkTail · = false) = true := by decide
  exact of_decide_eq_true (List.all_eq_true.mp all c (by simpa [isEnd] using ends))

theorem segment_open {start : Nat} (mark : List Char) (known : mark ∈ marks) {text : List Char}
    {tokens : List Token} (head : ∀ c ∈ text.head?, isMarkTail c = false)
    (segment : Segment alphabet isEnd (start + Text.byteSize mark) text tokens) :
    Segment alphabet isEnd start (mark ++ text) (⟨.mark, mark, start⟩ :: tokens) := by
  intro after others behind lexes
  rw [List.append_assoc, List.cons_append]
  refine segment_mark known _ _ ?_ (segment after others behind ?_)
  · cases text with
    | nil =>
        intro c first
        simp [isMarkTail_of_isEnd (behind c first)]
    | cons d ds =>
        rintro c ⟨⟩
        simp [head d rfl]
  · rwa [Text.byteSize_append, ← Nat.add_assoc] at lexes

theorem Segment.close {start : Nat} {tokens : List Token} (mark : Char) (known : [mark] ∈ marks)
    (ends : isEnd mark = true) (segment : Segment alphabet isEnd start text tokens) :
    Segment alphabet isEnd start (text ++ [mark])
      (tokens ++ [⟨.mark, [mark], start + Text.byteSize text⟩]) := by
  refine segment.append ((segment_mark known).imp fun c isEnd => ?_) ⟨mark, [], rfl, ends⟩
  simp [isMarkTail_of_isEnd isEnd]

theorem Segment.between {start : Nat} {tokens : List Token} {opening : List Char} {closing : Char}
    (segment : Segment alphabet isEnd (start + Text.byteSize opening) text tokens)
    (head : ∃ c cs, text = c :: cs ∧ opensWord c = true) (known : opening ∈ marks)
    (known' : [closing] ∈ marks) (ends : isEnd closing = true) :
    Segment alphabet isEnd start (opening ++ (text ++ [closing]))
      (⟨.mark, opening, start⟩ :: (tokens ++
        [⟨.mark, [closing], start + Text.byteSize opening + Text.byteSize text⟩])) :=
  segment_open opening known (head_not_markTail (opens_append head _))
    (segment.close closing known' ends)

theorem Segment.singleton {start : Nat} {tokens : List Token}
    (segment : Segment alphabet isEnd (start + Text.byteSize "(".toList) text tokens)
    (head : ∃ c cs, text = c :: cs ∧ opensWord c = true) :
    Segment alphabet isEnd start ("(".toList ++ (text ++ (",".toList ++ [')'])))
      (⟨.mark, "(".toList, start⟩ :: (tokens ++
        [⟨.mark, ",".toList, start + Text.byteSize "(".toList + Text.byteSize text⟩,
          ⟨.mark, [')'], start + Text.byteSize "(".toList + Text.byteSize text +
            Text.byteSize ",".toList⟩])) := by
  have closed := (segment.close ',' (by decide) (by decide)).between (opens_append head _)
    (by decide) (show [')'] ∈ marks by decide) (by decide)
  simp only [List.append_assoc, Text.byteSize_append, ← Nat.add_assoc] at closed
  exact closed

theorem segment_operator (op : BinaryOperator) {start : Nat} :
    Segment alphabet (· == ' ') start op.text.toList [⟨.mark, op.text.toList, start⟩] := by
  have space {ends : Char → Bool} (admitted : ends ' ' = true)
      (segment : Segment alphabet ends start op.text.toList [⟨.mark, op.text.toList, start⟩]) :
      Segment alphabet (· == ' ') start op.text.toList [⟨.mark, op.text.toList, start⟩] := by
    refine segment.imp fun c isSpace => ?_
    rw [eq_of_beq isSpace]
    exact admitted
  by_cases isBoolean : op.isBoolean = true
  · refine @space isEnd (by decide) (segment_keyword ?_)
    revert isBoolean
    cases op <;> decide
  · refine space (by decide) (segment_mark ?_)
    revert isBoolean
    cases op <;> decide

theorem level_operator (op : BinaryOperator) (start : Nat) :
    (⟨.mark, op.text.toList, start⟩ : Token).level? = some (.ofOperator op) := by
  cases op <;> rfl

theorem spelled_operation {build : RawTree → Token → RawTree → RawTree}
    (first : Spelled alphabet (.at p) a left) (second : Spelled alphabet (.at q) b right)
    (derives : ∀ {left right : Part} {operator : Token},
      operator.level? = some (.ofOperator op) → Derives (.at p) left.tokens left.tree →
      Derives (.at q) right.tokens right.tree →
      Derives (.at r) (left.tokens ++ operator :: right.tokens)
        (build left.tree operator right.tree))
    (reads : ∀ {source : Source} {operator : Token} {left right : RawTree},
      operator.isMark op.text = true → operator.Holds source → Reads source left a →
      Reads source right b → Reads source (build left operator right) (.binary op a b)) :
    Spelled alphabet (.at r) (.binary op a b)
      (left ++ ([' '] ++ (op.text.toList ++ ([' '] ++ right)))) := by
  intro start
  obtain ⟨tokens, tree, spells⟩ := first start
  obtain ⟨tokens', tree', spells'⟩ := second (start + Text.byteSize left + Text.byteSize [' '] +
    Text.byteSize op.text.toList + Text.byteSize [' '])
  refine ⟨tokens ++ ⟨.mark, op.text.toList, start + Text.byteSize left + Text.byteSize [' ']⟩ ::
    tokens', _, ?_, ?_, @derives ⟨tokens, tree⟩ ⟨tokens', tree'⟩ _ (level_operator op _)
      spells.derives spells'.derives, ?_⟩
  · obtain ⟨c, cs, same, leads⟩ := spells.head
    exact ⟨c, _, by rw [same]; rfl, leads⟩
  · obtain ⟨c, cs, same, _⟩ := spells'.head
    obtain ⟨d, ds, word, _⟩ : ∃ d ds, op.text.toList = d :: ds ∧ True := by
      cases op <;> exact ⟨_, _, rfl, trivial⟩
    refine spells.segment.append (segment_space.append ((segment_operator op).append
      (segment_space.append spells'.segment ⟨c, cs, same, rfl⟩) ⟨' ', right, rfl, rfl⟩)
      ⟨d, _, by rw [word]; rfl, rfl⟩) ⟨' ', _, rfl, by decide⟩
  · intro source holds
    exact reads (isMark_mk _ _) (holds _ (by simp))
      (spells.reads source fun token member => holds token (by simp [member]))
      (spells'.reads source fun token member => holds token (by simp [member]))

theorem spelled_leftGrouping (groups : op.isBoolean = true ∨ op.isArithmetic = true ∧ op ≠ .pow)
    (lt : Precedence.ofOperator op < q)
    (first : Spelled alphabet (.at (.ofOperator op)) a left)
    (second : Spelled alphabet (.at q) b right) :
    Spelled alphabet (.at (.ofOperator op)) (.binary op a b)
      (left ++ ([' '] ++ (op.text.toList ++ ([' '] ++ right)))) := by
  rcases groups with isBoolean | ⟨isArithmetic, notPower⟩
  · have kind : leftGrouping? (.ofOperator op) = some "boolean_operator" := by
      revert isBoolean
      cases op <;> decide
    exact spelled_operation first second (fun level => .binary kind level lt)
      fun isOperator holds => reads_boolean_operation isOperator holds isBoolean
  · have kind : leftGrouping? (.ofOperator op) = some "binary_operator" := by
      have listed := BinaryOperator.isArithmetic_iff.1 isArithmetic
      simp only [List.mem_cons, List.not_mem_nil, or_false] at listed
      rcases listed with rfl | rfl | rfl | rfl | rfl
      all_goals first | rfl | exact absurd rfl notPower
    exact spelled_operation first second (fun level => .binary kind level lt)
      fun isOperator holds => reads_arithmetic isOperator holds isArithmetic

theorem spelled_power (first : Spelled alphabet (.at .atom) a left)
    (second : Spelled alphabet (.at .unary) b right) :
    Spelled alphabet (.at .power) (.binary .pow a b)
      (left ++ ([' '] ++ (BinaryOperator.pow.text.toList ++ ([' '] ++ right)))) :=
  spelled_operation first second (fun level => .power level)
    fun isOperator holds => reads_arithmetic isOperator holds rfl

theorem spelled_comparison (isComparison : op.isComparison = true)
    (first : Spelled alphabet (.at .sum) a left) (second : Spelled alphabet (.at .sum) b right) :
    Spelled alphabet (.at .comparison) (.binary op a b)
      (left ++ ([' '] ++ (op.text.toList ++ ([' '] ++ right)))) := by
  have isLevel : Precedence.ofOperator op = .comparison := by
    revert isComparison
    cases op <;> decide
  refine spelled_operation first second (fun {left right operator} level before behind => ?_)
    fun isOperator holds => reads_comparison isOperator holds isComparison
  have derives := @Derives.comparison ⟨left, [(operator, right)]⟩ (by simp)
    (by
      intro other member
      rw [List.mem_singleton.1 member, level, isLevel])
    (by
      intro part member
      simp only [Chain.items, List.map_cons, List.map_nil, List.mem_cons, List.not_mem_nil,
        or_false] at member
      rcases member with rfl | rfl
      · exact before
      · exact behind)
  simpa [Chain.map, Chain.tokens] using derives

theorem spelled_not (operand : Spelled alphabet (.at .not) a text) :
    Spelled alphabet (.at .not) (.unary .not a) ("not".toList ++ ([' '] ++ text)) := by
  intro start
  obtain ⟨tokens, tree, spells⟩ := operand (start + Text.byteSize "not".toList + Text.byteSize [' '])
  obtain ⟨c, cs, same, _⟩ := spells.head
  refine ⟨⟨.mark, "not".toList, start⟩ :: tokens, _, ⟨'n', _, rfl, rfl⟩, ?_,
    @Derives.not ⟨.mark, "not".toList, start⟩ ⟨tokens, tree⟩ (isMark_mk _ _) spells.derives, ?_⟩
  · exact (segment_keyword (by decide)).append
      (segment_space.append spells.segment ⟨c, cs, same, rfl⟩) ⟨' ', text, rfl, by decide⟩
  · intro source holds
    exact reads_not (spells.reads source fun token member => holds token (.tail _ member))

theorem spells_group {start : Nat} {tokens : List Token} {tree : RawTree}
    (spells : Spells alphabet (.at p) e (start + Text.byteSize "(".toList) text tokens tree) :
    ∃ opening closing, Spells alphabet (.at .atom) e start ("(".toList ++ (text ++ [')']))
      (opening :: (tokens ++ [closing]))
      (bracketedNode "parenthesized_expression" opening [tree] closing) := by
  refine ⟨⟨.mark, "(".toList, start⟩,
    ⟨.mark, [')'], start + Text.byteSize "(".toList + Text.byteSize text⟩, ⟨'(', _, rfl, rfl⟩, ?_,
    @Derives.group _ _ ⟨tokens, tree⟩ rfl rfl (.weaken (or_le p) spells.derives), ?_⟩
  · exact spells.segment.between spells.head (by decide) (by decide) (by decide)
  · intro source holds
    exact reads_group rfl rfl (spells.reads source fun token member => holds token (by simp [member]))

theorem toList_parenthesized (wrap : Bool) (text : String) :
    (parenthesized wrap text).toList =
      if wrap then "(".toList ++ (text.toList ++ [')']) else text.toList := by
  cases wrap <;> simp [parenthesized]

theorem spelled_parenthesized {wrap : Bool} {text : String}
    (spelled : Spelled alphabet (.at q) e text.toList) (fits : wrap = false → p ≤ q) :
    Spelled alphabet (.at p) e (parenthesized wrap text).toList := by
  rw [toList_parenthesized]
  cases wrap with
  | true =>
      intro start
      obtain ⟨tokens, tree, spells⟩ := spelled (start + Text.byteSize "(".toList)
      obtain ⟨opening, closing, group⟩ := spells_group spells
      exact ⟨_, _, group.weaken (le_atom p)⟩
  | false => exact spelled.weaken (fits rfl)

theorem treeKind_of_reads {source : Source} {tree : RawTree} (reads : Reads source tree e)
    (notNumber : e.isNumericLiteral = false) :
    tree.treeKind ≠ .integer ∧ tree.treeKind ≠ .float := by
  have lowered := reads.lower none
  have kind : (RawTree.convert source none tree).kind = tree.treeKind := RawTree.convert_kind
  obtain ⟨converted, convertedEq⟩ : ∃ converted, RawTree.convert source none tree = converted :=
    ⟨_, rfl⟩
  rw [convertedEq] at lowered kind
  obtain ⟨_, span, text, field, children⟩ := converted
  simp only at kind
  subst kind
  constructor
  · intro same
    rw [same, lowerExpr, lowerInteger] at lowered
    split at lowered
    next found =>
      cases lowered
      exact Bool.false_ne_true (notNumber.symm.trans (Literal.isNumericLiteral_of_integer? found))
    next => cases lowered
  · intro same
    rw [same, lowerExpr, lowerFloat] at lowered
    split at lowered
    next found =>
      cases lowered
      exact Bool.false_ne_true (notNumber.symm.trans (Literal.isNumericLiteral_of_float? found))
    next => cases lowered

theorem spelled_sign
    (spelled : ∀ start, ∃ tokens tree, (∃ c cs, text = c :: cs ∧ opensWord c = true) ∧
      Segment alphabet isEnd start text tokens ∧ Derives (.at .unary) tokens tree ∧
      ∀ source (sign : Token), sign.isMark "-" = true → sign.Holds source →
        (∀ token ∈ tokens, token.Holds source) →
        Reads source (prefixedNode "unary_operator" (sign.leaf.inField "operator") tree) e) :
    Spelled alphabet (.at .unary) e ("-".toList ++ text) := by
  intro start
  obtain ⟨tokens, tree, head, segment, derives, reads⟩ := spelled (start + Text.byteSize "-".toList)
  refine ⟨⟨.mark, "-".toList, start⟩ :: tokens, _, ⟨'-', _, rfl, rfl⟩,
    segment_open _ (by decide) (head_not_markTail head) segment,
    @Derives.negation ⟨.mark, "-".toList, start⟩ ⟨tokens, tree⟩ rfl derives, ?_⟩
  intro source holds
  exact reads source _ rfl (holds _ (.head _)) fun token member => holds token (.tail _ member)

theorem spelled_negation {wrap : Bool} {text : String}
    (spelled : Spelled alphabet (.at q) a text.toList) (fits : wrap = false → .unary ≤ q)
    (apart : a.isNumericLiteral = true → wrap = true) :
    Spelled alphabet (.at .unary) (.unary .neg a) ("-".toList ++ (parenthesized wrap text).toList) := by
  rw [toList_parenthesized]
  refine spelled_sign fun start => ?_
  cases wrap with
  | true =>
      obtain ⟨tokens, tree, spells⟩ := spelled (start + Text.byteSize "(".toList)
      obtain ⟨opening, closing, group⟩ := spells_group spells
      refine ⟨_, _, group.head, group.segment, .weaken (le_atom _) group.derives, ?_⟩
      intro source sign isSign signHolds holds
      exact reads_negation isSign signHolds (group.reads source holds) (by rintro ⟨⟩) (by rintro ⟨⟩)
  | false =>
      obtain ⟨tokens, tree, spells⟩ := spelled start
      refine ⟨_, _, spells.head, spells.segment, .weaken (fits rfl) spells.derives, ?_⟩
      intro source sign isSign signHolds holds
      have reads : Reads source tree a := spells.reads source holds
      have notNumber : a.isNumericLiteral = false :=
        Bool.eq_false_iff.2 fun literal => Bool.false_ne_true (apart literal)
      obtain ⟨notInteger, notFloat⟩ := treeKind_of_reads reads notNumber
      exact reads_negation isSign signHolds reads notInteger notFloat

end Operations

section Numbers

variable {alphabet : Alphabet} {numeral : Numeral} {e : Expr}

theorem spelled_number (valid : numeral.Valid) {isFloat negative : Bool}
    (sort : numeral.isFloat = isFloat)
    (value : (if isFloat then Literal.float? negative (String.ofList numeral.chars)
      else Literal.integer? negative (String.ofList numeral.chars)) = some e) :
    Spelled alphabet (.at (if negative then .unary else .atom)) e
      ((if negative then "-".toList else []) ++ numeral.chars) := by
  subst sort
  have isWord : IsWord alphabet (if numeral.isFloat then .float else .integer) numeral.chars :=
    .number valid
  have notMark : (if numeral.isFloat then TokenKind.float else .integer) ≠ .mark := by
    split <;> decide
  have head := opensWord_of_word isWord notMark
  have isOperand (start : Nat) : Token.isOperand
      ⟨if numeral.isFloat then .float else .integer, numeral.chars, start⟩ = true := by
    unfold Token.isOperand
    split <;> trivial
  cases negative with
  | false =>
      refine spelled_word head (fun start => segment_number valid) isOperand
        fun source start holds => ?_
      split at value
      next isFloat => exact reads_float (if_pos isFloat) holds value
      next notFloat => exact reads_integer (if_neg notFloat) holds value
  | true =>
      refine spelled_sign fun start => ⟨_, _, head, segment_number valid,
        .weaken (by decide) (.operand (isOperand start)), ?_⟩
      intro source sign isSign signHolds holds
      split at value
      next isFloat =>
        exact reads_negated_float isSign signHolds (if_pos isFloat) (holds _ (.head _)) value
      next notFloat =>
        exact reads_negated_integer isSign signHolds (if_neg notFloat) (holds _ (.head _)) value

theorem spelled_integer (value : Int64) :
    Spelled alphabet (.at (.ofExpr (.integer value))) (.integer value)
      (toString value.toInt).toList := by
  have valid : (Numeral.mk (Nat.toDigits 10 value.toInt.natAbs) none none false).Valid :=
    ⟨Decimal.isDigits_toDigits _, by rintro _ ⟨⟩, by rintro _ ⟨⟩⟩
  have chars : (Numeral.mk (Nat.toDigits 10 value.toInt.natAbs) none none false).chars =
      Nat.toDigits 10 value.toInt.natAbs := by
    simp [Numeral.chars, Numeral.real, Numeral.pointChars, Numeral.exponentChars]
  have digits := Literal.integer?_digits value
  rw [← chars] at digits
  have spelled := @spelled_number alphabet _ (.integer value) valid false (value.toInt < 0) rfl digits
  have text : (toString value.toInt).toList =
      (if value.toInt < 0 then "-".toList else []) ++ Nat.toDigits 10 value.toInt.natAbs := by
    have repr : (toString value.toInt).toList = value.toInt.repr.toList := rfl
    rw [repr, Decimal.toList_repr_int]
    split <;> rfl
  have level : Precedence.ofExpr (.integer value) =
      if value.toInt < 0 then .unary else .atom := by
    simp only [Precedence.ofExpr, Int64.lt_iff_toInt_lt]
    rfl
  rw [text, level]
  simpa only [chars, decide_eq_true_eq] using spelled

theorem spelled_float {x : Binary64} (finite : x.isFinite = true) :
    Spelled alphabet (.at (.ofExpr (.float x))) (.float x) (x.text .source).toList := by
  obtain ⟨valid, isFloat⟩ := Decimal.numeral_valid .source (Binary64.shortest .up x.magnitude)
  have chars : x.numeral.chars = x.numeral.real := by
    simp [Numeral.chars, Binary64.numeral_isImaginary]
  have isFloat : x.numeral.isFloat = true := isFloat
  have value := Literal.float?_numeral finite
  rw [← chars] at value
  have spelled := @spelled_number alphabet x.numeral (.float x) valid true x.isNegative isFloat value
  rw [Binary64.text_of_finite finite]
  rwa [chars] at spelled

theorem spelled_complex {x : Binary64} (finite : x.isFinite = true) :
    Spelled alphabet (.at (.ofExpr (.complex x))) (.complex x)
      ((x.text .source).toList ++ ['j']) := by
  obtain ⟨valid, isFloat⟩ := Decimal.numeral_valid .source (Binary64.shortest .up x.magnitude)
  have spelled := @spelled_number alphabet { x.numeral with isImaginary := true } (.complex x)
    ⟨valid.whole, valid.fraction, valid.exponent⟩ true x.isNegative isFloat
    (Literal.float?_imaginary finite)
  rw [Binary64.text_of_finite finite, List.append_assoc]
  exact spelled

end Numbers

section Names

variable {alphabet : Alphabet} {parts : List String} {text : List Char}

theorem toList_joinWith (separator first : String) (more : List String) :
    (Text.joinWith separator (first :: more)).toList =
      first.toList ++ more.flatMap fun next => separator.toList ++ next.toList := by
  induction more generalizing first with
  | nil => simp
  | cons next more ih =>
      rw [Text.joinWith_cons_cons, String.toList_append, String.toList_append, ih, List.flatMap_cons]
      simp only [List.append_assoc]

def SpelledParts (alphabet : Alphabet) (parts : List String) (text : List Char) : Prop :=
  ∀ start, ∃ tokens tree, (∃ c cs, text = c :: cs ∧ opensWord c = true) ∧
    Segment alphabet (fun c => isEnd c || c == '.') start text tokens ∧
    Derives (.at .atom) tokens tree ∧ tree.kind ∈ ["identifier", "attribute"] ∧
    ∀ source, (∀ token ∈ tokens, token.Holds source) → ReadsParts source tree parts

theorem spelledParts_name {name : String} (isName : IsName alphabet name) :
    SpelledParts alphabet [name] name.toList := by
  refine fun start => ⟨_, _, opensWord_of_word isName (by decide), segment_name isName,
    .operand rfl, .head _, fun source holds => ?_⟩
  simpa using @readsParts_leaf source ⟨.name, name.toList, start⟩ rfl (holds _ (.head _))

theorem SpelledParts.attribute {name : String} (spelled : SpelledParts alphabet parts text)
    (isName : IsName alphabet name) :
    SpelledParts alphabet (parts ++ [name]) (text ++ (".".toList ++ name.toList)) := by
  intro start
  obtain ⟨tokens, tree, ⟨c, cs, same, leads⟩, segment, derives, _, reads⟩ := spelled start
  obtain ⟨d, ds, word, leads'⟩ := opensWord_of_word isName (by decide)
  have dot := @segment_mark alphabet (start + Text.byteSize text) ".".toList (by decide)
  refine ⟨_, _, ⟨c, cs ++ (".".toList ++ name.toList), by rw [same]; rfl, leads⟩,
    segment.append (dot.append (segment_name isName) ⟨d, ds, word, by simp [isMarkTail_of_opens leads']⟩)
      ⟨'.', name.toList, rfl, by decide⟩,
    @Derives.attributeAccess ⟨tokens, tree⟩ ⟨.mark, ".".toList, _⟩ ⟨.name, name.toList, _⟩ rfl rfl
      derives, .tail _ (.head _), ?_⟩
  intro source holds
  have inner := reads source fun token member => holds token (List.mem_append_left _ member)
  have last := @readsParts_attribute source tree parts
    ⟨.mark, ".".toList, start + Text.byteSize text⟩
    ⟨.name, name.toList, start + Text.byteSize text + Text.byteSize ".".toList⟩ rfl
    (holds _ (by simp)) inner
  simpa using last

theorem SpelledParts.attributes {more : List String} (spelled : SpelledParts alphabet parts text)
    (names : ∀ name ∈ more, IsName alphabet name) :
    SpelledParts alphabet (parts ++ more)
      (text ++ more.flatMap fun name => ".".toList ++ name.toList) := by
  induction more generalizing parts text with
  | nil => simpa using spelled
  | cons name more ih =>
      have longer := ih (spelled.attribute (names name (.head _)))
        fun other member => names other (.tail _ member)
      simpa using longer

theorem spelledParts_dotted {name : DottedName}
    (names : ∀ part ∈ name.parts, IsName alphabet part) :
    SpelledParts alphabet name.parts name.text.toList := by
  rcases parts : name.parts with _ | ⟨first, more⟩
  · have two := name.two_le
    rw [parts] at two
    cases two
  · rw [parts] at names
    rw [DottedName.text, parts, toList_joinWith]
    exact (spelledParts_name (names first (.head _))).attributes
      fun other member => names other (.tail _ member)

theorem spelled_dotted {name : DottedName} (names : ∀ part ∈ name.parts, IsName alphabet part) :
    Spelled alphabet (.at .atom) (.dotted name) name.text.toList := by
  intro start
  obtain ⟨tokens, tree, head, segment, derives, _, reads⟩ := spelledParts_dotted names start
  exact ⟨tokens, tree, head, segment.imp fun c isEnd => by simp [isEnd], derives,
    fun source holds => (reads source holds).dotted.1⟩

def IsCallee (alphabet : Alphabet) : Name → Prop
  | .symbol symbol => symbol.info = none ∧ IsName alphabet symbol.name
  | .dotted name => ∀ part ∈ name.parts, IsName alphabet part

theorem spelled_callee {callee : Name} (isCallee : IsCallee alphabet callee) (start : Nat) :
    ∃ tokens tree, (∃ c cs, callee.text.toList = c :: cs ∧ opensWord c = true) ∧
      Segment alphabet isEnd start callee.text.toList tokens ∧ Derives (.at .atom) tokens tree ∧
      ∀ source, (∀ token ∈ tokens, token.Holds source) → ReadsCallee source tree callee := by
  cases callee with
  | symbol symbol =>
      obtain ⟨name, info⟩ := symbol
      obtain ⟨rfl, isName⟩ := isCallee
      refine ⟨_, _, opensWord_of_word isName (by decide),
        (segment_name isName).imp fun c isEnd => by simp [isEnd], .operand rfl,
        fun source holds => ?_⟩
      have reads := @readsCallee_name source ⟨.name, name.toList, start⟩ rfl (holds _ (.head _))
      simp only [String.ofList_toList] at reads
      exact reads
  | dotted name =>
      obtain ⟨tokens, tree, head, segment, derives, _, reads⟩ := spelledParts_dotted isCallee start
      exact ⟨tokens, tree, head, segment.imp fun c isEnd => by simp [isEnd], derives,
        fun source holds => (reads source holds).dotted.2⟩

end Names

end Grammar

end NumericPython

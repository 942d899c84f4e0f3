import NumericPython.Proofs.Literal.Numbers
import NumericPython.Proofs.Literal.Strings
import NumericPython.Text.Bytes

set_option autoImplicit false

/-!
The words of Python. A text is a sequence of words with spaces between them, each word the longest
one that stands at its place. Which characters outside ASCII may stand in names is left open.
-/

namespace NumericPython

namespace Grammar

/-- The characters that begin names, and those that continue them. -/
structure Alphabet where
  isStart : Char → Bool
  isPart : Char → Bool
  isStart_ascii : ∀ c, c.toNat < 128 → isStart c = (c.isAlpha || c == '_')
  isPart_ascii : ∀ c, c.toNat < 128 → isPart c = (c.isAlphanum || c == '_')

def Alphabet.ascii : Alphabet where
  isStart c := c.isAlpha || c == '_'
  isPart c := c.isAlphanum || c == '_'
  isStart_ascii _ _ := rfl
  isPart_ascii _ _ := rfl

inductive TokenKind where
  | name
  | integer
  | float
  | string
  | mark
deriving DecidableEq

structure Token where
  kind : TokenKind
  text : List Char
  start : Nat

namespace Token

def stop (token : Token) : Nat :=
  token.start + Text.byteSize token.text

def isMark (token : Token) (text : String) : Bool :=
  token.kind == .mark && token.text == text.toList

theorem eq_of_isMark {token : Token} {text : String} (isMark : token.isMark text = true) :
    token = ⟨.mark, text.toList, token.start⟩ := by
  obtain ⟨kind, chars, start⟩ := token
  simp only [Token.isMark, Bool.and_eq_true, beq_iff_eq] at isMark
  rw [isMark.1, isMark.2]

end Token

def keywords : List (List Char) :=
  ["False", "None", "True", "and", "as", "assert", "async", "await", "break", "class", "continue",
    "def", "del", "elif", "else", "except", "finally", "for", "from", "global", "if", "import", "in",
    "is", "lambda", "nonlocal", "not", "or", "pass", "raise", "return", "try", "while", "with",
    "yield"].map String.toList

def marks : List (List Char) :=
  ["(", ")", "[", "]", "\x7b", "\x7d", ",", ":", ".", ";", "@", "=", "->", "+", "-", "*", "/", "//", "%",
    "**", "<<", ">>", "&", "|", "^", "~", "<", ">", "<=", ">=", "==", "!=", "<>", ":=", "+=", "-=",
    "*=", "/=", "//=", "%=", "@=", "&=", "|=", "^=", ">>=", "<<=", "**=", "..."].map String.toList

/-- What may stand between quotes on one line; a backslash takes the next character along. -/
inductive IsContent (quote : Char) : List Char → Prop
  | nil : IsContent quote []
  | plain {c : Char} {cs : List Char} (other : c ≠ quote) (notBackslash : c ≠ '\\')
      (sameLine : c ≠ '\n') (rest : IsContent quote cs) : IsContent quote (c :: cs)
  | escape {c : Char} {cs : List Char} (sameLine : c ≠ '\n') (rest : IsContent quote cs) :
      IsContent quote ('\\' :: c :: cs)

inductive IsWord (alphabet : Alphabet) : TokenKind → List Char → Prop
  | name {c : Char} {cs : List Char} (start : alphabet.isStart c = true)
      (part : ∀ d ∈ cs, alphabet.isPart d = true) :
      IsWord alphabet (if c :: cs ∈ keywords then .mark else .name) (c :: cs)
  | number {numeral : Numeral} (valid : numeral.Valid) :
      IsWord alphabet (if numeral.isFloat then .float else .integer) numeral.chars
  | string {quote : Char} {content : List Char} (isQuote : Quoted.isQuote quote = true)
      (inside : IsContent quote content) : IsWord alphabet .string (quote :: content ++ [quote])
  | mark {word : List Char} (known : word ∈ marks) : IsWord alphabet .mark word

def IsName (alphabet : Alphabet) (name : String) : Prop :=
  IsWord alphabet .name name.toList

/-- The words of a text that starts at byte `start`. -/
inductive Lexes (alphabet : Alphabet) : Nat → List Char → List Token → Prop
  | done {start : Nat} : Lexes alphabet start [] []
  | space {start : Nat} {cs : List Char} {tokens : List Token}
      (rest : Lexes alphabet (start + 1) cs tokens) : Lexes alphabet start (' ' :: cs) tokens
  | word {start : Nat} {kind : TokenKind} {word cs : List Char} {tokens : List Token}
      (isWord : IsWord alphabet kind word)
      (longest : ∀ other kind', IsWord alphabet kind' other → other <+: word ++ cs →
        other.length ≤ word.length)
      (rest : Lexes alphabet (start + Text.byteSize word) cs tokens) :
      Lexes alphabet start (word ++ cs) (⟨kind, word, start⟩ :: tokens)

def signs : List Char :=
  "()[]\x7b\x7d,:.;@=-+*/%<>&|^~!".toList

def isMarkTail (c : Char) : Bool :=
  c == '=' || c == '>' || c == '*' || c == '/' || c == '<' || c == '.'

theorem mark_spelling {word : List Char} (known : word ∈ marks) :
    ∃ c cs, word = c :: cs ∧ c ∈ signs ∧ ∀ d ∈ cs, isMarkTail d = true := by
  have all : ∀ word ∈ marks, word ≠ [] ∧ word.head?.all signs.contains = true ∧
      word.tail.all isMarkTail = true := by decide
  obtain ⟨some_word, first, later⟩ := all word known
  rcases word with _ | ⟨c, cs⟩
  · exact absurd rfl some_word
  · exact ⟨c, cs, rfl, List.contains_iff_mem.mp first, List.all_eq_true.mp later⟩

variable {alphabet : Alphabet} {kind : TokenKind}

theorem isStart_of_sign {c : Char} (sign : c ∈ signs) :
    alphabet.isStart c = false ∧ c.isDigit = false ∧ Quoted.isQuote c = false ∧ c ≠ ' ' := by
  have all : signs.all (fun c => c.toNat < 128 ∧ (c.isAlpha || c == '_') = false ∧
      c.isDigit = false ∧ Quoted.isQuote c = false ∧ c ≠ ' ') = true := by decide
  obtain ⟨ascii, letter, others⟩ := of_decide_eq_true (List.all_eq_true.mp all c sign)
  exact ⟨(alphabet.isStart_ascii c ascii).trans letter, others⟩

theorem toNat_lt_of_isDigit {c : Char} (digit : c.isDigit = true) : c.toNat < 58 := by
  simp only [Char.isDigit, Bool.and_eq_true, decide_eq_true_eq] at digit
  have upper : c.toNat ≤ '9'.toNat := digit.2
  have nine : '9'.toNat = 57 := rfl
  omega

theorem isStart_of_digit {c : Char} (digit : c.isDigit = true) :
    alphabet.isStart c = false ∧ Quoted.isQuote c = false := by
  have small := toNat_lt_of_isDigit digit
  have letter : (c.isAlpha || c == '_') = false := by
    have upper : 'A'.val.toNat = 65 := rfl
    have lower : 'a'.val.toNat = 97 := rfl
    have line : '_'.toNat = 95 := rfl
    have split : c.isAlpha = (decide (c.val ≥ 'A'.val ∧ c.val ≤ 'Z'.val) ||
        (decide (c.val ≥ 'a'.val) && decide (c.val ≤ 'z'.val))) := rfl
    simp only [split, Bool.or_eq_false_iff, Bool.and_eq_false_iff, decide_eq_false_iff_not,
      beq_eq_false_iff_ne, ge_iff_le, UInt32.le_iff_toNat_le]
    have value : c.val.toNat = c.toNat := rfl
    refine ⟨⟨fun both => ?_, ?_⟩, ?_⟩
    · omega
    · omega
    · rintro rfl
      omega
  refine ⟨(alphabet.isStart_ascii c (by omega)).trans letter, ?_⟩
  simp only [Quoted.isQuote, Bool.or_eq_false_iff, decide_eq_false_iff_not]
  constructor <;> rintro rfl <;> cases digit

theorem isStart_of_quote {c : Char} (isQuote : Quoted.isQuote c = true) :
    alphabet.isStart c = false := by
  simp only [Quoted.isQuote, Bool.or_eq_true, decide_eq_true_eq] at isQuote
  rcases isQuote with rfl | rfl <;> exact alphabet.isStart_ascii _ (by decide)

theorem IsWord.of_start {c : Char} {cs : List Char} (start : alphabet.isStart c = true)
    (word : IsWord alphabet kind (c :: cs)) :
    (∀ d ∈ cs, alphabet.isPart d = true) ∧
      kind = if c :: cs ∈ keywords then .mark else .name := by
  generalize text : c :: cs = chars at word
  cases word with
  | name _ part =>
      cases text
      exact ⟨part, rfl⟩
  | @number numeral valid =>
      obtain ⟨d, ds, chars, digit⟩ := Numeral.chars_cons valid
      rw [chars] at text
      cases text
      rw [(isStart_of_digit digit).1] at start
      cases start
  | string isQuote _ =>
      cases text
      rw [isStart_of_quote isQuote] at start
      cases start
  | mark known =>
      obtain ⟨d, ds, chars, sign, _⟩ := mark_spelling known
      rw [chars] at text
      cases text
      rw [(isStart_of_sign sign).1] at start
      cases start

theorem IsWord.of_digit {c : Char} {cs : List Char} (digit : c.isDigit = true)
    (word : IsWord alphabet kind (c :: cs)) :
    ∃ numeral : Numeral, numeral.Valid ∧ numeral.chars = c :: cs ∧
      kind = if numeral.isFloat then .float else .integer := by
  generalize text : c :: cs = chars at word
  cases word with
  | name start _ =>
      cases text
      rw [(isStart_of_digit digit).1] at start
      cases start
  | @number numeral valid => exact ⟨numeral, valid, rfl, rfl⟩
  | string isQuote _ =>
      cases text
      rw [(@isStart_of_digit alphabet _ digit).2] at isQuote
      cases isQuote
  | mark known =>
      obtain ⟨d, ds, chars, sign, _⟩ := mark_spelling known
      rw [chars] at text
      cases text
      rw [(@isStart_of_sign alphabet _ sign).2.1] at digit
      cases digit

theorem IsWord.of_quote {quote : Char} {cs : List Char} (isQuote : Quoted.isQuote quote = true)
    (word : IsWord alphabet kind (quote :: cs)) :
    kind = .string ∧ ∃ content, IsContent quote content ∧ cs = content ++ [quote] := by
  generalize text : quote :: cs = chars at word
  cases word with
  | name start _ =>
      cases text
      rw [isStart_of_quote isQuote] at start
      cases start
  | @number numeral valid =>
      obtain ⟨d, ds, chars, digit⟩ := Numeral.chars_cons valid
      rw [chars] at text
      cases text
      rw [(@isStart_of_digit alphabet _ digit).2] at isQuote
      cases isQuote
  | @string _ content _ inside =>
      cases text
      exact ⟨rfl, content, inside, rfl⟩
  | mark known =>
      obtain ⟨d, ds, chars, sign, _⟩ := mark_spelling known
      rw [chars] at text
      cases text
      rw [(@isStart_of_sign alphabet _ sign).2.2.1] at isQuote
      cases isQuote

theorem IsWord.of_sign {c : Char} {cs : List Char} (sign : c ∈ signs)
    (word : IsWord alphabet kind (c :: cs)) : kind = .mark ∧ c :: cs ∈ marks := by
  obtain ⟨notStart, notDigit, notQuote, _⟩ := @isStart_of_sign alphabet c sign
  generalize text : c :: cs = chars at word
  cases word with
  | name start _ =>
      cases text
      rw [notStart] at start
      cases start
  | @number numeral valid =>
      obtain ⟨d, ds, chars, digit⟩ := Numeral.chars_cons valid
      rw [chars] at text
      cases text
      rw [notDigit] at digit
      cases digit
  | string isQuote _ =>
      cases text
      rw [notQuote] at isQuote
      cases isQuote
  | mark known => exact ⟨rfl, known⟩

theorem IsWord.cases_head {word : List Char} (isWord : IsWord alphabet kind word) :
    ∃ c cs, word = c :: cs ∧ (alphabet.isStart c = true ∨ c.isDigit = true ∨
      Quoted.isQuote c = true ∨ c ∈ signs) := by
  cases isWord with
  | @name c cs start _ => exact ⟨c, cs, rfl, .inl start⟩
  | number valid =>
      obtain ⟨c, cs, chars, digit⟩ := Numeral.chars_cons valid
      exact ⟨c, cs, chars, .inr (.inl digit)⟩
  | @string quote content isQuote _ =>
      exact ⟨quote, content ++ [quote], rfl, .inr (.inr (.inl isQuote))⟩
  | mark known =>
      obtain ⟨c, cs, chars, sign, _⟩ := mark_spelling known
      exact ⟨c, cs, chars, .inr (.inr (.inr sign))⟩

theorem IsWord.kind_unique {other : TokenKind} {word : List Char}
    (isWord : IsWord alphabet kind word) (isWord' : IsWord alphabet other word) : kind = other := by
  obtain ⟨c, cs, rfl, start | digit | isQuote | sign⟩ := isWord.cases_head
  · exact (isWord.of_start start).2.trans (isWord'.of_start start).2.symm
  · obtain ⟨numeral, valid, chars, rfl⟩ := isWord.of_digit digit
    obtain ⟨numeral', valid', chars', rfl⟩ := isWord'.of_digit digit
    have same : numeral.isFloat = numeral'.isFloat := by
      rw [Bool.eq_iff_iff, Numeral.isFloat_iff valid, Numeral.isFloat_iff valid', chars, chars']
    rw [same]
  · exact (isWord.of_quote isQuote).1.trans (isWord'.of_quote isQuote).1.symm
  · exact (isWord.of_sign sign).1.trans (isWord'.of_sign sign).1.symm

theorem IsWord.no_space {word cs cs' : List Char} (isWord : IsWord alphabet kind word)
    (same : ' ' :: cs = word ++ cs') : False := by
  obtain ⟨c, rest, rfl, classes⟩ := isWord.cases_head
  cases same
  rcases classes with start | digit | isQuote | sign
  · rw [alphabet.isStart_ascii ' ' (by decide)] at start
    cases start
  · cases digit
  · cases isQuote
  · exact (@isStart_of_sign alphabet _ sign).2.2.2 rfl

theorem Lexes.unique {start : Nat} {text : List Char} {tokens others : List Token}
    (lexes : Lexes alphabet start text tokens) (lexes' : Lexes alphabet start text others) :
    tokens = others := by
  induction lexes generalizing others with
  | done =>
      generalize text : [] = chars at lexes'
      cases lexes' with
      | done => rfl
      | space _ => cases text
      | word isWord _ _ =>
          obtain ⟨c, cs, rfl, _⟩ := isWord.cases_head
          cases text
  | @space start cs tokens rest ih =>
      generalize text : ' ' :: cs = chars at lexes'
      cases lexes' with
      | done => cases text
      | space rest' =>
          cases text
          exact ih rest'
      | word isWord _ _ => exact (isWord.no_space text).elim
  | @word start kind word cs tokens isWord longest rest ih =>
      generalize text : word ++ cs = chars at lexes'
      cases lexes' with
      | done =>
          obtain ⟨c, cs, rfl, _⟩ := isWord.cases_head
          cases text
      | space _ => exact (isWord.no_space text.symm).elim
      | @word _ kind' word' cs' tokens' isWord' longest' rest' =>
          have upper := longest word' kind' isWord' (text ▸ List.prefix_append ..)
          have lower := longest' word kind isWord (text ▸ List.prefix_append ..)
          obtain ⟨rfl, rfl⟩ := List.append_inj text (by omega)
          rw [isWord.kind_unique isWord', ih rest']

theorem exists_of_longer {word other cs : List Char} (isPrefix : other <+: word ++ cs)
    (longer : word.length < other.length) : ∃ c ds, cs.head? = some c ∧ other = word ++ c :: ds := by
  obtain ⟨rest, whole⟩ := isPrefix
  have inner : word <+: other := by
    have left : word <+: other ++ rest := whole ▸ List.prefix_append ..
    exact List.prefix_of_prefix_length_le left (List.prefix_append ..) (by omega)
  obtain ⟨more, rfl⟩ := inner
  rcases more with _ | ⟨c, ds⟩
  · simp at longer
  · rw [List.append_assoc] at whole
    have tail := List.append_cancel_left whole
    exact ⟨c, ds, by rw [← tail]; rfl, rfl⟩

theorem longest_of_next {word cs : List Char}
    (stop : ∀ c ∈ cs.head?, ∀ kind' ds, ¬IsWord alphabet kind' (word ++ c :: ds)) :
    ∀ other kind', IsWord alphabet kind' other → other <+: word ++ cs →
      other.length ≤ word.length := by
  intro other kind' isWord' isPrefix
  refine Nat.not_lt.1 fun longer => ?_
  obtain ⟨c, ds, next, rfl⟩ := exists_of_longer isPrefix longer
  exact stop c next kind' ds isWord'

theorem name_longest {word cs : List Char} (isWord : IsWord alphabet kind word)
    (start : ∀ c ∈ word.head?, alphabet.isStart c = true)
    (stop : ∀ c ∈ cs.head?, alphabet.isPart c = false) :
    ∀ other kind', IsWord alphabet kind' other → other <+: word ++ cs →
      other.length ≤ word.length := by
  refine longest_of_next fun c next kind' ds isWord' => ?_
  obtain ⟨d, rest, rfl, _⟩ := isWord.cases_head
  have part := (isWord'.of_start (start d rfl)).1 c (by simp)
  rw [stop c next] at part
  cases part

theorem number_longest {word cs : List Char} (isWord : IsWord alphabet kind word)
    (digit : ∀ c ∈ word.head?, c.isDigit = true)
    (stop : ∀ c ∈ cs.head?, c.isDigit = false ∧ Numeral.isMark c = false) :
    ∀ other kind', IsWord alphabet kind' other → other <+: word ++ cs →
      other.length ≤ word.length := by
  refine longest_of_next fun c next kind' ds isWord' => ?_
  obtain ⟨d, rest, rfl, _⟩ := isWord.cases_head
  obtain ⟨numeral, valid, chars, _⟩ := isWord'.of_digit (digit d rfl)
  have inside : c ∈ numeral.chars := by
    rw [chars]
    simp
  rcases Numeral.mem_chars valid inside with digit | mark
  · rw [(stop c next).1] at digit
    cases digit
  · rw [(stop c next).2] at mark
    cases mark

theorem mark_longest {word cs : List Char} (isWord : IsWord alphabet kind word)
    (sign : ∀ c ∈ word.head?, c ∈ signs) (stop : ∀ c ∈ cs.head?, isMarkTail c = false) :
    ∀ other kind', IsWord alphabet kind' other → other <+: word ++ cs →
      other.length ≤ word.length := by
  refine longest_of_next fun c next kind' ds isWord' => ?_
  obtain ⟨d, rest, rfl, _⟩ := isWord.cases_head
  obtain ⟨_, _, same, _, later⟩ := mark_spelling (isWord'.of_sign (sign d rfl)).2
  cases same
  have tail := later c (by simp)
  rw [stop c next] at tail
  cases tail

theorem IsContent.eq_of_prefix {quote : Char} (notBackslash : quote ≠ '\\') {cs ds : List Char}
    (inside : IsContent quote cs) (inside' : IsContent quote ds)
    (isPrefix : cs ++ [quote] <+: ds ++ [quote]) : cs = ds := by
  induction inside generalizing ds with
  | nil =>
      cases inside' with
      | nil => rfl
      | plain other _ _ _ => exact absurd (List.cons_prefix_cons.1 isPrefix).1.symm other
      | escape _ _ => exact absurd (List.cons_prefix_cons.1 isPrefix).1 notBackslash
  | @plain c cs other escape _ rest ih =>
      cases inside' with
      | nil => exact absurd (List.cons_prefix_cons.1 isPrefix).1 other
      | plain _ _ _ rest' =>
          obtain ⟨rfl, tail⟩ := List.cons_prefix_cons.1 isPrefix
          rw [ih rest' tail]
      | escape _ _ => exact absurd (List.cons_prefix_cons.1 isPrefix).1 escape
  | @escape c cs _ rest ih =>
      cases inside' with
      | nil => exact absurd (List.cons_prefix_cons.1 isPrefix).1.symm notBackslash
      | plain _ escape _ _ => exact absurd (List.cons_prefix_cons.1 isPrefix).1.symm escape
      | escape _ rest' =>
          obtain ⟨rfl, tail⟩ := List.cons_prefix_cons.1 (List.cons_prefix_cons.1 isPrefix).2
          rw [ih rest' tail]

theorem string_longest {quote : Char} (isQuote : Quoted.isQuote quote = true)
    {content cs : List Char} (inside : IsContent quote content) :
    ∀ other kind', IsWord alphabet kind' other → other <+: (quote :: content ++ [quote]) ++ cs →
      other.length ≤ (quote :: content ++ [quote]).length := by
  intro other kind' isWord' isPrefix
  refine Nat.not_lt.1 fun longer => ?_
  obtain ⟨c, ds, _, rfl⟩ := exists_of_longer isPrefix longer
  obtain ⟨_, content', inside', same⟩ := isWord'.of_quote isQuote
  have notBackslash : quote ≠ '\\' := by
    rintro rfl
    cases isQuote
  have isPrefix' : content ++ [quote] <+: content' ++ [quote] := by
    rw [← same]
    exact List.prefix_append ..
  rw [inside.eq_of_prefix notBackslash inside' isPrefix'] at same
  simpa using congrArg List.length same

end Grammar

end NumericPython

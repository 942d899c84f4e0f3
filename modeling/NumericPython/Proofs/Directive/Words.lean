import NumericPython.Proofs.Directive.Parentheses
import NumericPython.Proofs.Lists
import NumericPython.Proofs.Text.Slices

set_option autoImplicit false

namespace NumericPython

namespace Directive

/-- The word behind the blanks at the front of a text. It ends where a blank stands outside of
parentheses, or with the text. -/
def IsFirstWord (text word : List Char) : Prop :=
  ∃ gap rest, text = gap ++ (word ++ rest) ∧ (∀ c ∈ gap, Text.isBlank c = true) ∧
    (∀ front c back, word = front ++ c :: back → ¬ Separates front c) ∧
    ∀ c ∈ rest.head?, Separates word c

/-- A text from byte `offset` on, cut into words. -/
inductive Cut : Nat → List Char → List Word → Prop
  | blanks {offset : Nat} {gap : List Char} (blank : ∀ c ∈ gap, Text.isBlank c = true) :
      Cut offset gap []
  | word {offset : Nat} {gap text rest : List Char} {words : List Word}
      (blank : ∀ c ∈ gap, Text.isBlank c = true) (filled : text ≠ []) (inside : nests 0 text = true)
      (ends : ∀ c ∈ rest.head?, Text.isBlank c = true)
      (others : Cut (offset + Text.byteSize gap + Text.byteSize text) rest words) :
      Cut offset (gap ++ (text ++ rest)) (⟨offset + Text.byteSize gap, text⟩ :: words)

section Splitting

variable {offset : Nat} {text rest : List Char} {words : List Word}

theorem Cut.cons_blank {c : Char} (blank : Text.isBlank c = true)
    (cut : Cut (offset + c.utf8Size) rest words) : Cut offset (c :: rest) words := by
  cases cut with
  | blanks blanks => exact .blanks (List.forall_mem_cons.2 ⟨blank, blanks⟩)
  | @word _ gap text rest words blanks filled inside ends others =>
      have start : offset + c.utf8Size + Text.byteSize gap = offset + Text.byteSize (c :: gap) := by
        rw [Text.byteSize_cons]
        omega
      rw [start] at others ⊢
      exact .word (List.forall_mem_cons.2 ⟨blank, blanks⟩) filled inside ends others

theorem Cut.finishWord (inside : nests 0 text = true)
    (ends : ∀ c ∈ rest.head?, Text.isBlank c = true)
    (cut : Cut (offset + Text.byteSize text) rest words) :
    Cut offset (text ++ rest) (Directive.finishWord (offset + Text.byteSize text) text ++ words) := by
  cases text with
  | nil => exact cut
  | cons c text =>
      have start : offset + Text.byteSize (c :: text) - Text.byteSize (c :: text) =
          offset + Text.byteSize [] := by simp
      rw [Directive.finishWord, List.isEmpty_cons, if_neg Bool.false_ne_true, start]
      exact @Cut.word offset [] (c :: text) rest words (by simp) (by simp) inside ends cut

-- The invariant of the scan: what is read of the open word leaves the word at its depth.
theorem cut_of_splitWords {depth : Nat} {word cs : List Char}
    (opened : ∀ rest, nests 0 (word ++ rest) = nests depth rest)
    (split : splitWords (offset + Text.byteSize word) depth word cs = some words) :
    Cut offset (word ++ cs) words := by
  have closed : nests 0 word = (depth == 0) := by
    rw [← List.append_nil word, opened, nests]
  induction cs generalizing offset depth word words with
  | nil =>
      rw [splitWords] at split
      split at split
      next zero =>
        cases split
        have cut : Cut (offset + Text.byteSize word) [] [] := .blanks (by simp)
        have finished : Cut offset (word ++ [])
            (Directive.finishWord (offset + Text.byteSize word) word ++ []) :=
          cut.finishWord (by simp [closed, zero]) (by simp)
        simpa using finished
      next => cases split
  | cons c cs ih =>
      rw [splitWords] at split
      cases after : depthAfter depth c with
      | none =>
          rw [after] at split
          cases split
      | some inner =>
          rw [after] at split
          dsimp only at split
          by_cases ends : (Text.isBlank c && inner == 0) = true
          · -- The blank ends the open word.
            rw [if_pos ends] at split
            obtain ⟨others, found, rfl⟩ := Option.map_eq_some_iff.1 split
            simp only [Bool.and_eq_true, beq_iff_eq] at ends
            obtain ⟨blank, rfl⟩ := ends
            have level : depth = 0 := by
              obtain ⟨opening, closing⟩ := ne_of_isBlank blank
              rw [depthAfter_other opening closing] at after
              exact Option.some.inj after
            have cut : Cut (offset + Text.byteSize word + c.utf8Size) ([] ++ cs) others :=
              ih (fun _ => rfl) (by simpa using found) rfl
            exact (cut.cons_blank blank).finishWord (by simp [closed, level]) (by simpa using blank)
          · -- The character belongs to the open word.
            rw [if_neg ends] at split
            have grown : Text.byteSize (word ++ [c]) = Text.byteSize word + c.utf8Size := by simp
            have still (rest : List Char) : nests 0 ((word ++ [c]) ++ rest) = nests inner rest := by
              rw [Bool.not_eq_true] at ends
              rw [List.append_assoc, opened, List.singleton_append, nests, after]
              simp [ends]
            have cut : Cut offset ((word ++ [c]) ++ cs) words := by
              apply ih still
              · rwa [grown, ← Nat.add_assoc]
              · rw [← List.append_nil (word ++ [c]), still, nests]
            simpa using cut

theorem isSome_splitWords (offset depth : Nat) (word cs : List Char) :
    (splitWords offset depth word cs).isSome = balanced depth cs := by
  induction cs generalizing offset depth word with
  | nil => by_cases zero : depth = 0 <;> simp [splitWords, balanced, zero]
  | cons c cs ih =>
      rw [splitWords, balanced]
      cases depthAfter depth c with
      | none => rfl
      | some inner =>
          dsimp only
          split
          · rw [Option.isSome_map, ih]
          · rw [ih]

end Splitting

namespace Cut

variable {offset : Nat} {text : List Char} {words : List Word}

theorem isClause (cut : Cut offset text words) :
    ∀ word ∈ words, Directive.isClause (String.ofList word.text) = true := by
  induction cut with
  | blanks => simp
  | word blank filled inside ends others ih =>
      rw [List.forall_mem_cons]
      refine ⟨?_, ih⟩
      simp [Directive.isClause, inside, filled]

theorem stands (cut : Cut offset text words) : ∀ word ∈ words, ∃ front back,
    text = front ++ word.text ++ back ∧ word.start = offset + Text.byteSize front := by
  induction cut with
  | blanks => simp
  | @word offset gap text rest words blank filled inside ends others ih =>
      intro word member
      rcases List.mem_cons.1 member with rfl | member
      · exact ⟨gap, rest, by simp, rfl⟩
      · obtain ⟨front, back, rfl, start⟩ := ih word member
        refine ⟨gap ++ (text ++ front), back, by simp, ?_⟩
        rw [start, Text.byteSize_append, Text.byteSize_append]
        omega

theorem offset_le (cut : Cut offset text words) : ∀ word ∈ words, offset ≤ word.start := by
  intro word member
  obtain ⟨front, back, -, start⟩ := cut.stands word member
  omega

theorem head_not_blank {word : List Char} (filled : word ≠ []) (inside : nests 0 word = true) :
    ∃ c rest, word = c :: rest ∧ Text.isBlank c = false := by
  cases word with
  | nil => exact absurd rfl filled
  | cons c rest =>
      refine ⟨c, rest, rfl, ?_⟩
      have outside : ¬ Separates [] c := not_separates_of_nests inside
      simpa [Separates] using outside

-- Where a blank stands first, no word starts.
theorem offset_lt (cut : Cut offset text words) (blank : ∀ c ∈ text.head?, Text.isBlank c = true) :
    ∀ word ∈ words, offset < word.start := by
  cases cut with
  | blanks => simp
  | @word _ gap text rest words gapBlank filled inside ends others =>
      have first : offset < offset + Text.byteSize gap := by
        cases gap with
        | nil =>
            obtain ⟨c, tail, rfl, solid⟩ := head_not_blank filled inside
            have same := blank c (by simp)
            rw [solid] at same
            cases same
        | cons c gap =>
            have size := c.utf8Size_pos
            rw [Text.byteSize_cons]
            omega
      intro word member
      rcases List.mem_cons.1 member with rfl | member
      · exact first
      · have later := others.offset_le word member
        omega

theorem apart (cut : Cut offset text words) :
    words.Pairwise fun word next => word.start + Text.byteSize word.text < next.start := by
  induction cut with
  | blanks => exact .nil
  | word blank filled inside ends others ih =>
      exact .cons (fun next member => others.offset_lt ends next member) ih

theorem separates_iff (cut : Cut offset text words) {front back : List Char} {c : Char}
    (place : text = front ++ c :: back) {byte : Nat} (low : offset + Text.byteSize front ≤ byte)
    (high : byte < offset + Text.byteSize front + c.utf8Size) :
    (∀ word ∈ words, ¬ (word.start ≤ byte ∧ byte < word.start + Text.byteSize word.text)) ↔
      Separates front c := by
  induction cut generalizing front with
  | @blanks offset gap blank =>
      subst place
      rw [List.forall_mem_append, List.forall_mem_cons] at blank
      obtain ⟨opening, closing⟩ := count_of_blanks blank.1
      simp [Separates, blank.2.1, opening, closing]
  | @word offset gap text rest words blank filled inside ends others ih =>
      obtain ⟨opening, closing⟩ := count_of_blanks blank
      have level := count_of_nests inside
      rw [List.forall_mem_cons]
      dsimp only
      rcases Text.place_cases place with ⟨behind, rfl⟩ | ⟨front, rfl, later⟩
      · -- In the blanks in front of the first word.
        rw [List.forall_mem_append, List.forall_mem_cons] at blank
        obtain ⟨opening, closing⟩ := count_of_blanks blank.1
        rw [Text.byteSize_append, Text.byteSize_cons] at others
        constructor
        · intro _
          exact ⟨blank.2.1, by rw [opening, closing]⟩
        · intro _
          refine ⟨?_, fun word member => ?_⟩
          · rw [Text.byteSize_append, Text.byteSize_cons]
            omega
          · have later := others.offset_le word member
            omega
      · rw [Text.byteSize_append] at low high
        rcases Text.place_cases later with ⟨behind, rfl⟩ | ⟨front, rfl, behind⟩
        · -- In the first word.
          have outside := not_separates_of_nests inside
          rw [Text.byteSize_append, Text.byteSize_cons]
          constructor
          · rintro ⟨misses, -⟩
            exact absurd ⟨by omega, by omega⟩ misses
          · rintro ⟨separates, counts⟩
            refine absurd ⟨separates, ?_⟩ outside
            rw [List.count_append, List.count_append, opening, closing] at counts
            omega
        · -- Behind the first word.
          rw [Text.byteSize_append] at low high
          have same : Separates (gap ++ (text ++ front)) c ↔ Separates front c := by
            simp only [Separates, List.count_append, opening, closing, level, Nat.zero_add,
              Nat.add_left_cancel_iff]
          rw [same, ← ih behind (by omega) (by omega)]
          constructor
          · exact fun misses => misses.2
          · exact fun misses => ⟨by omega, misses⟩

theorem firstWord {word : Word} (cut : Cut offset text (word :: words)) :
    IsFirstWord text word.text := by
  cases cut with
  | @word _ gap text rest _ blank filled inside ends others =>
      refine ⟨gap, rest, rfl, blank, ?_, fun c head => ⟨ends c head, count_of_nests inside⟩⟩
      rintro front c back rfl
      exact not_separates_of_nests inside

theorem blank_of_nil (cut : Cut offset text []) : ∀ c ∈ text, Text.isBlank c = true := by
  cases cut with
  | blanks blank => exact blank

end Cut

section FirstWord

variable {text word other : List Char}

theorem trimStart_firstWord {gap rest : List Char} (blank : ∀ c ∈ gap, Text.isBlank c = true)
    (solid : ∀ front c back, word = front ++ c :: back → ¬ Separates front c) (filled : word ≠ []) :
    Text.trimStart (gap ++ (word ++ rest)) = word ++ rest := by
  cases word with
  | nil => exact absurd rfl filled
  | cons c tail =>
      have here : Text.isBlank c = false := by simpa [Separates] using solid [] c tail rfl
      exact dropWhile_append_stop blank (by simpa using here)

-- A word that ends at a blank outside of parentheses does not go on behind it.
theorem eq_nil_of_ends {more rest : List Char} (ends : ∀ c ∈ (more ++ rest).head?, Separates word c)
    (solid : ∀ front c back, word ++ more = front ++ c :: back → ¬ Separates front c) :
    more = [] := by
  cases more with
  | nil => rfl
  | cons c more => exact absurd (ends c rfl) (solid word c more rfl)

theorem IsFirstWord.unique (first : IsFirstWord text word) (second : IsFirstWord text other)
    (filled : word ≠ []) (filled' : other ≠ []) : word = other := by
  obtain ⟨gap, rest, rfl, blank, solid, ends⟩ := first
  obtain ⟨gap', rest', same, blank', solid', ends'⟩ := second
  have trimmed := congrArg Text.trimStart same
  rw [trimStart_firstWord blank solid filled, trimStart_firstWord blank' solid' filled'] at trimmed
  rcases List.append_eq_append_iff.1 trimmed with ⟨more, rfl, rfl⟩ | ⟨more, rfl, rfl⟩
  · rw [eq_nil_of_ends ends solid', List.append_nil]
  · rw [eq_nil_of_ends ends' solid, List.append_nil]

end FirstWord

/-- The texts that are directives behind their marker. -/
structure IsDirective (body : List Char) : Prop where
  opened : ∀ front, front <+: body → front.count ')' ≤ front.count '('
  closed : body.count '(' = body.count ')'
  filled : ∃ c ∈ body, Text.isBlank c = false
  family : ∃ word, IsFirstWord body word ∧ isIdentifier word = true

theorem words?_eq_ok {text : List Char} {family : Word} {clauses : List Word} :
    words? text = .ok (family, clauses) ↔ ∃ body, text = '#' :: '$' :: body ∧
      splitWords 2 0 [] body = some (family :: clauses) ∧ isIdentifier family.text = true := by
  constructor
  · intro found
    unfold words? at found
    split at found
    next body =>
      refine ⟨body, rfl, ?_⟩
      split at found
      · cases found
      · cases found
      next first rest split =>
        split at found
        next name =>
          cases found
          exact ⟨split, name⟩
        next => cases found
    next => cases found
  · rintro ⟨body, rfl, split, name⟩
    simp only [words?, split, name, if_true]

theorem cut_of_words? {body : List Char} {family : Word} {clauses : List Word}
    (found : words? ('#' :: '$' :: body) = .ok (family, clauses)) :
    Cut 2 body (family :: clauses) := by
  obtain ⟨_, same, split, -⟩ := words?_eq_ok.1 found
  cases same
  exact @cut_of_splitWords 2 _ 0 [] body (fun _ => rfl) split

theorem ne_nil_of_isIdentifier {word : List Char} (name : isIdentifier word = true) : word ≠ [] := by
  obtain ⟨c, cs, rfl, -⟩ := isIdentifier_iff.1 name
  exact List.cons_ne_nil c cs

theorem isDirective_iff {body : List Char} :
    IsDirective body ↔ ∃ family clauses, words? ('#' :: '$' :: body) = .ok (family, clauses) := by
  have total := isSome_splitWords 2 0 [] body
  constructor
  · -- Balanced text is split; the words are some because not all of it is blank.
    rintro ⟨opened, closed, ⟨c, member, solid⟩, word, first, name⟩
    have balance : balanced 0 body = true :=
      balanced_iff.2 ⟨by simpa using opened, by simpa using closed.symm⟩
    rw [balance, Option.isSome_iff_exists] at total
    obtain ⟨words, split⟩ := total
    have cut : Cut 2 body words := @cut_of_splitWords 2 words 0 [] body (fun _ => rfl) split
    cases words with
    | nil =>
        have blank := cut.blank_of_nil c member
        rw [solid] at blank
        cases blank
    | cons family clauses =>
        have filled : family.text ≠ [] := by
          have clause := cut.isClause family (.head _)
          simp only [isClause, Bool.and_eq_true] at clause
          simpa using clause.1
        have same := first.unique cut.firstWord (ne_nil_of_isIdentifier name) filled
        exact ⟨family, clauses, words?_eq_ok.2 ⟨body, rfl, split, same ▸ name⟩⟩
  · -- The split succeeds on balanced text only, and its first word is the name.
    rintro ⟨family, clauses, found⟩
    obtain ⟨_, same, split, name⟩ := words?_eq_ok.1 found
    cases same
    have cut := cut_of_words? found
    rw [split, Option.isSome_some] at total
    obtain ⟨opened, closed⟩ := balanced_iff.1 total.symm
    obtain ⟨front, back, rfl, -⟩ := cut.stands family (.head _)
    have inside := cut.isClause family (.head _)
    simp only [isClause, String.toList_ofList, Bool.and_eq_true] at inside
    obtain ⟨c, rest, word, solid⟩ :=
      Cut.head_not_blank (ne_nil_of_isIdentifier name) inside.2
    constructor
    · simpa using opened
    · simpa using closed.symm
    · exact ⟨c, by simp [word], solid⟩
    · exact ⟨family.text, cut.firstWord, name⟩

/-- What the tree of a directive says about the text behind its marker. -/
structure Describes (text : String) (body : List Char) (tree : Tree) : Prop where
  whole : tree.kind = .directive ∧ tree.span = .ofRange 0 (Text.byteSize text.toList) ∧
    tree.text = text
  order : ∃ family clauses, tree.children = family :: clauses ∧
    (family.kind = .identifier ∧ family.field = some "family") ∧
    ∀ clause ∈ clauses, clause.kind = .directiveClause ∧ clause.field = some "clause"
  parts : ∀ child ∈ tree.children,
    (Source.ofString text).Covers child.span.start.toNat child.span.stop.toNat child.text ∧
      child.span.start < child.span.stop ∧ isClause child.text = true
  apart : tree.children.Pairwise fun child next => child.span.stop < next.span.start
  between : ∀ front c back, body = front ++ c :: back → ∀ byte, 2 + Text.byteSize front ≤ byte →
    byte < 2 + Text.byteSize front + c.utf8Size →
    ((∀ child ∈ tree.children,
      ¬ (child.span.start.toNat ≤ byte ∧ byte < child.span.stop.toNat)) ↔ Separates front c)

section Tree

variable {text : String} {body : List Char} {words : List Word}

theorem wordTree_covers (small : Text.byteSize text.toList < UInt32.size)
    (marked : text.toList = '#' :: '$' :: body) (cut : Cut 2 body words) {word : Word}
    (member : word ∈ words) (kind : Kind) (field : String) :
    let tree := wordTree kind field word
    tree.span.start.toNat = word.start ∧
      tree.span.stop.toNat = word.start + Text.byteSize word.text ∧
      (Source.ofString text).Covers word.start (word.start + Text.byteSize word.text) tree.text := by
  obtain ⟨front, back, rfl, start⟩ := cut.stands word member
  have covers : (Source.ofString text).Covers word.start (word.start + Text.byteSize word.text)
      (String.ofList word.text) := by
    refine ⟨'#' :: '$' :: front, back, ?_, ?_, ?_⟩
    · rw [String.toList_ofList]
      exact marked
    · rw [start, Text.byteSize_cons, Text.byteSize_cons, ← Nat.add_assoc]
      rfl
    · rw [String.toList_ofList, Text.byteSize_append, start, Text.byteSize_cons,
        Text.byteSize_cons, ← Nat.add_assoc]
      rfl
  have inside : word.start + Text.byteSize word.text ≤ Text.byteSize text.toList := covers.stop_le
  exact ⟨clampOffset_toNat (by omega), clampOffset_toNat (by omega), covers⟩

theorem parse_describes {tree : Tree} (small : Text.byteSize text.toList < UInt32.size)
    (marked : text.toList = '#' :: '$' :: body) (parsed : parse text = .ok tree) :
    Describes text body tree := by
  unfold parse at parsed
  split at parsed
  next => cases parsed
  next family clauses found =>
    cases parsed
    have cut : Cut 2 body (family :: clauses) := cut_of_words? (marked ▸ found)
    have child_of {child : Tree} (member : child ∈ wordTree .identifier "family" family ::
        clauses.map (wordTree .directiveClause "clause")) :
        ∃ word ∈ family :: clauses, ∃ kind field, child = wordTree kind field word := by
      rcases List.mem_cons.1 member with rfl | member
      · exact ⟨family, .head _, _, _, rfl⟩
      · obtain ⟨word, among, rfl⟩ := List.mem_map.1 member
        exact ⟨word, .tail _ among, _, _, rfl⟩
    have first := wordTree_covers small marked cut (.head _) .identifier "family"
    have others (word : Word) (among : word ∈ clauses) :=
      wordTree_covers small marked cut (.tail _ among) .directiveClause "clause"
    constructor
    case whole => exact ⟨rfl, rfl, rfl⟩
    case order =>
      refine ⟨_, _, rfl, ⟨rfl, rfl⟩, fun clause member => ?_⟩
      obtain ⟨word, -, rfl⟩ := List.mem_map.1 member
      exact ⟨rfl, rfl⟩
    case parts =>
      intro child member
      obtain ⟨word, among, kind, field, rfl⟩ := child_of member
      obtain ⟨start, stop, covers⟩ := wordTree_covers small marked cut among kind field
      have clause := cut.isClause word among
      refine ⟨by rwa [start, stop], ?_, clause⟩
      rw [UInt32.lt_iff_toNat_lt, start, stop]
      simp only [isClause, String.toList_ofList, Bool.and_eq_true] at clause
      obtain ⟨c, rest, filled, -⟩ := Cut.head_not_blank (by simpa using clause.1) clause.2
      -- A word is not empty, and no character is without bytes.
      have size := c.utf8Size_pos
      rw [filled, Text.byteSize_cons]
      omega
    case apart =>
      obtain ⟨behind, between⟩ := List.pairwise_cons.1 cut.apart
      rw [List.pairwise_cons, List.forall_mem_map, List.pairwise_map]
      constructor
      · intro word among
        rw [UInt32.lt_iff_toNat_lt, first.2.1, (others word among).1]
        exact behind word among
      · apply between.imp_of_mem
        intro word next among among' gap
        rw [UInt32.lt_iff_toNat_lt, (others word among).2.1, (others next among').1]
        exact gap
    case between =>
      intro front c back place byte low high
      rw [← cut.separates_iff place low high, List.forall_mem_cons, List.forall_mem_cons,
        List.forall_mem_map, first.1, first.2.1]
      apply and_congr_right'
      apply forall₂_congr
      intro word among
      rw [(others word among).1, (others word among).2.1]

end Tree

/-- A text is read as a directive if and only if it is one, and then the tree describes it. -/
theorem directive_read_by_its_grammar (text : String)
    (small : Text.byteSize text.toList < UInt32.size) :
    ((∃ tree, parse text = .ok tree) ↔
        ∃ body, text.toList = '#' :: '$' :: body ∧ IsDirective body) ∧
      ∀ tree body, parse text = .ok tree → text.toList = '#' :: '$' :: body →
        Describes text body tree := by
  refine ⟨⟨?_, ?_⟩, fun tree body parsed marked => parse_describes small marked parsed⟩
  · rintro ⟨tree, parsed⟩
    unfold parse at parsed
    split at parsed
    next => cases parsed
    next family clauses found =>
      obtain ⟨body, marked, -⟩ := words?_eq_ok.1 found
      exact ⟨body, marked, isDirective_iff.2 ⟨family, clauses, marked ▸ found⟩⟩
  · rintro ⟨body, marked, directive⟩
    obtain ⟨family, clauses, found⟩ := isDirective_iff.1 directive
    rw [parse, marked, found]
    exact ⟨_, rfl⟩

def nestedDirective : String := "#$\u3000omp f((é, j) )  g"

theorem nestedDirective_read :
    Text.byteSize nestedDirective.toList < UInt32.size ∧
      ∃ tree, parse nestedDirective = .ok tree ∧
        tree.children.map (fun child => (child.span.start.toNat, child.text)) =
          [(5, "omp"), (9, "f((é, j) )"), (22, "g")] ∧
        Describes nestedDirective "\u3000omp f((é, j) )  g".toList tree := by
  have small : Text.byteSize nestedDirective.toList < UInt32.size := by decide +kernel
  obtain ⟨accepts, describes⟩ := directive_read_by_its_grammar nestedDirective small
  have marked : nestedDirective.toList = '#' :: '$' :: "\u3000omp f((é, j) )  g".toList := by
    decide +kernel
  refine ⟨small, _, rfl, by decide +kernel, describes _ _ rfl marked⟩

end Directive

end NumericPython

import NumericPython.Proofs.Grammar.Unambiguous
import NumericPython.Proofs.Grammar.Wording
import NumericPython.Proofs.Layout.Interleaving

set_option autoImplicit false

namespace NumericPython

namespace Grammar

open Line RawTree Layout Lowering

variable {alphabet : Alphabet} {width level : Nat} {before lines lines' : List Line}
  {rows rows' : List FilledRow} {text : String} {tokens : List Token}

section Rows

theorem RowsRead.append {first second : List Row} (reads : RowsRead alphabet first rows)
    (reads' : RowsRead alphabet second rows') :
    RowsRead alphabet (first ++ second) (rows ++ rows') := by
  induction reads with
  | nil => exact reads'
  | blank _ ih => exact .blank ih
  | filled here _ ih => exact .filled here ih

/-- Behind the lines `before`, the lines are the given rows. -/
structure HasRows (alphabet : Alphabet) (width : Nat) (before lines : List Line)
    (rows : List FilledRow) : Prop where
  areRows : AreRows width lines
  reads : RowsRead alphabet (rowsFrom width (extent width before) lines) rows

theorem hasRows_nil : HasRows alphabet width before [] [] :=
  ⟨areRows_nil, .nil⟩

theorem HasRows.append (hasRows : HasRows alphabet width before lines rows)
    (hasRows' : HasRows alphabet width (before ++ lines) lines' rows') :
    HasRows alphabet width before (lines ++ lines') (rows ++ rows') := by
  refine ⟨hasRows.areRows.append hasRows'.areRows, ?_⟩
  rw [rowsFrom_append, ← extent_append]
  exact hasRows.reads.append hasRows'.reads

theorem hasRows_blank : HasRows alphabet width before [.blank] [] :=
  ⟨List.forall_mem_singleton.2 List.not_mem_nil, @RowsRead.blank _ _ 0 _ _ .nil⟩

theorem spaces_no_feed (n : Nat) : '\n' ∉ spaces n := by
  intro member
  cases List.eq_of_mem_replicate member

theorem Lexes.ne_nil {start : Nat} {c : Char} {cs : List Char}
    (lexes : Lexes alphabet start (c :: cs) tokens) (notSpace : c ≠ ' ') : tokens ≠ [] := by
  rintro rfl
  generalize text : c :: cs = chars at lexes
  cases lexes with
  | done => cases text
  | space =>
      cases text
      exact notSpace rfl

theorem hasRows_words
    (lexes : Lexes alphabet (extent width before + level * width) text.toList tokens)
    (head : ∃ c cs, text.toList = c :: cs ∧ opensWord c = true) :
    HasRows alphabet width before [.text level text] [⟨level * width, .words tokens⟩] := by
  obtain ⟨c, cs, same, leads⟩ := head
  have notSpace : c ≠ ' ' := by
    rintro rfl
    cases leads
  have some_word : tokens ≠ [] := by
    rw [same] at lexes
    exact lexes.ne_nil notSpace
  constructor
  · simp [AreRows, spaces_no_feed, lexes.no_feed]
  · rw [rowsFrom, chars_text]
    exact .filled (.words lexes some_word (by simp [same, notSpace])) .nil

theorem hasRows_comment {cs : List Char} (hash : text.toList = '#' :: cs)
    (row : '\n' ∉ text.toList) : HasRows alphabet width before [.text level text]
      [⟨level * width, .comment (extent width before + level * width)
        (extent width before + level * width + Text.byteSize text.toList)⟩] := by
  constructor
  · simp [AreRows, spaces_no_feed, row]
  · rw [rowsFrom, chars_text, hash]
    exact .filled .comment .nil

theorem startsIn_text {p : Nat} (low : extent width before + level * width ≤ p)
    (high : p ≤ extent width before + level * width + Text.byteSize text.toList) :
    StartsIn width before [.text level text] p := by
  refine ⟨_, [], rfl, ?_, ?_⟩
  · omega
  · rw [chars_text, Text.byteSize_append, byteSize_spaces]
    omega

theorem stopsIn_text {p : Nat} (low : extent width before + level * width < p)
    (high : p ≤ extent width before + level * width + Text.byteSize text.toList) :
    StopsIn width before [.text level text] p := by
  refine ⟨[], _, rfl, ?_, ?_⟩
  · rw [List.append_nil]
    omega
  · rw [List.append_nil, chars_text, Text.byteSize_append, byteSize_spaces]
    omega

theorem Lexes.startsIn
    (lexes : Lexes alphabet (extent width before + level * width) text.toList tokens)
    {token : Token} (member : token ∈ tokens) :
    StartsIn width before [.text level text] token.start := by
  have bounds := lexes.bounds token member
  exact startsIn_text bounds.1 (by omega)

theorem Lexes.stopsIn
    (lexes : Lexes alphabet (extent width before + level * width) text.toList tokens)
    {token : Token} (member : token ∈ tokens) :
    StopsIn width before [.text level text] token.stop := by
  have bounds := lexes.bounds token member
  exact stopsIn_text (by omega) bounds.2.2

theorem Lexes.holds_line {source : Source}
    (lexes : Lexes alphabet (extent width before + level * width) text.toList tokens)
    (shows : source.Shows width before (.text level text :: lines)) :
    ∀ token ∈ tokens, token.Holds source := by
  obtain ⟨after, whole, _⟩ := shows.chars_eq
  refine @Lexes.holdsAt _ _ _ _ lexes source (sheet width before ++ spaces (level * width))
    ('\n' :: after) ?_ ?_
  · rw [whole, chars_text]
    simp
  · rw [Text.byteSize_append, byteSize_spaces, extent]

end Rows

section Nodes

/-- Rows with nodes on them: the first node starts in the first line, and the last one stops in the
last line. -/
structure Stands (alphabet : Alphabet) (width : Nat) (before lines : List Line)
    (rows : List FilledRow) (trees : List RawTree) : Prop where
  hasRows : HasRows alphabet width before lines rows
  some_tree : lines = [] ↔ trees = []
  starts : ∀ tree ∈ trees.head?, StartsIn width before lines tree.start
  stops : ∀ tree ∈ trees.getLast?, StopsIn width before lines tree.stop

variable {trees trees' : List RawTree}

theorem stands_nil : Stands alphabet width before [] [] [] :=
  ⟨hasRows_nil, by simp, by simp, by simp⟩

theorem stops_append
    (here : trees' = [] → lines' = [] ∧ ∀ tree ∈ trees.getLast?, StopsIn width before lines tree.stop)
    (behind : ∀ tree ∈ trees'.getLast?, StopsIn width (before ++ lines) lines' tree.stop) :
    ∀ tree ∈ (trees ++ trees').getLast?, StopsIn width before (lines ++ lines') tree.stop := by
  intro tree last
  by_cases none_behind : trees' = []
  · obtain ⟨rfl, stops⟩ := here none_behind
    rw [none_behind, List.append_nil] at last
    rw [List.append_nil]
    exact stops tree last
  · rw [List.getLast?_append_of_ne_nil _ none_behind] at last
    exact (behind tree last).append

theorem Stands.append (stands : Stands alphabet width before lines rows trees)
    (stands' : Stands alphabet width (before ++ lines) lines' rows' trees')
    (some_line : lines ≠ []) :
    Stands alphabet width before (lines ++ lines') (rows ++ rows') (trees ++ trees') := by
  have some_tree : trees ≠ [] := fun empty => some_line (stands.some_tree.2 empty)
  refine ⟨stands.hasRows.append stands'.hasRows, by simp [some_line, some_tree], ?_,
    stops_append (fun empty => ⟨stands'.some_tree.2 empty, stands.stops⟩) stands'.stops⟩
  intro tree first
  rw [List.head?_append_of_ne_nil _ some_tree] at first
  exact (stands.starts tree first).append lines'

theorem Stands.node (stands : Stands alphabet width before lines rows trees)
    (some_line : lines ≠ []) (name : String) (field : Option String) :
    Stands alphabet width before lines rows [{ Grammar.node name trees with field := field }] := by
  have some_tree : trees ≠ [] := fun empty => some_line (stands.some_tree.2 empty)
  refine ⟨stands.hasRows, by simp [some_line], ?_, ?_⟩
  · rintro _ ⟨⟩
    have first := List.head?_eq_some_head some_tree
    simpa [Grammar.node, first] using stands.starts _ first
  · rintro _ ⟨⟩
    have last := List.getLast?_eq_some_getLast some_tree
    simpa [Grammar.node, last] using stands.stops _ last

theorem Stands.covers {tree : RawTree} (stands : Stands alphabet width before lines rows [tree]) :
    Covers width before lines tree :=
  ⟨stands.starts tree rfl, stands.stops tree rfl⟩

theorem stands_words {tree : RawTree}
    (lexes : Lexes alphabet (extent width before + level * width) text.toList tokens)
    (head : ∃ c cs, text.toList = c :: cs ∧ opensWord c = true) (spans : Spans tokens tree) :
    Stands alphabet width before [.text level text] [⟨level * width, .words tokens⟩] [tree] := by
  obtain ⟨⟨first, inside, start⟩, last, inside', stop⟩ := spans
  refine ⟨hasRows_words lexes head, by simp, ?_, ?_⟩
  · rintro _ ⟨⟩
    rw [start]
    exact lexes.startsIn inside
  · rintro _ ⟨⟩
    rw [List.getLast_singleton, stop]
    exact lexes.stopsIn inside'

end Nodes

section Forms

def Form.Leaves (indent : Nat) (rest : List FilledRow) : Form → Prop
  | .block => Ends indent rest
  | .clause _ => Ends (indent + 1) rest
  | .statement | .alternatives | .decorated => Ends (indent + 1) rest ∧ NotContinued indent rest

/-- The lines have nodes, which are a form and mean something in every source that shows them. -/
structure MadeAt (alphabet : Alphabet) (width level : Nat) (form : Form) (before lines : List Line)
    (meaning : Source → List RawTree → Prop) (rows : List FilledRow) (trees : List RawTree) : Prop
    extends Stands alphabet width before lines rows trees where
  builds : ∀ rest, form.Leaves (level * width) rest →
    Builds form (level * width) (rows ++ rest) trees rest
  levels : ∀ rest, Ends (level * width + 1) rest → Ends (level * width + 1) (rows ++ rest)
  means : ∀ source, source.Shows width before lines →
    Text.byteSize source.chars < UInt32.size → meaning source trees

def Makes (alphabet : Alphabet) (width level : Nat) (form : Form) (lines : List Line)
    (meaning : Source → List RawTree → Prop) : Prop :=
  ∀ before, ∃ rows trees, MadeAt alphabet width level form before lines meaning rows trees

def single (reads : Source → RawTree → Prop) : Source → List RawTree → Prop :=
  fun source trees => ∃ tree, trees = [tree] ∧ reads source tree

variable {meaning meaning' : Source → List RawTree → Prop} {form form' : Form}

theorem Makes.imp (makes : Makes alphabet width level form lines meaning)
    (implies : ∀ source trees, meaning source trees → meaning' source trees) :
    Makes alphabet width level form lines meaning' := by
  intro before
  obtain ⟨rows, trees, made⟩ := makes before
  exact ⟨rows, trees, made.toStands, made.builds, made.levels,
    fun source shows small => implies _ _ (made.means source shows small)⟩

theorem ends_words (indent : Nat) (tokens : List Token) (rest : List FilledRow) :
    Ends (indent + 1) (⟨indent, .words tokens⟩ :: rest) := by
  constructor
  · rintro _ ⟨⟩
    exact Nat.lt_succ_self indent
  · rintro _ ⟨⟩
    exact Nat.lt_succ_self indent

theorem Ends.mono {indent inner : Nat} {rest : List FilledRow} (ends : Ends indent rest)
    (deeper : indent ≤ inner) : Ends inner rest :=
  ⟨fun line first => Nat.lt_of_lt_of_le (ends.1 line first) deeper,
    fun line first => Nat.lt_of_lt_of_le (ends.2 line first) deeper⟩

theorem makes_simple {reads : Source → RawTree → Prop} (worded : Worded alphabet isEnd
      (fun tokens tree => ∃ lead, Simple lead tokens tree) reads text.toList) :
    Makes alphabet width level .statement [.text level text] (single reads) := by
  intro before
  obtain ⟨tokens, tree, head, segment, ⟨lead, simple⟩, read⟩ :=
    worded (extent width before + level * width)
  have lexes := segment.lexesAt
  exact ⟨_, _, stands_words lexes head simple.spans, fun rest _ => .simple simple,
    fun rest _ => ends_words _ _ _,
    fun source shows small => ⟨tree, rfl, read source (lexes.holds_line shows)⟩⟩

theorem Makes.node {name : String} {field : Option String}
    (makes : Makes alphabet width level form lines meaning) (some_line : lines ≠ [])
    (builds : ∀ rows trees rest, form'.Leaves (level * width) rest →
      (form.Leaves (level * width) rest → Builds form (level * width) rows trees rest) →
      Builds form' (level * width) rows [{ Grammar.node name trees with field := field }] rest) :
    Makes alphabet width level form' lines (single fun source tree => ∃ children,
      tree = { Grammar.node name children with field := field } ∧ meaning source children) := by
  intro before
  obtain ⟨rows, trees, made⟩ := makes before
  exact ⟨rows, _, made.node some_line name field,
    fun rest leaves => builds _ _ _ leaves (made.builds rest), made.levels,
    fun source shows small => ⟨_, rfl, trees, rfl, made.means source shows small⟩⟩

theorem Makes.compound {clause : Clause} (alone : clause.standsAlone = true)
    (makes : Makes alphabet width level (.clause clause) lines meaning) (some_line : lines ≠ []) :
    Makes alphabet width level .statement lines (single fun source tree => ∃ children,
      tree = Grammar.node clause.nodeName children ∧ meaning source children) :=
  @Makes.node _ _ _ _ _ _ _ clause.nodeName none makes some_line
    fun _ _ _ leaves builds => .compound alone (builds leaves.1)

theorem Makes.definition {clause : Clause} (defines : clause.isDefinition = true)
    (makes : Makes alphabet width level (.clause clause) lines meaning) (some_line : lines ≠ []) :
    Makes alphabet width level .decorated lines (single fun source tree => ∃ children,
      tree = (Grammar.node clause.nodeName children).inField "definition" ∧
        meaning source children) :=
  @Makes.node _ _ _ _ _ _ _ clause.nodeName (some "definition") makes some_line
    fun _ _ _ leaves builds => .definition defines (builds leaves.1)

end Forms

end Grammar

end NumericPython

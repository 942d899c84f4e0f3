import NumericPython.Proofs.Grammar.CommentReading
import NumericPython.Proofs.Grammar.PrintedForms

set_option autoImplicit false

namespace NumericPython

namespace Grammar

open Line RawTree Layout Lowering

variable {α : Type} {alphabet : Alphabet} {width level : Nat} {means : Tree → α → Prop}
  {before lines lines' : List Line} {items items' : List α} {rows rows' : List FilledRow}
  {trees trees' : List RawTree}

section Chunks

def IsSolid (tree : RawTree) : Prop :=
  tree.treeKind ∉ [.comment, .blankLine, .block]

theorem IsSolid.convert_eq {tree : RawTree} (solid : IsSolid tree) (source : Source)
    (opener : Option Nat) : convert source opener tree = convert source none tree := by
  have notBlock : tree.treeKind ≠ .block := fun same => solid (by simp [same])
  rw [RawTree.convert_eq, RawTree.convert_eq]
  generalize tree.treeKind = kind at notBlock
  cases kind <;> first | rfl | exact absurd rfl notBlock

theorem IsSolid.convert_kind {tree : RawTree} (solid : IsSolid tree) (source : Source)
    (opener : Option Nat) : ((convert source opener tree).kind == .blankLine ||
      (convert source opener tree).kind == .comment) = false := by
  have kinds : tree.treeKind ≠ .comment ∧ tree.treeKind ≠ .blankLine ∧ tree.treeKind ≠ .block := by
    simpa [IsSolid] using solid
  simp [RawTree.convert_kind, kinds]

/-- Lines that make one tree of a body, and what the tree stands for. Chunks that are not solid are
blank lines and comments. -/
structure Chunk (α : Type) where
  solid : Bool
  lines : List Line
  item : α

inductive Chunk.IsMade (alphabet : Alphabet) (width level : Nat) (means : Tree → α → Prop) :
    Chunk α → Prop
  | blank {item : α} (reads : ∀ start, means (blankLine start) item) :
      IsMade alphabet width level means ⟨false, [.blank], item⟩
  | note {item : α} {text : String} {cs : List Char} (hash : text.toList = '#' :: cs)
      (row : '\n' ∉ text.toList) (reads : ∀ span, means ⟨.comment, span, text, none, []⟩ item) :
      IsMade alphabet width level means ⟨false, [.text level text], item⟩
  | node {item : α} {lines : List Line} (makes : Makes alphabet width level .statement lines
      (single fun source tree => IsSolid tree ∧ means (convert source none tree) item)) :
      IsMade alphabet width level means ⟨true, lines, item⟩

theorem covers_comment (before : List Line) {text : String} {cs : List Char}
    (hash : text.toList = '#' :: cs) : Covers width before [.text level text]
      (commentNode (extent width before + level * width)
        (extent width before + level * width + Text.byteSize text.toList)) := by
  have positive : 0 < Text.byteSize text.toList := by
    rw [hash, Text.byteSize_cons]
    exact Nat.add_pos_left (Char.utf8Size_pos _) _
  constructor
  · refine startsIn_text (Nat.le_refl _) ?_
    exact Nat.le_add_right _ _
  · refine stopsIn_text ?_ (Nat.le_refl _)
    exact Nat.lt_add_of_pos_right positive

theorem convert_line {source : Source} {text : String}
    (shows : source.Shows width before (.text level text :: lines)) (opener : Option Nat) :
    convert source opener (commentNode (extent width before + level * width)
        (extent width before + level * width + Text.byteSize text.toList)) =
      ⟨.comment, .ofRange (extent width before + level * width)
        (extent width before + level * width + Text.byteSize text.toList), text, none, []⟩ := by
  obtain ⟨after, whole, _⟩ := shows.chars_eq
  have place : extent width before + level * width =
      Text.byteSize (sheet width before ++ spaces (level * width)) := by
    rw [Text.byteSize_append, byteSize_spaces, extent]
  have slice : source.slice (extent width before + level * width)
      (extent width before + level * width + Text.byteSize text.toList) = text := by
    have chars : source.chars =
        (sheet width before ++ spaces (level * width)) ++ text.toList ++ '\n' :: after := by
      rw [whole, chars_text]
      simp
    rw [Source.slice, chars, place, Text.slice_append, String.ofList_toList]
  rw [convert_comment, slice]

end Chunks

section Levels

/-- Rows of a body with their nodes, which go in front of further rows of the body. -/
structure LevelAt (alphabet : Alphabet) (width level : Nat) (means : Tree → α → Prop)
    (before lines : List Line) (items : List α) (rows : List FilledRow) (trees : List RawTree) :
    Prop where
  hasRows : HasRows alphabet width before lines rows
  builds : ∀ rest trees' rest', Form.statement.Leaves (level * width) rest →
    Builds .block (level * width) rest trees' rest' →
    Form.statement.Leaves (level * width) (rows ++ rest) ∧
      Builds .block (level * width) (rows ++ rest) (trees ++ trees') rest'
  lays : ∀ source, source.Shows width before lines →
    Text.byteSize source.chars < UInt32.size →
    ∃ layout, Lays source width before lines trees layout ∧ List.Forall₂ means layout items

theorem levelAt_nil : LevelAt alphabet width level means before [] [] [] [] :=
  ⟨hasRows_nil, fun _ _ _ leaves builds => ⟨leaves, builds⟩, fun _ _ _ => ⟨[], .nil, .nil⟩⟩

theorem LevelAt.append (levelAt : LevelAt alphabet width level means before lines items rows trees)
    (levelAt' : LevelAt alphabet width level means (before ++ lines) lines' items' rows' trees') :
    LevelAt alphabet width level means before (lines ++ lines') (items ++ items') (rows ++ rows')
      (trees ++ trees') := by
  refine ⟨levelAt.hasRows.append levelAt'.hasRows, fun rest others rest' leaves builds => ?_,
    fun source shows small => ?_⟩
  · obtain ⟨leaves', builds'⟩ := levelAt'.builds rest others rest' leaves builds
    rw [List.append_assoc, List.append_assoc]
    exact levelAt.builds _ _ _ leaves' builds'
  · obtain ⟨layout, lays, read⟩ := levelAt.lays source shows.left small
    obtain ⟨layout', lays', read'⟩ := levelAt'.lays source shows.right small
    exact ⟨layout ++ layout', lays.append lays', List.rel_append read read'⟩

theorem leaves_words {indent : Nat} {lead : Lead} {rest : List FilledRow}
    (opens : Opens indent lead rest) (other : lead ≠ .clause .alternative)
    (other' : lead ≠ .clause .otherwise) : Form.statement.Leaves indent rest := by
  obtain ⟨tokens, rows, rfl, leads⟩ := opens
  refine ⟨ends_words indent tokens rows, ?_⟩
  rintro _ ⟨⟩ _
  cases tokens with
  | nil => rfl
  | cons token tokens =>
      refine Bool.eq_false_iff.2 fun carriesOn => ?_
      rcases Bool.or_eq_true_iff.1 carriesOn with mark | mark
      · exact other (leads ▸ @leadOf_clause .alternative token tokens mark)
      · exact other' (leads ▸ @leadOf_clause .otherwise token tokens mark)

theorem Builds.statement_leaves {indent : Nat} {lines rest : List FilledRow} {trees : List RawTree}
    (builds : Builds .statement indent lines trees rest) : Form.statement.Leaves indent lines := by
  cases builds with
  | @simple _ lead tokens _ _ simple =>
      refine leaves_words ⟨_, _, rfl, simple.lead⟩ ?_ ?_ <;>
      · rintro rfl
        cases simple
  | compound alone inner =>
      refine leaves_words inner.clause_opens ?_ ?_ <;>
      · rintro ⟨⟩
        cases alone
  | conditional first _ => exact leaves_words first.clause_opens (by decide) (by decide)
  | decorated marks _ _ => exact leaves_words (decorator_opens marks) (by decide) (by decide)

theorem comment_leaves {indent start stop : Nat} {rest : List FilledRow}
    (leaves : Form.statement.Leaves indent rest) :
    Form.statement.Leaves indent (⟨indent, .comment start stop⟩ :: rest) := by
  refine ⟨⟨?_, leaves.1.2⟩, leaves.2⟩
  rintro _ ⟨⟩
  exact Nat.lt_succ_self indent

theorem leaves_nil (indent : Nat) : Form.statement.Leaves indent [] := by
  simp [Form.Leaves, Ends, NotContinued, behindComments]

theorem Builds.statement_single {indent : Nat} {lines rest : List FilledRow}
    {trees : List RawTree} (builds : Builds .statement indent lines trees rest) :
    ∃ tree, trees = [tree] := by
  cases builds <;> exact ⟨_, rfl⟩

theorem MadeAt.levelAt {item : α} {tree : RawTree}
    (made : MadeAt alphabet width level .statement before lines
      (single fun source tree => IsSolid tree ∧ means (convert source none tree) item) rows [tree]) :
    LevelAt alphabet width level means before lines [item] rows [tree] := by
  refine ⟨made.hasRows, fun rest others rest' leaves builds => ?_, fun source shows small => ?_⟩
  · have built := made.builds rest leaves
    exact ⟨built.statement_leaves, .statement built builds⟩
  · obtain ⟨other, same, solid, reads⟩ := made.means source shows small
    cases same
    have lays := @Lays.node source width before lines [] tree [] _ []
      made.toStands.covers (solid.convert_eq source) .nil
    rw [List.append_nil] at lays
    exact ⟨_, lays, .cons reads .nil⟩

theorem Chunk.IsMade.exists_node {chunk : Chunk α}
    (isMade : chunk.IsMade alphabet width level means) (solid : chunk.solid = true)
    (before : List Line) : ∃ rows tree, MadeAt alphabet width level .statement before chunk.lines
      (single fun source tree => IsSolid tree ∧ means (convert source none tree) chunk.item)
        rows [tree] := by
  cases isMade with
  | blank | note => cases solid
  | node makes =>
      obtain ⟨rows, trees, made⟩ := makes before
      obtain ⟨tree, rfl⟩ := (made.builds [] (leaves_nil _)).statement_single
      exact ⟨rows, tree, made⟩

theorem Chunk.IsMade.lines_ne_nil {chunk : Chunk α}
    (isMade : chunk.IsMade alphabet width level means) : chunk.lines ≠ [] := by
  cases isMade with
  | blank | note => simp
  | node makes =>
      obtain ⟨rows, tree, made⟩ := (Chunk.IsMade.node makes).exists_node rfl []
      exact fun empty => List.cons_ne_nil _ _ (made.some_tree.1 empty)

theorem Chunk.IsMade.exists_levelAt {chunk : Chunk α}
    (isMade : chunk.IsMade alphabet width level means) (before : List Line) :
    ∃ rows trees, LevelAt alphabet width level means before chunk.lines [chunk.item] rows trees ∧
      (chunk.solid = true → ∃ tree, trees = [tree] ∧ StopsIn width before chunk.lines tree.stop) := by
  cases isMade with
  | @blank item reads =>
      refine ⟨[], [], ⟨hasRows_blank, fun _ _ _ leaves builds => ⟨leaves, builds⟩, ?_⟩, by simp⟩
      exact fun source _ _ => ⟨[_], .blank .nil, .cons (reads _) .nil⟩
  | @note item text cs hash row reads =>
      refine ⟨_, [_], ⟨hasRows_comment hash row, fun rest others rest' leaves builds =>
        ⟨comment_leaves leaves, .comment rfl ?_ builds⟩, fun source shows _ =>
          ⟨_, @Lays.node source width before [.text level text] [] _ [] _ []
            (covers_comment before hash) (convert_line shows) .nil, .cons (reads _) .nil⟩⟩, by simp⟩
      intro ends
      exact Nat.lt_irrefl _ (ends.1 _ rfl)
  | node makes =>
      obtain ⟨rows, tree, made⟩ := (Chunk.IsMade.node makes).exists_node rfl before
      exact ⟨rows, [tree], made.levelAt, fun _ => ⟨tree, rfl, made.stops tree rfl⟩⟩

theorem exists_levelAt {chunks : List (Chunk α)}
    (all : ∀ chunk ∈ chunks, chunk.IsMade alphabet width level means) (before : List Line) :
    ∃ rows trees, LevelAt alphabet width level means before (chunks.flatMap Chunk.lines)
        (chunks.map Chunk.item) rows trees ∧
      ((∀ last ∈ chunks.getLast?, last.solid = true) → (trees = [] ↔ chunks = []) ∧
        ∀ tree ∈ trees.getLast?, StopsIn width before (chunks.flatMap Chunk.lines) tree.stop) := by
  induction chunks generalizing before with
  | nil => exact ⟨[], [], levelAt_nil, by simp⟩
  | cons chunk chunks ih =>
      obtain ⟨rows, trees, levelAt, node⟩ := (all chunk (.head _)).exists_levelAt before
      obtain ⟨rows', trees', levelAt', ends'⟩ :=
        ih (fun other member => all other (.tail _ member)) (before ++ chunk.lines)
      refine ⟨rows ++ rows', trees ++ trees', levelAt.append levelAt', fun ends => ?_⟩
      obtain ⟨some_tree, stops⟩ := ends' fun last found => ends last (by
        rw [List.getLast?_cons, found]
        rfl)
      have alone (empty : trees' = []) : chunks = [] ∧ ∃ tree, trees = [tree] ∧
          StopsIn width before chunk.lines tree.stop := by
        obtain rfl := some_tree.1 empty
        exact ⟨rfl, node (ends chunk rfl)⟩
      constructor
      · simp only [List.append_eq_nil_iff, reduceCtorEq, iff_false, not_and']
        rintro empty rfl
        obtain ⟨_, tree, none_here, _⟩ := alone empty
        cases none_here
      · refine stops_append (fun empty => ?_) stops
        obtain ⟨rfl, tree, rfl, stops⟩ := alone empty
        exact ⟨rfl, by simpa using stops⟩

end Levels

section Fronts

structure FrontAt (alphabet : Alphabet) (width : Nat) (means : Tree → α → Prop)
    (before lines : List Line) (items : List α) (rows : List FilledRow)
    (comments : List RawTree) : Prop where
  hasRows : HasRows alphabet width before lines rows
  areComments : ∀ tree ∈ comments, ∃ start stop, tree = commentNode start stop
  front : ∀ rest, frontComments (rows ++ rest) = comments ++ frontComments rest
  behind : ∀ rest, behindComments (rows ++ rest) = behindComments rest
  lays : ∀ source, source.Shows width before lines →
    ∃ layout, Fronts source width before lines comments layout ∧ List.Forall₂ means layout items

theorem isBlankLine_comment {text : String} {cs : List Char} (hash : text.toList = '#' :: cs) :
    Text.isBlankLine (Line.chars width (.text level text)) = false := by
  rw [chars_text, hash]
  refine Bool.eq_false_iff.2 fun blank => ?_
  have inside : Text.isBlank '#' = true := by
    simp only [Text.isBlankLine, List.all_eq_true] at blank
    exact blank '#' (by simp)
  cases inside

theorem exists_frontAt {chunks : List (Chunk α)}
    (all : ∀ chunk ∈ chunks, chunk.IsMade alphabet width level means)
    (front : ∀ chunk ∈ chunks, chunk.solid = false) (before : List Line) :
    ∃ rows comments, FrontAt alphabet width means before (chunks.flatMap Chunk.lines)
      (chunks.map Chunk.item) rows comments := by
  induction chunks generalizing before with
  | nil => exact ⟨[], [], hasRows_nil, by simp, by simp, by simp, fun _ _ => ⟨[], .nil, .nil⟩⟩
  | cons chunk chunks ih =>
      have isMade := all chunk (.head _)
      have layout := front chunk (.head _)
      obtain ⟨rows, comments, frontAt⟩ := ih (fun other member => all other (.tail _ member))
        (fun other member => front other (.tail _ member)) (before ++ chunk.lines)
      cases isMade with
      | @blank item reads =>
          refine ⟨rows, comments, hasRows_blank.append frontAt.hasRows, frontAt.areComments,
            frontAt.front, frontAt.behind, fun source shows => ?_⟩
          obtain ⟨trees, lays, read⟩ := frontAt.lays source shows.next
          exact ⟨_, .blank lays, .cons (reads _) read⟩
      | @note item text cs hash row reads =>
          refine ⟨_ :: rows, commentNode (extent width before + level * width)
              (extent width before + level * width + Text.byteSize text.toList) :: comments,
            (hasRows_comment hash row).append frontAt.hasRows, ?_, fun rest => ?_, fun rest => ?_,
            fun source shows => ?_⟩
          · exact List.forall_mem_cons.2 ⟨⟨_, _, rfl⟩, frontAt.areComments⟩
          · exact congrArg (_ :: ·) (frontAt.front rest)
          · exact frontAt.behind rest
          · obtain ⟨trees, lays, read⟩ := frontAt.lays source shows.next
            exact ⟨_, .comment (covers_comment before hash) (isBlankLine_comment hash) rfl
              (convert_line shows) rfl lays, .cons (reads _) read⟩
      | node => cases layout

end Fronts

section Bodies

/-- The rows of a body, with the comments that are nodes of its header and the nodes of its block. -/
structure BodyAt (alphabet : Alphabet) (width level : Nat) (before lines : List Line)
    (meaning : List Tree → Prop) (rows : List FilledRow) (comments trees : List RawTree) :
    Prop where
  hasRows : HasRows alphabet width before lines rows
  some_tree : trees ≠ []
  stops : ∀ tree ∈ trees.getLast?, StopsIn width before lines tree.stop
  front : ∀ rest, frontComments (rows ++ rest) = comments
  first : ∀ rest, (behindComments (rows ++ rest)).head?.map FilledRow.indent = some (level * width)
  builds : ∀ rest, Ends (level * width) rest →
    Builds .block (level * width) (behindComments (rows ++ rest)) trees rest
  reads : ∀ source row, source.Shows width before lines →
    Text.byteSize source.chars < UInt32.size → row + 1 = before.length →
    ReadsBody source row comments trees meaning

def MakesBody (alphabet : Alphabet) (width level : Nat) (lines : List Line)
    (meaning : List Tree → Prop) : Prop :=
  ∀ before, ∃ rows comments trees,
    BodyAt alphabet width level before lines meaning rows comments trees

theorem MakesBody.imp {meaning meaning' : List Tree → Prop}
    (makes : MakesBody alphabet width level lines meaning)
    (implies : ∀ layout, meaning layout → meaning' layout) :
    MakesBody alphabet width level lines meaning' := by
  intro before
  obtain ⟨rows, comments, trees, body⟩ := makes before
  refine ⟨rows, comments, trees, { body with reads := fun source row shows small place => ?_ }⟩
  have reads := body.reads source row shows small place
  exact ⟨reads.areComments, implies _ reads.lowers⟩

theorem block_builds {indent : Nat} {rest : List FilledRow} (ends : Ends indent rest) :
    Form.statement.Leaves indent rest ∧ Builds .block indent rest [] rest := by
  refine ⟨⟨ends.mono (Nat.le_succ indent), fun line first same => ?_⟩, .done ends⟩
  have bound := ends.2 line first
  omega

theorem makes_body {front more : List (Chunk α)} {first : Chunk α}
    (all : ∀ chunk ∈ front ++ first :: more, chunk.IsMade alphabet width level means)
    (layout : ∀ chunk ∈ front, chunk.solid = false) (begins : first.solid = true)
    (ends : ∀ last ∈ more.getLast?, last.solid = true) :
    MakesBody alphabet width level ((front ++ first :: more).flatMap Chunk.lines)
      fun trees => List.Forall₂ means trees ((front ++ first :: more).map Chunk.item) := by
  intro before
  -- The chunks without a node in front, the first solid one, and the level behind it.
  obtain ⟨rows, comments, frontAt⟩ := exists_frontAt
    (fun chunk member => all chunk (List.mem_append_left _ member)) layout before
  obtain ⟨rows', tree, made⟩ := (all first (by simp)).exists_node begins
    (before ++ front.flatMap Chunk.lines)
  obtain ⟨rows'', trees, levelAt, last⟩ := exists_levelAt
    (fun chunk member => all chunk (List.mem_append_right _ (.tail _ member)))
    (before ++ front.flatMap Chunk.lines ++ first.lines)
  have main := made.levelAt.append levelAt
  obtain ⟨some_tree, last⟩ := last ends
  -- The body stops on the last line of its last node.
  have stops : ∀ last ∈ ([tree] ++ trees).getLast?, StopsIn width
      (before ++ front.flatMap Chunk.lines) (first.lines ++ more.flatMap Chunk.lines) last.stop := by
    refine stops_append (fun empty => ?_) last
    rw [some_tree.1 empty]
    exact ⟨rfl, made.stops⟩
  -- The comments in front end at the first row that opens with a statement.
  have opens (rest : List FilledRow) : ∃ lead, Opens (level * width) lead (rows' ++ rows'' ++ rest) := by
    obtain ⟨lead, tokens, more, same, leads⟩ := (made.builds [] (leaves_nil _)).statement_opens
    rw [List.append_nil] at same
    exact ⟨lead, tokens, more ++ (rows'' ++ rest), by simp [same], leads⟩
  rw [List.flatMap_append, List.flatMap_cons, List.map_append, List.map_cons]
  refine ⟨rows ++ (rows' ++ rows''), comments, [tree] ++ trees, frontAt.hasRows.append main.hasRows,
    by simp, fun last found => (stops last found).append, fun rest => ?_, fun rest => ?_,
    fun rest leaves => ?_, fun source row shows small place => ?_⟩
  · obtain ⟨lead, opens⟩ := opens rest
    rw [List.append_assoc, frontAt.front, opens.frontComments, List.append_nil]
  · obtain ⟨lead, opens⟩ := opens rest
    rw [List.append_assoc, frontAt.behind, opens.behindComments]
    obtain ⟨tokens, more, same, _⟩ := opens
    rw [same]
    rfl
  · obtain ⟨lead, opens⟩ := opens rest
    obtain ⟨leaves', done⟩ := block_builds leaves
    have builds := (main.builds rest [] rest leaves' done).2
    rw [List.append_nil] at builds
    rwa [List.append_assoc, frontAt.behind, opens.behindComments]
  · obtain ⟨layout, fronts, read⟩ := frontAt.lays source shows.left
    obtain ⟨other, same, solid, meant⟩ := made.means source shows.right.left small
    cases same
    obtain ⟨layout', lays, read'⟩ := levelAt.lays source shows.right.right small
    have laid := Lays.node made.toStands.covers (solid.convert_eq source) lays
    have some_tree : [tree] ++ trees ≠ [] := by simp
    have line := (stops _ (List.getLast?_eq_some_getLast some_tree)).last_not_blank
    have placed := body_layout fronts laid (solid.convert_kind source none) line shows small (some row)
    refine ⟨fun other member => ?_, ?_⟩
    · obtain ⟨start, stop, rfl⟩ := frontAt.areComments other member
      exact ⟨rfl, rfl⟩
    · rw [place, List.singleton_append, placed]
      exact List.rel_append read (.cons meant read')

theorem makes_chunks {chunks : List (Chunk α)}
    (all : ∀ chunk ∈ chunks, chunk.IsMade alphabet width level means)
    (ends : ∃ last ∈ chunks.getLast?, last.solid = true) :
    MakesBody alphabet width level (chunks.flatMap Chunk.lines)
      fun trees => List.Forall₂ means trees (chunks.map Chunk.item) := by
  obtain ⟨last, found, solid⟩ := ends
  obtain ⟨first, isFirst⟩ := Option.isSome_iff_exists.1
    (List.find?_isSome.2 ⟨last, List.mem_of_getLast? found, solid⟩)
  obtain ⟨begins, front, more, rfl, layout⟩ := List.find?_eq_some_iff_append.1 isFirst
  refine makes_body all (fun chunk member => by simpa using layout chunk member) begins
    fun chunk behind => ?_
  rw [List.getLast?_append, List.getLast?_cons, behind] at found
  cases found
  exact solid

end Bodies

end Grammar

end NumericPython

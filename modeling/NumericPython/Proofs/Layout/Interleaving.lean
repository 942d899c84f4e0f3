import NumericPython.Proofs.Layout.Bodies
import NumericPython.Proofs.Layout.Contents
import NumericPython.Proofs.Printing.Sheet

set_option autoImplicit false

namespace NumericPython

namespace Layout

open Line RawTree

def StartsIn (width : Nat) (before lines : List Line) (p : Nat) : Prop :=
  ∃ line more, lines = line :: more ∧ extent width before ≤ p ∧
    p ≤ extent width before + Text.byteSize (line.chars width)

def StopsIn (width : Nat) (before lines : List Line) (p : Nat) : Prop :=
  ∃ init line, lines = init ++ [line] ∧ extent width (before ++ init) < p ∧
    p ≤ extent width (before ++ init) + Text.byteSize (line.chars width)

theorem StartsIn.append {width p : Nat} {before lines : List Line}
    (starts : StartsIn width before lines p) (more : List Line) :
    StartsIn width before (lines ++ more) p := by
  obtain ⟨line, rest, rfl, inside⟩ := starts
  exact ⟨line, rest ++ more, rfl, inside⟩

theorem StopsIn.append {width p : Nat} {before first lines : List Line}
    (stops : StopsIn width (before ++ first) lines p) : StopsIn width before (first ++ lines) p := by
  obtain ⟨init, line, rfl, inside⟩ := stops
  refine ⟨first ++ init, line, by rw [List.append_assoc], ?_⟩
  rwa [← List.append_assoc]

theorem StopsIn.last_not_blank {width p : Nat} {before lines : List Line}
    (stops : StopsIn width before lines p) : lines.getLast? ≠ some .blank := by
  obtain ⟨init, line, rfl, low, high⟩ := stops
  rw [List.getLast?_concat]
  rintro ⟨⟩
  have empty : Text.byteSize (chars width .blank) = 0 := rfl
  omega

structure Covers (width : Nat) (before lines : List Line) (tree : RawTree) : Prop where
  starts : StartsIn width before lines tree.start
  stops : StopsIn width before lines tree.stop

section Rows

variable {source : Source} {width : Nat} {before lines rest : List Line} {tree : RawTree}

theorem Covers.firstRow (covers : Covers width before lines tree)
    (shows : source.Shows width before lines) : source.rowAt tree.start = before.length := by
  obtain ⟨line, more, rfl, low, high⟩ := covers.starts
  exact shows.rowAt_eq low high

theorem Covers.lastRow (covers : Covers width before lines tree)
    (shows : source.Shows width before lines) :
    Layout.lastRow source tree + 1 = (before ++ lines).length := by
  obtain ⟨init, line, rfl, low, high⟩ := covers.stops
  have here := shows.right
  have inside := here.startsRow_eq low high
  have row := here.rowAt_eq (Nat.le_of_lt low) high
  rw [Layout.lastRow]
  simp [inside, row, Nat.add_assoc]

theorem withBlankLines_blank (shows : source.Shows width before (.blank :: rest))
    {placed : List Placed} {finish : Option Nat} {last : Nat}
    (ends : (match placed with | [] => finish | node :: _ => some node.firstRow) = some last)
    (more : before.length < last) :
    withBlankLines source finish (some before.length) placed =
      blankLine (extent width before) ::
        withBlankLines source finish (some (before.length + 1)) placed := by
  have starts := shows.blankStarts_eq more
  cases placed with
  | nil =>
      cases ends
      rw [withBlankLines, withBlankLines]
      simp only [blankLines, starts]
      rfl
  | cons node nodes =>
      cases ends
      rw [withBlankLines, withBlankLines]
      simp only [blankLines, starts]
      rfl

theorem withBlankLines_filled {line : Line} (shows : source.Shows width before (line :: rest))
    (filled : Text.isBlankLine (line.chars width) = false) {node : Placed} {nodes : List Placed}
    {finish : Option Nat} (more : before.length < node.firstRow) :
    withBlankLines source finish (some before.length) (node :: nodes) =
      withBlankLines source finish (some (before.length + 1)) (node :: nodes) := by
  rw [withBlankLines, withBlankLines]
  simp [blankLines, shows.blankStarts_eq more, filled]

theorem withBlankLines_node {node : Placed} {row : Nat} (here : node.firstRow = row)
    {nodes : List Placed} {finish : Option Nat} :
    withBlankLines source finish (some row) (node :: nodes) =
      node.tree :: withBlankLines source finish (some (node.lastRow + 1)) nodes := by
  have none_between : source.blankStarts row row = [] := by
    simp [Source.blankStarts, List.drop_eq_nil_of_le]
  rw [withBlankLines]
  simp [blankLines, here, none_between]

end Rows

/-- Lines and the nodes that stand on them, with the layout that is made of them: a tree for each
blank line and for each node. -/
inductive Lays (source : Source) (width : Nat) :
    List Line → List Line → List RawTree → List Tree → Prop
  | nil {before : List Line} : Lays source width before [] [] []
  | blank {before lines : List Line} {trees : List RawTree} {layout : List Tree}
      (later : Lays source width (before ++ [.blank]) lines trees layout) :
      Lays source width before (.blank :: lines) trees
        (blankLine (extent width before) :: layout)
  | node {before here lines : List Line} {tree : RawTree} {trees : List RawTree}
      {converted : Tree} {layout : List Tree} (covers : Covers width before here tree)
      (converts : ∀ opener, convert source opener tree = converted)
      (later : Lays source width (before ++ here) lines trees layout) :
      Lays source width before (here ++ lines) (tree :: trees) (converted :: layout)

section Lays

variable {source : Source} {width : Nat} {before lines : List Line} {trees : List RawTree}
  {layout : List Tree}

theorem Lays.le_firstRow (lays : Lays source width before lines trees layout)
    (shows : source.Shows width before lines) :
    ∀ tree ∈ trees.head?, before.length ≤ source.rowAt tree.start := by
  induction lays with
  | nil => simp
  | blank _ ih =>
      intro tree first
      have bound := ih shows.next tree first
      rw [List.length_append] at bound
      exact Nat.le_of_succ_le bound
  | node covers _ _ _ =>
      rintro tree ⟨⟩
      exact Nat.le_of_eq (covers.firstRow shows.left).symm

theorem Lays.blank_of_nil (lays : Lays source width before lines [] layout) :
    ∀ line ∈ lines, line = .blank := by
  generalize empty : ([] : List RawTree) = trees at lays
  induction lays with
  | nil => simp
  | blank _ ih => simpa using ih empty
  | node => cases empty

theorem convertAll_kept (source : Source) (opener : Option Nat) (tree : RawTree)
    (rest : List RawTree) : ∃ opener', convertAll source true opener (tree :: rest) =
      ⟨source.rowAt tree.start, Layout.lastRow source tree, convert source opener tree⟩ ::
        convertAll source true opener' rest := by
  rw [convertAll_cons]
  split
  · exact ⟨opener, rfl⟩
  · exact ⟨some (source.rowAt tree.stop), rfl⟩

theorem Lays.append {first second : List Line} {trees trees' : List RawTree}
    {layout layout' : List Tree} (lays : Lays source width before first trees layout)
    (lays' : Lays source width (before ++ first) second trees' layout') :
    Lays source width before (first ++ second) (trees ++ trees') (layout ++ layout') := by
  induction lays with
  | nil => simpa using lays'
  | blank _ ih =>
      have later := ih (by simpa using lays')
      exact .blank later
  | node covers converts _ ih =>
      have later := ih (by simpa using lays')
      rw [List.append_assoc]
      exact .node covers converts later

theorem Lays.withBlankLines_eq (lays : Lays source width before lines trees layout)
    (shows : source.Shows width before lines) {finish : Option Nat}
    (ends : finish = some (before ++ lines).length ∨ finish = none ∧ lines.getLast? ≠ some .blank)
    (opener : Option Nat) :
    withBlankLines source finish (some before.length) (convertAll source true opener trees) =
      layout := by
  induction lays generalizing opener with
  | @nil before =>
      have none_left : source.blankStarts before.length before.length = [] := by
        simp [Source.blankStarts, List.drop_eq_nil_of_le]
      rw [convertAll]
      rcases ends with rfl | ⟨rfl, _⟩
      · simp [withBlankLines, blankLines, none_left]
      · simp [withBlankLines]
  | @blank before lines trees layout later ih =>
      have ends' : finish = some ((before ++ [Line.blank]) ++ lines).length ∨
          finish = none ∧ lines.getLast? ≠ some .blank := by
        rcases ends with rfl | ⟨rfl, notBlank⟩
        · exact .inl (by simp)
        · refine .inr ⟨rfl, fun last => notBlank ?_⟩
          rw [List.getLast?_cons, last]
          rfl
      -- The blank line is the first of the rows in front of the next node, or of the rows at the end.
      have here := ih shows.next ends' opener
      rw [List.length_append, List.length_singleton] at here
      rw [← here]
      cases trees with
      | nil =>
          rw [convertAll]
          rcases ends with rfl | ⟨_, notBlank⟩
          · exact withBlankLines_blank shows rfl (by simp)
          · -- Without a node behind it every line is blank, and so is the last one.
            have all := later.blank_of_nil
            have last := List.getLast?_eq_some_getLast (List.cons_ne_nil Line.blank lines)
            rcases List.mem_cons.1 (List.getLast_mem (List.cons_ne_nil Line.blank lines)) with
              blank | inside
            · exact absurd (last.trans (congrArg some blank)) notBlank
            · exact absurd (last.trans (congrArg some (all _ inside))) notBlank
      | cons tree trees =>
          have bound := later.le_firstRow shows.next tree rfl
          rw [List.length_append, List.length_singleton] at bound
          obtain ⟨opener', converted⟩ := convertAll_kept source opener tree trees
          rw [converted]
          exact withBlankLines_blank shows rfl bound
  | @node before here lines tree trees converted layout covers converts later ih =>
      have ends' : finish = some ((before ++ here) ++ lines).length ∨
          finish = none ∧ lines.getLast? ≠ some .blank := by
        rcases ends with rfl | ⟨rfl, notBlank⟩
        · exact .inl (by simp)
        · refine .inr ⟨rfl, fun last => notBlank ?_⟩
          rw [List.getLast?_append, last]
          rfl
      obtain ⟨opener', converted'⟩ := convertAll_kept source opener tree trees
      rw [converted', withBlankLines_node (covers.firstRow shows.left), covers.lastRow shows.left,
        ih shows.right ends', converts]

end Lays

section Fronts

inductive Fronts (source : Source) (width : Nat) :
    List Line → List Line → List RawTree → List Tree → Prop
  | nil {before : List Line} : Fronts source width before [] [] []
  | blank {before lines : List Line} {comments : List RawTree} {layout : List Tree}
      (later : Fronts source width (before ++ [.blank]) lines comments layout) :
      Fronts source width before (.blank :: lines) comments
        (blankLine (extent width before) :: layout)
  -- The node of a comment stands in front of the node of the body.
  | comment {before lines : List Line} {line : Line} {tree : RawTree} {comments : List RawTree}
      {converted : Tree} {layout : List Tree} (covers : Covers width before [line] tree)
      (filled : Text.isBlankLine (line.chars width) = false) (isComment : tree.isComment = true)
      (converts : ∀ opener, convert source opener tree = converted)
      (sort : converted.kind = .comment)
      (later : Fronts source width (before ++ [line]) lines comments layout) :
      Fronts source width before (line :: lines) (tree :: comments) (converted :: layout)

variable {source : Source} {width : Nat} {before front lines : List Line}
  {comments trees : List RawTree} {layout rest : List Tree}

theorem Fronts.convertKept_eq (fronts : Fronts source width before front comments layout)
    (opener : Option Nat) : convertKept source opener comments = layout.filter Layout.isComment := by
  induction fronts with
  | nil => rfl
  | blank _ ih =>
      rw [ih]
      rfl
  | comment _ _ isComment converts sort _ ih =>
      rw [convertKept_comment isComment, ih, converts]
      simp [Layout.isComment, sort]

theorem Fronts.withBlankLines_eq (fronts : Fronts source width before front comments layout)
    (shows : source.Shows width before front) {node : Placed} {nodes : List Placed}
    (first : node.firstRow = (before ++ front).length) {finish : Option Nat} :
    withBlankLines source finish (some before.length) (node :: nodes) =
      layout.filter (!Layout.isComment ·) ++
        withBlankLines source finish (some (before ++ front).length) (node :: nodes) := by
  induction fronts with
  | nil => simp
  | @blank before lines comments layout later ih =>
      have here := ih shows.next (by simpa using first)
      have more : before.length < node.firstRow := by simp [first]
      rw [List.length_append, List.length_singleton] at here
      rw [withBlankLines_blank shows rfl more, here]
      simp [Layout.isComment, blankLine, Tree.leaf]
  | @comment before lines line tree comments converted layout covers filled isComment converts sort
      later ih =>
      have here := ih shows.next (by simpa using first)
      have more : before.length < node.firstRow := by simp [first]
      rw [List.length_append, List.length_singleton] at here
      rw [withBlankLines_filled shows filled more, here]
      simp [Layout.isComment, sort]

theorem insertComments_cons {comments : List Tree} {first : Tree} {rest : List Tree}
    (passed : (first.kind == .blankLine || first.kind == .comment) = true)
    (behind : ∀ comment ∈ comments, first.span.start < comment.span.start) :
    insertComments comments (first :: rest) = first :: insertComments comments rest := by
  induction comments generalizing rest with
  | nil => rfl
  | cons comment others ih =>
      have here : insertComment comment (first :: rest) = first :: insertComment comment rest := by
        rw [insertComment, passed, if_pos (by simpa using behind comment (.head _))]
      rw [insertComments, List.foldl_cons, here]
      exact ih fun other member => behind other (.tail _ member)

theorem insertComments_start {comment : Tree} {comments body : List Tree}
    (stays : ∀ first ∈ body.head?, (first.kind == .blankLine || first.kind == .comment) = true →
      ¬first.span.start < comment.span.start) :
    insertComments (comment :: comments) body = insertComments comments (comment :: body) := by
  have here : insertComment comment body = comment :: body := by
    cases body with
    | nil => rfl
    | cons first rest =>
        rw [insertComment, if_neg]
        intro both
        rw [Bool.and_eq_true, decide_eq_true_eq] at both
        exact stays first rfl both.1 both.2
  rw [insertComments, List.foldl_cons, here]
  rfl

theorem insertComments_front {layout rest : List Tree}
    (passed : ∀ tree ∈ layout, (tree.kind == .blankLine || tree.kind == .comment) = true)
    (sorted : layout.Pairwise fun first second => first.span.start < second.span.start)
    (stays : ∀ first ∈ rest.head?, (first.kind == .blankLine || first.kind == .comment) = false) :
    insertComments (layout.filter Layout.isComment) (layout.filter (!Layout.isComment ·) ++ rest) =
      layout ++ rest := by
  induction layout with
  | nil => rfl
  | cons first layout ih =>
      obtain ⟨before, sorted⟩ := List.pairwise_cons.1 sorted
      have later := ih (fun tree member => passed tree (.tail _ member)) sorted
      have here := @insertComments_cons (layout.filter Layout.isComment) first
        (layout.filter (!Layout.isComment ·) ++ rest) (passed first (.head _))
        fun comment member => before comment (List.mem_of_mem_filter member)
      by_cases comment : Layout.isComment first = true
      · have notBefore : ∀ next ∈ (layout.filter (!Layout.isComment ·) ++ rest).head?,
            (next.kind == .blankLine || next.kind == .comment) = true →
              ¬next.span.start < first.span.start := by
          intro next found isLayout
          rw [List.head?_append] at found
          cases front : (layout.filter (!Layout.isComment ·)).head? with
          | none =>
              rw [front, Option.none_or] at found
              rw [stays next found] at isLayout
              cases isLayout
          | some other =>
              rw [front, Option.some_or] at found
              cases found
              have bound := before next (List.mem_of_mem_filter (List.mem_of_head? front))
              exact fun less => Nat.lt_asymm (UInt32.lt_iff_toNat_lt.1 bound)
                (UInt32.lt_iff_toNat_lt.1 less)
        rw [List.filter_cons_of_pos comment, List.filter_cons_of_neg (by simp [comment]),
          insertComments_start notBefore, here, later, List.cons_append]
      · rw [List.filter_cons_of_neg comment, List.filter_cons_of_pos (by simpa using comment),
          List.cons_append, here, later, List.cons_append]

theorem Fronts.passed (fronts : Fronts source width before front comments layout) :
    ∀ tree ∈ layout, (tree.kind == .blankLine || tree.kind == .comment) = true := by
  induction fronts with
  | nil => simp
  | blank _ ih => exact List.forall_mem_cons.2 ⟨rfl, ih⟩
  | comment _ _ _ _ sort _ ih => exact List.forall_mem_cons.2 ⟨by simp [sort], ih⟩

theorem Fronts.places (fronts : Fronts source width before front comments layout) :
    ∃ places : List Nat, layout.map (·.span.start) = places.map clampOffset ∧
      places.Pairwise (· < ·) ∧
      ∀ p ∈ places, extent width before ≤ p ∧ p < extent width (before ++ front) := by
  -- What stands on the first line starts before the place behind that line.
  have step {before lines : List Line} {line : Line} {p : Nat} {places : List Nat}
      (low : extent width before ≤ p)
      (high : p ≤ extent width before + Text.byteSize (line.chars width))
      (sorted : places.Pairwise (· < ·)) (inside : ∀ p ∈ places,
        extent width (before ++ [line]) ≤ p ∧ p < extent width (before ++ [line] ++ lines)) :
      (p :: places).Pairwise (· < ·) ∧
        ∀ q ∈ p :: places, extent width before ≤ q ∧ q < extent width (before ++ line :: lines) := by
    have none : extent width [] = 0 := rfl
    simp only [extent_append, extent_cons, none] at inside ⊢
    refine ⟨List.pairwise_cons.2 ⟨fun q member => ?_, sorted⟩, fun q member => ?_⟩
    · have bounds := inside q member
      omega
    · rcases List.mem_cons.1 member with rfl | member
      · omega
      · have bounds := inside q member
        omega
  induction fronts with
  | nil => exact ⟨[], rfl, .nil, by simp⟩
  | @blank before lines comments layout later ih =>
      obtain ⟨places, starts, sorted, inside⟩ := ih
      have here := @step before lines .blank (extent width before) places (Nat.le_refl _)
        (Nat.le_add_right _ _) sorted inside
      exact ⟨extent width before :: places, by rw [List.map_cons, List.map_cons, starts]; rfl, here⟩
  | @comment before lines line tree comments converted layout covers filled isComment converts sort
      later ih =>
      obtain ⟨places, starts, sorted, inside⟩ := ih
      obtain ⟨_, _, same, low, high⟩ := covers.starts
      cases same
      have start : converted.span.start = clampOffset tree.start := by
        rw [← converts none, convert_span]
        rfl
      exact ⟨tree.start :: places, by rw [List.map_cons, List.map_cons, start, starts],
        @step before lines line tree.start places low high sorted inside⟩

theorem extent_le (shows : source.Shows width before lines) :
    extent width (before ++ lines) ≤ Text.byteSize source.chars := by
  obtain ⟨after, whole, _⟩ := shows
  rw [whole, ← extent, extent_append (before ++ lines)]
  exact Nat.le_add_right _ _

theorem Fronts.sorted (fronts : Fronts source width before front comments layout)
    (shows : source.Shows width before front) (small : Text.byteSize source.chars < UInt32.size) :
    layout.Pairwise fun first second => first.span.start < second.span.start := by
  obtain ⟨places, starts, sorted, inside⟩ := fronts.places
  have bound := extent_le shows
  have climbs : (layout.map (·.span.start)).Pairwise (· < ·) := by
    rw [starts, List.pairwise_map]
    refine sorted.imp_of_mem fun {p q} member member' less => ?_
    have first := inside p member
    have second := inside q member'
    rw [UInt32.lt_iff_toNat_lt, clampOffset_toNat (by omega), clampOffset_toNat (by omega)]
    exact less
  exact List.pairwise_map.1 climbs

theorem body_layout {main : List Line} {tree : RawTree} {converted : Tree}
    (fronts : Fronts source width before front comments layout)
    (lays : Lays source width (before ++ front) main (tree :: trees) (converted :: rest))
    (solid : (converted.kind == .blankLine || converted.kind == .comment) = false)
    (last : main.getLast? ≠ some .blank) (shows : source.Shows width before (front ++ main))
    (small : Text.byteSize source.chars < UInt32.size) (opener : Option Nat) :
    insertComments (convertKept source opener comments)
        (withBlankLines source none (some before.length)
          (convertAll source true none (tree :: trees))) =
      layout ++ converted :: rest := by
  have first : source.rowAt tree.start = (before ++ front).length := by
    have shows' := shows.right
    generalize before ++ front = here at lays shows'
    generalize nodes : tree :: trees = all at lays
    generalize layouts : converted :: rest = laid at lays
    cases lays with
    | nil => cases nodes
    | blank =>
        cases layouts
        cases solid
    | node covers =>
        cases nodes
        exact covers.firstRow shows'.left
  obtain ⟨opener', kept⟩ := convertAll_kept source none tree trees
  have main := lays.withBlankLines_eq shows.right (.inr ⟨rfl, last⟩) none
  rw [kept] at main ⊢
  rw [fronts.withBlankLines_eq shows.left first, main, fronts.convertKept_eq,
    insertComments_front fronts.passed (fronts.sorted shows.left small)]
  rintro _ ⟨⟩
  exact solid

end Fronts

end Layout

end NumericPython

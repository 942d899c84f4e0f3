import NumericPython.Proofs.Layout.Faithful

set_option autoImplicit false

namespace NumericPython

open NumericPython.Tree NumericPython.Layout

def Source.BlankAt (source : Source) (start : Nat) : Prop :=
  ∃ row ∈ source.rows, row.isBlank = true ∧ row.start = start

namespace Tree

mutual

def blankPlaces : Tree → List Nat
  | ⟨_, _, _, _, children⟩ => blankPlacesAmong children

def blankPlacesAmong : List Tree → List Nat
  | [] => []
  | tree :: rest =>
    (if tree.kind == .blankLine then [tree.place] else []) ++
      (blankPlaces tree ++ blankPlacesAmong rest)

end

theorem blankPlaces_eq (tree : Tree) : tree.blankPlaces = blankPlacesAmong tree.children := by
  cases tree
  rw [blankPlaces]

theorem blankPlacesAmong_other {tree : Tree} (other : tree.kind ≠ .blankLine) (rest : List Tree) :
    blankPlacesAmong (tree :: rest) = tree.blankPlaces ++ blankPlacesAmong rest := by
  simp [blankPlacesAmong, other]

def blankPlaceSurvey : Survey Nat where
  collect := blankPlacesAmong
  nil := rfl
  cons tree rest := by simp [blankPlacesAmong]
  below tree nodes same := by
    simp only [blankPlacesAmong, blankPlaces_eq, same]
    rfl

end Tree

namespace Layout

variable {source : Source}

theorem blankPlacesAmong_of_blank {lines : List Tree} (blank : ∀ line ∈ lines, IsBlankLine line) :
    blankPlacesAmong lines = lines.map Tree.place := by
  induction lines with
  | nil => rfl
  | cons line rest ih =>
      simp only [List.mem_cons, forall_eq_or_imp] at blank
      obtain ⟨kind, leaf⟩ := blank.1
      rw [blankPlacesAmong, blankPlaces_eq, leaf, ih blank.2]
      simp [kind, blankPlacesAmong]

/-- The places are in rows from `low` up to but not including `high`, each in a later row. -/
structure RowsIn (source : Source) (low high : Nat) (places : List Nat) : Prop where
  sorted : (places.map source.rowAt).Pairwise (· < ·)
  lower : ∀ place ∈ places, low ≤ source.rowAt place
  upper : ∀ place ∈ places, source.rowAt place < high

theorem RowsIn.nil {low high : Nat} : RowsIn source low high [] :=
  ⟨.nil, by simp, by simp⟩

theorem RowsIn.widen {low low' high high' : Nat} {places : List Nat}
    (rows : RowsIn source low high places) (lower : low' ≤ low) (upper : high ≤ high') :
    RowsIn source low' high' places :=
  ⟨rows.sorted, fun place member => Nat.le_trans lower (rows.lower place member),
    fun place member => Nat.lt_of_lt_of_le (rows.upper place member) upper⟩

theorem RowsIn.append {low high low' high' : Nat} {first second : List Nat}
    (rows : RowsIn source low high first) (rows' : RowsIn source low' high' second)
    (apart : high ≤ low') (lower : low ≤ low') (upper : high ≤ high') :
    RowsIn source low high' (first ++ second) := by
  refine ⟨?_, ?_, ?_⟩
  · rw [List.map_append, List.pairwise_append]
    refine ⟨rows.sorted, rows'.sorted, fun x inFirst y inSecond => ?_⟩
    obtain ⟨place, member, rfl⟩ := List.mem_map.1 inFirst
    obtain ⟨place', member', rfl⟩ := List.mem_map.1 inSecond
    have before := rows.upper place member
    have after := rows'.lower place' member'
    omega
  · intro place member
    rcases List.mem_append.1 member with member | member
    · exact rows.lower place member
    · exact Nat.le_trans lower (rows'.lower place member)
  · intro place member
    rcases List.mem_append.1 member with member | member
    · exact Nat.lt_of_lt_of_le (rows.upper place member) upper
    · exact rows'.upper place member

theorem places_blankLines (size : Text.byteSize source.chars < UInt32.size) (first last : Nat) :
    (blankLines source first last).map Tree.place = source.blankStarts first last := by
  rw [blankLines, List.map_map]
  refine (List.map_congr_left fun start counted => ?_).trans (List.map_id _)
  obtain ⟨row, member, -, rfl, -, -⟩ := source.row_of_mem_blankStarts counted
  have inside := source.start_le_byteSize member
  rw [Function.comp_apply, place_blankLine, id_eq]
  omega

def gapStarts (source : Source) : Option Nat → Option Nat → List Nat
  -- A gap need not have two ends.
  | some first, some last => source.blankStarts first last
  | _, _ => []

theorem blankPlacesAmong_rowsBetween (size : Text.byteSize source.chars < UInt32.size)
    (first last : Option Nat) :
    blankPlacesAmong (rowsBetween source first last) = gapStarts source first last := by
  rw [blankPlacesAmong_of_blank fun _ => isBlankLine_rowsBetween]
  cases first with
  | none => rfl
  | some first =>
      cases last with
      | none => rfl
      | some last => exact places_blankLines size first last

theorem row_of_mem_gapStarts {first last : Option Nat} {start : Nat}
    (member : start ∈ gapStarts source first last) :
    source.BlankAt start ∧
      (∀ row ∈ first, row ≤ source.rowAt start) ∧ ∀ row ∈ last, source.rowAt start < row := by
  cases first with
  | none => simp [gapStarts] at member
  | some first =>
      cases last with
      | none => simp [gapStarts] at member
      | some last =>
          obtain ⟨row, inside, blank, same, lower, upper⟩ := source.row_of_mem_blankStarts member
          exact ⟨⟨row, inside, blank, same⟩, by simpa using lower, by simpa using upper⟩

theorem rowsIn_gapStarts {first last : Option Nat} {low high : Nat}
    (lower : ∀ row ∈ first, low ≤ row) (upper : ∀ row ∈ last, row ≤ high) :
    RowsIn source low high (gapStarts source first last) := by
  cases first with
  | none => exact .nil
  | some first =>
      cases last with
      | none => exact .nil
      | some last =>
          refine ⟨source.rowAt_blankStarts_sorted first last, fun place member => ?_,
            fun place member => ?_⟩
          · exact Nat.le_trans (lower first rfl) ((row_of_mem_gapStarts member).2.1 first rfl)
          · exact Nat.lt_of_lt_of_le ((row_of_mem_gapStarts member).2.2 last rfl) (upper last rfl)

theorem blankPlacesAmong_withBlankLines (size : Text.byteSize source.chars < UInt32.size)
    {finish next : Option Nat} {node : Placed} {rest : List Placed}
    (other : node.tree.kind ≠ .blankLine) :
    blankPlacesAmong (withBlankLines source finish next (node :: rest)) =
      gapStarts source next (some node.firstRow) ++ (node.tree.blankPlaces ++
        blankPlacesAmong (withBlankLines source finish (some (node.lastRow + 1)) rest)) := by
  have append := blankPlaceSurvey.append (rowsBetween source next (some node.firstRow))
    (node.tree :: withBlankLines source finish (some (node.lastRow + 1)) rest)
  rw [withBlankLines_cons, ← blankPlacesAmong_rowsBetween size]
  exact append.trans (congrArg _ (blankPlacesAmong_other other _))

theorem lastRow_bounds (source : Source) {tree : RawTree} (ordered : tree.start ≤ tree.stop) :
    source.rowAt tree.start ≤ lastRow source tree ∧ lastRow source tree ≤ source.rowAt tree.stop ∧
      source.rowAt tree.stop ≤ lastRow source tree + 1 := by
  have rows := source.rowAt_mono ordered
  dsimp only [lastRow]
  split
  next feed =>
    simp only [Bool.and_eq_true, decide_eq_true_eq] at feed
    omega
  next => omega

end Layout

namespace RawTree

variable {source : Source}

structure NodePart where
  raw : RawTree
  opener : Option Nat

namespace NodePart

def tree (source : Source) (part : NodePart) : Tree :=
  convert source part.opener part.raw

def floor (source : Source) (part : NodePart) : Nat :=
  -- The rows that the part reports come after this one.
  if part.raw.treeKind = .block then part.opener.getD (source.rowAt part.raw.start)
  else source.rowAt part.raw.start

def Follows (source : Source) (part : NodePart) : Prop :=
  ∀ row ∈ part.opener, row ≤ source.rowAt part.raw.start

end NodePart

def parts (source : Source) (opener : Option Nat) : List RawTree → List NodePart
  | [] => []
  | tree :: rest =>
    ⟨tree, opener⟩ ::
      parts source (if tree.isComment then opener else some (source.rowAt tree.stop)) rest

theorem convertAll_level (opener : Option Nat) (tree : RawTree) (rest : List RawTree) :
    convertAll source true opener (tree :: rest) =
      tree.placed source opener :: convertAll source true
        (if tree.isComment then opener else some (source.rowAt tree.stop)) rest := by
  rw [convertAll_cons]
  split <;> rfl

theorem exists_part (source : Source) {trees : List RawTree} {tree : RawTree} (member : tree ∈ trees)
    (opener : Option Nat) : ∃ part ∈ parts source opener trees, part.raw = tree := by
  induction trees generalizing opener with
  | nil => cases member
  | cons first rest ih =>
      rcases List.mem_cons.1 member with rfl | member
      · exact ⟨_, .head _, rfl⟩
      · obtain ⟨part, inside, same⟩ := ih member _
        exact ⟨part, .tail _ inside, same⟩

theorem raw_mem_of_part {trees : List RawTree} {opener : Option Nat} {part : NodePart}
    (member : part ∈ parts source opener trees) : part.raw ∈ trees := by
  induction trees generalizing opener with
  | nil => cases member
  | cons tree rest ih =>
      rcases List.mem_cons.1 member with rfl | member
      · exact .head _
      · exact .tail _ (ih member)

section Siblings

variable {low high : Nat} {trees : List RawTree} {opener : Option Nat}

theorem opener_le_next {tree : RawTree} (ordered : low ≤ tree.stop)
    (openers : ∀ row ∈ opener, row ≤ source.rowAt low) :
    ∀ row ∈ (if tree.isComment then opener else some (source.rowAt tree.stop)),
      row ≤ source.rowAt tree.stop := by
  intro row member
  split at member
  · exact Nat.le_trans (openers row member) (source.rowAt_mono ordered)
  · rw [Option.mem_some] at member
    exact Nat.le_of_eq member.symm

theorem follows_of_mem (siblings : Siblings low high trees)
    (openers : ∀ row ∈ opener, row ≤ source.rowAt low) :
    ∀ part ∈ parts source opener trees, part.Follows source := by
  induction trees generalizing low opener with
  | nil => simp [parts]
  | cons tree rest ih =>
      obtain ⟨start, bound, others⟩ := siblings
      intro part member
      rcases List.mem_cons.1 member with rfl | member
      · exact fun row same => Nat.le_trans (openers row same) (source.rowAt_mono start)
      · exact ih others (opener_le_next (Nat.le_trans start bound) openers) part member

theorem blankPlaces_of_comment {tree : RawTree} (comment : tree.isComment = true) :
    (convert source opener tree).blankPlaces = [] := by
  rw [blankPlaces_eq, children_of_leaf (isLeaf_of_isComment comment)]
  rfl

section Levels

variable (size : Text.byteSize source.chars < UInt32.size)

include size

theorem blankPlacesAmong_level_cons (finish next : Option Nat) (tree : RawTree)
    (rest : List RawTree) :
    blankPlacesAmong (withBlankLines source finish next
        (convertAll source true opener (tree :: rest))) =
      gapStarts source next (some (source.rowAt tree.start)) ++
        ((convert source opener tree).blankPlaces ++
          blankPlacesAmong (withBlankLines source finish (some (lastRow source tree + 1))
            (convertAll source true
              (if tree.isComment then opener else some (source.rowAt tree.stop)) rest))) := by
  have other : (tree.placed source opener).tree.kind ≠ .blankLine := by
    rw [placed, convert_kind]
    exact treeKind_ne_blankLine tree
  rw [convertAll_level, blankPlacesAmong_withBlankLines size other]
  rfl

theorem mem_level {finish next : Option Nat} {place : Nat}
    (member : place ∈ blankPlacesAmong (withBlankLines source finish next
      (convertAll source true opener trees))) :
    source.BlankAt place ∨
      ∃ part ∈ parts source opener trees, place ∈ (part.tree source).blankPlaces := by
  induction trees generalizing opener next with
  | nil =>
      rw [convertAll, withBlankLines_nil, blankPlacesAmong_rowsBetween size] at member
      exact .inl (row_of_mem_gapStarts member).1
  | cons tree rest ih =>
      rw [blankPlacesAmong_level_cons size, List.mem_append, List.mem_append] at member
      rcases member with gap | here | after
      · exact .inl (row_of_mem_gapStarts gap).1
      · exact .inr ⟨_, .head _, here⟩
      · rcases ih after with blank | ⟨part, inside, found⟩
        · exact .inl blank
        · exact .inr ⟨part, .tail _ inside, found⟩

theorem rowsIn_level (siblings : Siblings low high trees)
    (inner : ∀ part ∈ parts source opener trees, RowsIn source (source.rowAt part.raw.start + 1)
      (source.rowAt part.raw.stop) (part.tree source).blankPlaces)
    {finish next : Option Nat} {top : Nat} (reached : ∀ row ∈ next, row ≤ source.rowAt low + 1)
    (ends : ∀ row ∈ finish, row ≤ top) (bound : source.rowAt high ≤ top) :
    RowsIn source (next.getD (source.rowAt low + 1)) top
      (blankPlacesAmong (withBlankLines source finish next
        (convertAll source true opener trees))) := by
  have from_next (next : Option Nat) (other : Nat) : ∀ row ∈ next, next.getD other ≤ row := by
    intro row same
    rw [Option.mem_def.1 same]
    exact Nat.le_refl row
  induction trees generalizing low opener next with
  | nil =>
      rw [convertAll, withBlankLines_nil, blankPlacesAmong_rowsBetween size]
      exact rowsIn_gapStarts (from_next next _) ends
  | cons tree rest ih =>
      obtain ⟨start, ordered, others⟩ := siblings
      obtain ⟨startRow, lastRow_le, stopRow⟩ := lastRow_bounds source ordered
      have lowRow := source.rowAt_mono start
      have highRow := source.rowAt_mono others.low_le_high
      have low_le : next.getD (source.rowAt low + 1) ≤ source.rowAt low + 1 := by
        cases next with
        | none => exact Nat.le_refl _
        | some row => exact reached row rfl
      have front : RowsIn source (next.getD (source.rowAt low + 1)) (source.rowAt tree.start)
          (gapStarts source next (some (source.rowAt tree.start))) :=
        rowsIn_gapStarts (from_next next _) (by simp)
      have here : RowsIn source (source.rowAt tree.start + 1) (source.rowAt tree.stop)
          (convert source opener tree).blankPlaces := inner ⟨tree, opener⟩ (.head _)
      have reached : ∀ row ∈ some (lastRow source tree + 1), row ≤ source.rowAt tree.stop + 1 := by
        simpa using lastRow_le
      have after : RowsIn source (lastRow source tree + 1) top _ :=
        ih others (fun part member => inner part (.tail _ member)) reached
      -- A node starts at its first row, so the rows in front of it, inside it and behind it are apart.
      rw [blankPlacesAmong_level_cons size]
      refine front.append (here.append after ?_ ?_ ?_) ?_ ?_ ?_ <;> omega

theorem mem_part_of_level (siblings : Siblings low high trees)
    (inner : ∀ part ∈ parts source opener trees, RowsIn source (source.rowAt part.raw.start + 1)
      (source.rowAt part.raw.stop) (part.tree source).blankPlaces)
    {finish next : Option Nat} {place : Nat}
    (found : place ∈ blankPlacesAmong (withBlankLines source finish next
      (convertAll source true opener trees)))
    {part : NodePart} (member : part ∈ parts source opener trees)
    (lower : source.rowAt part.raw.start ≤ source.rowAt place)
    (upper : source.rowAt place ≤ lastRow source part.raw) :
    place ∈ (part.tree source).blankPlaces := by
  induction trees generalizing low opener next with
  | nil => cases member
  | cons tree rest ih =>
      obtain ⟨start, ordered, others⟩ := siblings
      have here : RowsIn source (source.rowAt tree.start + 1) (source.rowAt tree.stop)
          (convert source opener tree).blankPlaces := inner ⟨tree, opener⟩ (.head _)
      have later := fun part member => inner part (.tail _ member)
      have nextRow := source.rowAt_mono ordered
      rw [blankPlacesAmong_level_cons size, List.mem_append, List.mem_append] at found
      rcases List.mem_cons.1 member with rfl | member
      · rcases found with front | found | after
        · have before := (row_of_mem_gapStarts front).2.2 _ rfl
          exact absurd lower (Nat.not_le.2 before)
        · exact found
        · have reached : ∀ row ∈ some (lastRow source tree + 1), row ≤ source.rowAt tree.stop + 1 := by
            simpa using (lastRow_bounds source ordered).2.1
          have ends : ∀ row ∈ finish, row ≤ source.rowAt high + finish.getD 0 := by
            intro row same
            rw [Option.mem_def.1 same, Option.getD_some]
            exact Nat.le_add_left _ _
          have behind := (rowsIn_level size others later reached ends
            (Nat.le_add_right _ _)).lower place after
          exact absurd upper (Nat.not_le.2 behind)
      · obtain ⟨stop, -, -⟩ := others.inside _ (raw_mem_of_part member)
        have stopRow := source.rowAt_mono stop
        rcases found with front | found | after
        · have before := (row_of_mem_gapStarts front).2.2 _ rfl
          omega
        · have before := here.upper place found
          omega
        · exact ih others later after member

end Levels

section Inside

theorem blankPlacesAmong_nodes_cons (keeps : Bool) (tree : RawTree) (rest : List RawTree) :
    blankPlacesAmong ((convertAll source keeps opener (tree :: rest)).map Placed.tree) =
      (convert source opener tree).blankPlaces ++ blankPlacesAmong ((convertAll source keeps
        (if tree.isComment then opener else some (source.rowAt tree.stop)) rest).map Placed.tree) := by
  have other : (tree.placed source opener).tree.kind ≠ .blankLine := by
    rw [placed, convert_kind]
    exact treeKind_ne_blankLine tree
  rw [convertAll_cons]
  split
  next comment =>
    -- A comment reports nothing, whether it is kept or not.
    rw [blankPlaces_of_comment comment, List.nil_append]
    split
    · rw [List.map_cons, blankPlacesAmong_other other]
      exact congrArg (· ++ _) (blankPlaces_of_comment comment)
    · rfl
  next => rw [List.map_cons, blankPlacesAmong_other other]; rfl

theorem mem_nodes {keeps : Bool} {place : Nat}
    (member : place ∈ blankPlacesAmong ((convertAll source keeps opener trees).map Placed.tree)) :
    ∃ part ∈ parts source opener trees, place ∈ (part.tree source).blankPlaces := by
  induction trees generalizing opener with
  | nil => cases member
  | cons tree rest ih =>
      rw [blankPlacesAmong_nodes_cons, List.mem_append] at member
      rcases member with here | after
      · exact ⟨_, .head _, here⟩
      · obtain ⟨part, inside, found⟩ := ih after
        exact ⟨part, .tail _ inside, found⟩

theorem rowsIn_nodes (siblings : Siblings low high trees)
    (openers : ∀ row ∈ opener, row ≤ source.rowAt low)
    (inner : ∀ part ∈ parts source opener trees, RowsIn source (part.floor source + 1)
      (source.rowAt part.raw.stop) (part.tree source).blankPlaces) (keeps : Bool) :
    RowsIn source (opener.getD (source.rowAt low) + 1) (source.rowAt high)
      (blankPlacesAmong ((convertAll source keeps opener trees).map Placed.tree)) := by
  induction trees generalizing low opener with
  | nil => exact .nil
  | cons tree rest ih =>
      obtain ⟨start, ordered, others⟩ := siblings
      have startRow := source.rowAt_mono start
      have stopRow := source.rowAt_mono ordered
      have highRow := source.rowAt_mono others.low_le_high
      have later := ih others (opener_le_next (Nat.le_trans start ordered) openers)
        fun part member => inner part (.tail _ member)
      rw [blankPlacesAmong_nodes_cons]
      cases comment : tree.isComment with
      | true =>
          -- A comment reports no rows and leaves the opener where it was.
          rw [blankPlaces_of_comment comment, List.nil_append]
          rw [comment, if_pos rfl] at later
          refine later.widen ?_ (Nat.le_refl _)
          cases opener with
          | none => rw [Option.getD_none, Option.getD_none]; omega
          | some row => exact Nat.le_refl _
      | false =>
          -- The node reports rows above its floor, which is no lower than that of the level.
          have here : RowsIn source ((NodePart.mk tree opener).floor source + 1)
              (source.rowAt tree.stop) (convert source opener tree).blankPlaces :=
            inner ⟨tree, opener⟩ (.head _)
          have floor : opener.getD (source.rowAt low) ≤ (NodePart.mk tree opener).floor source := by
            unfold NodePart.floor
            cases opener with
            | none => split <;> exact startRow
            | some row =>
                split
                · exact Nat.le_refl row
                · exact Nat.le_trans (openers row rfl) startRow
          have low_le : opener.getD (source.rowAt low) ≤ source.rowAt low := by
            cases opener with
            | none => exact Nat.le_refl _
            | some row => exact openers row rfl
          rw [comment, if_neg (by simp), Option.getD_some] at later
          rw [if_neg (by simp)]
          exact (here.widen (Nat.succ_le_succ floor) (Nat.le_refl _)).append later (by omega)
            (by omega) highRow

theorem mem_part_of_nodes (siblings : Siblings low high trees)
    (openers : ∀ row ∈ opener, row ≤ source.rowAt low)
    (inner : ∀ part ∈ parts source opener trees, RowsIn source (part.floor source + 1)
      (source.rowAt part.raw.stop) (part.tree source).blankPlaces) {keeps : Bool} {place : Nat}
    (found : place ∈ blankPlacesAmong ((convertAll source keeps opener trees).map Placed.tree))
    {part : NodePart} (member : part ∈ parts source opener trees) (other : part.raw.isComment = false)
    (lower : source.rowAt part.raw.start ≤ source.rowAt place)
    (upper : source.rowAt place ≤ source.rowAt part.raw.stop) :
    place ∈ (part.tree source).blankPlaces := by
  induction trees generalizing low opener with
  | nil => cases member
  | cons tree rest ih =>
      obtain ⟨start, ordered, others⟩ := siblings
      have nextOpeners := opener_le_next (Nat.le_trans start ordered) openers
      have later := fun part member => inner part (.tail _ member)
      rw [blankPlacesAmong_nodes_cons, List.mem_append] at found
      rcases List.mem_cons.1 member with rfl | member
      · rcases found with here | after
        · exact here
        · have behind := (rowsIn_nodes others nextOpeners later keeps).lower place after
          rw [if_neg (by simpa using other), Option.getD_some] at behind
          exact absurd upper (Nat.not_le.2 behind)
      · rcases found with here | after
        · obtain ⟨stop, -, -⟩ := others.inside _ (raw_mem_of_part member)
          have stopRow := source.rowAt_mono stop
          have before : source.rowAt place < source.rowAt tree.stop :=
            (inner ⟨tree, opener⟩ (.head _)).upper place here
          omega
        · exact ih others nextOpeners later after member

end Inside

end Siblings

end RawTree

end NumericPython

import NumericPython.Proofs.Layout.Faithful
import NumericPython.Proofs.Lists
import NumericPython.Proofs.Problem.Reports

set_option autoImplicit false

namespace NumericPython

def RawTree.Opens (tree : RawTree) (bracket : Char) (token : RawTree) : Prop :=
  token ∈ tree.children ∧ token.isNamed = false ∧ token.kind = bracket.toString

-- The parents in the listing are nodes of the tree, too.
theorem RawTree.parent_of_mem_withParents {above : Option RawTree} {tree parent node : RawTree}
    (listed : (some parent, node) ∈ withParents above tree) :
    above = some parent ∨ tree.Within parent := by
  induction tree using RawTree.induction generalizing above with
  | step tree ih =>
      rw [withParents_eq] at listed
      rcases List.mem_cons.1 listed with self | below
      · cases self
        exact .inl rfl
      · obtain ⟨child, member, listed⟩ := List.mem_flatMap.1 below
        rcases ih child member listed with self | within
        · cases self
          exact .inr (.self _)
        · exact .inr (.under member within)

namespace Problem

variable {source : Source} {parent node : RawTree} {problem : Problem} {opening closing : Char}
  {openedAt : Nat}

theorem bracketIn?_spec {bracket : Char} (lies : parent.Lies source)
    (found : bracketIn? source parent bracket = some openedAt) :
    source.FirstFrom parent.start bracket openedAt ∧ openedAt < parent.stop := by
  obtain ⟨le, -, first, second⟩ := lies
  obtain ⟨before, after, chars, start, stop⟩ := Source.covers_slice le first second
  simp only [bracketIn?] at found
  split at found
  next member =>
    cases found
    obtain ⟨front, back, split, none⟩ := List.eq_append_cons_of_mem member
    have passed : ∀ c ∈ front, (c != bracket) = true := by
      intro c among
      rw [bne_iff_ne]
      rintro rfl
      exact none among
    have taken : (Text.slice source.chars parent.start parent.stop).takeWhile (· != bracket) =
        front := by
      rw [split, takeWhile_append_stop passed (by simp)]
    rw [Source.slice, String.toList_ofList, split] at chars stop
    rw [taken]
    refine ⟨⟨before, front, back ++ after, by simpa using chars, start, ?_, none⟩, ?_⟩
    · rw [Text.byteSize_append, start]
    · have size := bracket.utf8Size_pos
      rw [Text.byteSize_append, start, Text.byteSize_append, Text.byteSize_cons] at stop
      omega
  next => cases found

-- Only a bracket that was found is reported as unclosed.
theorem bracketIn?_of_unclosed (reported : ofNode? source (some parent) node = some problem)
    (unclosed : problem.cause = .unclosed opening closing openedAt) :
    bracketIn? source parent opening = some openedAt := by
  unfold ofNode? ofError ofMissing at reported
  grind [Problem.unclosed]

/-- The report of an unclosed bracket points at the first such bracket in the text of the parent. So
it points at a token of the parent exactly if the text has no bracket in front of one of them, and
never does if a node in front of all of them holds one. -/
theorem unclosed_report_points_at_token_iff {raw : RawTree}
    (lies : ∀ node, raw.Within node → node.Lies source)
    (listed : (some parent, node) ∈ raw.flagged)
    (reported : ofNode? source (some parent) node = some problem)
    (unclosed : problem.cause = .unclosed opening closing openedAt) :
    (source.FirstFrom parent.start opening openedAt ∧ openedAt < parent.stop) ∧
      ((∃ token, parent.Opens opening token ∧ openedAt = token.start) ↔
        ∃ token, parent.Opens opening token ∧
          source.FirstFrom parent.start opening token.start) ∧
      ∀ part, raw.Within part → parent.start ≤ part.start →
        opening ∈ Text.slice source.chars part.start part.stop →
        (∀ token, parent.Opens opening token → part.stop ≤ token.start) →
        ¬ ∃ token, parent.Opens opening token ∧ openedAt = token.start := by
  have within : raw.Within parent := by
    rcases RawTree.parent_of_mem_withParents (List.mem_filter.1 listed).1 with none | within
    · cases none
    · exact within
  obtain ⟨first, inside⟩ :=
    bracketIn?_spec (lies parent within) (bracketIn?_of_unclosed reported unclosed)
  refine ⟨⟨first, inside⟩, ⟨?_, ?_⟩, ?_⟩
  · rintro ⟨token, opens, rfl⟩
    exact ⟨token, opens, first⟩
  · rintro ⟨token, opens, here⟩
    exact ⟨token, opens, first.unique here⟩
  · rintro part partWithin behind holds infront ⟨token, opens, rfl⟩
    obtain ⟨le, -, start, stop⟩ := lies part partWithin
    obtain ⟨before, after, chars, startsAt, stopsAt⟩ := Source.covers_slice le start stop
    obtain ⟨front, back, split⟩ := List.append_of_mem holds
    rw [Source.slice, String.toList_ofList, split] at chars stopsAt
    -- The bracket in the part stands behind the first one and in front of the tokens.
    have place : source.chars = (before ++ front) ++ opening :: (back ++ after) := by
      simpa using chars
    have later : token.start ≤ Text.byteSize (before ++ front) := by
      apply first.le place
      rw [Text.byteSize_append, startsAt]
      omega
    have size := opening.utf8Size_pos
    have bound := infront token opens
    rw [← stopsAt] at bound
    simp only [Text.byteSize_append, Text.byteSize_cons] at later bound
    omega

/-- The `c` of `a[0][b c]`, which has no place there. -/
def misplacedName : RawTree :=
  ⟨"ERROR", none, 7, 8, true, true, false,
    [⟨"identifier", none, 7, 8, true, false, false, []⟩]⟩

def chainedSubscript : RawTree :=
  let bracket (text : String) (start : Nat) : RawTree :=
    ⟨text, none, start, start + 1, false, false, false, []⟩
  let name (field : String) (start : Nat) : RawTree :=
    ⟨"identifier", some field, start, start + 1, true, false, false, []⟩
  ⟨"subscript", none, 0, 9, true, false, false,
    [⟨"subscript", some "value", 0, 4, true, false, false,
      [name "value" 0, bracket "[" 1,
       ⟨"integer", some "subscript", 2, 3, true, false, false, []⟩, bracket "]" 3]⟩,
     bracket "[" 4, name "subscript" 5, misplacedName, bracket "]" 8]⟩

/-- The report about `a[0][b c]` says that the first bracket is never closed, which `a[0]` closes. -/
theorem chained_subscript_opened_early :
    ofNode? (.ofString "a[0][b c]") (some chainedSubscript) misplacedName =
        some (unclosed '[' 1 7 1) ∧
      (∀ token, chainedSubscript.Opens '[' token → token.start = 4) ∧
      ¬ ∃ token, chainedSubscript.Opens '[' token ∧ 1 = token.start := by
  have reported : ofNode? (.ofString "a[0][b c]") (some chainedSubscript) misplacedName =
      some (unclosed '[' 1 7 1) := by
    decide +kernel
  have tokens : ∀ token, chainedSubscript.Opens '[' token → token.start = 4 := by
    rintro token ⟨member, unnamed, kind⟩
    simp only [chainedSubscript, List.mem_cons, List.not_mem_nil, or_false] at member
    rcases member with rfl | rfl | rfl | rfl | rfl <;> simp_all [misplacedName]
  have flagged : chainedSubscript.flagged = [(some chainedSubscript, misplacedName)] := by rfl
  have lies : ∀ node, chainedSubscript.Within node → node.Lies (.ofString "a[0][b c]") := by
    decide +kernel
  have points := unclosed_report_points_at_token_iff lies (by simp [flagged]) reported rfl
  refine ⟨reported, tokens, ?_⟩
  -- The bracket of `a[0]` stands in front of the one that is open.
  apply points.2.2 _ (.under (.head _) (.self _))
  · decide
  · decide +kernel
  · intro token opens
    exact Nat.le_of_eq (tokens token opens).symm

end Problem

end NumericPython

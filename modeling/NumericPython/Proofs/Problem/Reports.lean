import Mathlib.Data.List.Forall2
import NumericPython.Pipeline
import NumericPython.Proofs.Tree.Nesting

set_option autoImplicit false

namespace NumericPython

namespace RawTree

mutual

/-- A node and the nodes below it, each before its children and with its parent. -/
def withParents (parent : Option RawTree) : RawTree → List (Option RawTree × RawTree)
  | ⟨kind, field, start, stop, isNamed, isError, isMissing, children⟩ =>
    let tree : RawTree := ⟨kind, field, start, stop, isNamed, isError, isMissing, children⟩
    (parent, tree) :: withParentsAll tree children

def withParentsAll (parent : RawTree) : List RawTree → List (Option RawTree × RawTree)
  | [] => []
  | tree :: rest => withParents (some parent) tree ++ withParentsAll parent rest

end

theorem withParentsAll_eq (parent : RawTree) (trees : List RawTree) :
    withParentsAll parent trees = trees.flatMap (withParents (some parent)) := by
  induction trees with
  | nil => rfl
  | cons tree rest ih => rw [withParentsAll, ih, List.flatMap_cons]

theorem withParents_eq (parent : Option RawTree) (tree : RawTree) :
    withParents parent tree =
      (parent, tree) :: tree.children.flatMap (withParents (some tree)) := by
  cases tree
  rw [withParents, withParentsAll_eq]

-- The listing holds the nodes of the tree and no others.
theorem exists_mem_withParents {parent : Option RawTree} {tree node : RawTree} :
    (∃ above, (above, node) ∈ withParents parent tree) ↔ tree.Within node := by
  induction tree using RawTree.induction generalizing parent with
  | step tree ih =>
      rw [withParents_eq]
      constructor
      · rintro ⟨above, listed⟩
        rcases List.mem_cons.1 listed with self | below
        · cases self
          exact .self _
        · obtain ⟨child, member, listed⟩ := List.mem_flatMap.1 below
          exact .under member ((ih child member).1 ⟨above, listed⟩)
      · intro within
        cases within with
        | self => exact ⟨parent, List.mem_cons_self⟩
        | under member within =>
            obtain ⟨above, listed⟩ := (ih _ member).2 within
            exact ⟨above, .tail _ (List.mem_flatMap.2 ⟨_, member, listed⟩)⟩

/-- The flagged nodes with their parents, in source order. -/
def flagged (tree : RawTree) : List (Option RawTree × RawTree) :=
  (tree.withParents none).filter (·.2.isFlagged)

theorem flagged_eq_nil_iff {tree : RawTree} :
    tree.flagged = [] ↔ ∀ node, tree.Within node → node.isFlagged = false := by
  rw [flagged, List.filter_eq_nil_iff]
  constructor
  · intro none node within
    obtain ⟨above, listed⟩ := exists_mem_withParents.2 within
    simpa using none _ listed
  · intro none place listed
    have within : tree.Within place.2 := exists_mem_withParents.1 ⟨place.1, listed⟩
    simp [none _ within]

end RawTree

namespace Problem

theorem findInAll_eq (source : Source) (parent : RawTree) (trees : List RawTree) :
    findInAll source parent trees = trees.flatMap (findIn source (some parent)) := by
  induction trees with
  | nil => rfl
  | cons tree rest ih => rw [findInAll, ih, List.flatMap_cons]

-- The walk over the tree reports node after node.
theorem findIn_eq (source : Source) (parent : Option RawTree) (tree : RawTree) :
    findIn source parent tree =
      (tree.withParents parent).filterMap fun place => ofNode? source place.1 place.2 := by
  induction tree using RawTree.induction generalizing parent with
  | step tree ih =>
      have split : findIn source parent tree = (ofNode? source parent tree).toList ++
          tree.children.flatMap (findIn source (some tree)) := by
        cases tree
        rw [findIn, findInAll_eq]
      have below : tree.children.flatMap (findIn source (some tree)) =
          (tree.children.flatMap (RawTree.withParents (some tree))).filterMap
            fun place => ofNode? source place.1 place.2 := by
        rw [List.filterMap_flatMap]
        exact List.flatMap_congr fun child member => ih child member (some tree)
      rw [split, RawTree.withParents_eq, List.filterMap_cons, below]
      cases ofNode? source parent tree <;> rfl

-- A report stands where its node starts.
theorem offset_of_ofNode? {source : Source} {parent : Option RawTree} {tree : RawTree}
    {problem : Problem} (reported : ofNode? source parent tree = some problem) :
    problem.offset = tree.start := by
  unfold ofNode? ofError ofMissing at reported
  grind [unclosed]

-- What a function answers to the elements it answers to, one for one.
theorem forall₂_filterMap {α β : Type} {f : α → Option β} {p : α → Bool}
    (answers : ∀ x, (f x).isSome = p x) (xs : List α) :
    List.Forall₂ (fun x y => f x = some y) (xs.filter p) (xs.filterMap f) := by
  induction xs with
  | nil => exact .nil
  | cons x rest ih =>
      have answer := answers x
      cases found : f x with
      | none =>
          rw [found] at answer
          simpa [← answer, found] using ih
      | some y =>
          rw [found] at answer
          simpa [← answer, found] using ih

theorem ofTree_reports (source : Source) (raw : RawTree) :
    List.Forall₂ (fun place problem => ofNode? source place.1 place.2 = some problem) raw.flagged
      (ofTree source raw) := by
  rw [ofTree, findIn_eq]
  apply forall₂_filterMap
  intro place
  exact isSome_ofNode? source place.1 place.2

theorem exists_of_mem_ofTree {source : Source} {raw : RawTree} {problem : Problem}
    (member : problem ∈ ofTree source raw) :
    ∃ parent node, raw.Within node ∧ ofNode? source parent node = some problem := by
  rw [ofTree, findIn_eq] at member
  obtain ⟨place, listed, reported⟩ := List.mem_filterMap.1 member
  exact ⟨place.1, place.2, RawTree.exists_mem_withParents.1 ⟨place.1, listed⟩, reported⟩

theorem length_ofTree (source : Source) (raw : RawTree) :
    (ofTree source raw).length = raw.flagged.length :=
  (ofTree_reports source raw).length_eq.symm

theorem ofTree_eq_nil_iff {source : Source} {raw : RawTree} :
    ofTree source raw = [] ↔ raw.flagged = [] := by
  rw [← List.length_eq_zero_iff, length_ofTree, List.length_eq_zero_iff]

end Problem

theorem Parsed.isOk_ofRaw {text : String} {raw : RawTree} :
    (ofRaw text raw).isOk = true ↔ raw.flagged = [] := by
  rw [← @Problem.ofTree_eq_nil_iff (.ofString text)]
  simp [isOk, ofRaw]

-- The front end counts the flagged nodes, and quotes the first report.
theorem Parsed.accepted_ofRaw (text : String) (raw : RawTree) :
    (ofRaw text raw).accepted =
      match (ofRaw text raw).problems with
      | [] => .ok (raw.toTree (.ofString text))
      | first :: _ => .error (.problems first.message raw.flagged.length) := by
  have count := Problem.length_ofTree (.ofString text) raw
  simp only [accepted, ofRaw]
  cases problems : Problem.ofTree (.ofString text) raw with
  | nil => rfl
  | cons first rest =>
      rw [problems] at count
      simp [Problem.refusal?, ← count]

-- A text with flagged nodes is not lowered: the answer holds the reports and nothing else.
theorem Processed.lowerParsed_problems_iff {path text path' text' : String} {raw : RawTree}
    {found : List Problem} :
    lowerParsed path text (.ofRaw text raw) = .error (.problems path' text' found) ↔
      raw.flagged ≠ [] ∧ path' = path ∧ text' = text ∧
        found = (Parsed.ofRaw text raw).problems := by
  rw [Ne, ← @Problem.ofTree_eq_nil_iff (.ofString text)]
  simp only [lowerParsed, Parsed.ofRaw]
  cases Problem.ofTree (.ofString text) raw with
  | nil =>
      -- Lowering has faults of its own, which are no syntax problems.
      have other (lowered : Except LowerError LoweredModule) :
          lowered.mapError (UnitError.lower path) ≠ .error (UnitError.problems path' text' found) := by
        cases lowered <;> simp [Except.mapError]
      simp [other]
  | cons first rest => simp [eq_comm]

end NumericPython

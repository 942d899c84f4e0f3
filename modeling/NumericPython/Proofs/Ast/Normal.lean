import Mathlib.Data.List.Nodup
import Mathlib.Data.List.Perm.Subperm
import NumericPython.Ast.Same
import NumericPython.Proofs.Ast.Table

set_option autoImplicit false

namespace NumericPython

namespace Table

variable {α : Type}

theorem mem_entries_iff {table : Table α} {key : String} {value : α} :
    (key, value) ∈ table.entries ↔ table.get? key = some value := by
  obtain ⟨entries, nodup⟩ := table
  simp only [get?]
  induction entries with
  | nil => simp
  | cons first rest ih =>
      rw [List.map_cons, List.nodup_cons] at nodup
      rw [lookup_entry, List.mem_cons]
      by_cases here : key = first.1
      · -- The key does not come again.
        subst here
        have later : (first.1, value) ∉ rest := fun found =>
          nodup.1 (List.mem_map.2 ⟨(first.1, value), found, rfl⟩)
        simp [later, Prod.ext_iff, eq_comm]
      · rw [if_neg here]
        simp [Prod.ext_iff, here, ih nodup.2]

theorem nodup_entries (table : Table α) : table.entries.Nodup :=
  List.Nodup.of_map Prod.fst table.nodup

theorem same_iff_get? [BEq α] [LawfulBEq α] {left right : Table α} :
    left.same (· == ·) right = true ↔
      left.entries.length = right.entries.length ∧
        ∀ key value, left.get? key = some value → right.get? key = some value := by
  simp only [same, Bool.and_eq_true, beq_iff_eq, List.all_eq_true, Prod.forall, mem_entries_iff,
    Option.any_eq_true, exists_eq_right']

-- A table with as many entries, all of which are in the other table, has them all.
theorem same_iff_perm [BEq α] [LawfulBEq α] {left right : Table α} :
    left.same (· == ·) right = true ↔ left.entries.Perm right.entries := by
  rw [same_iff_get?]
  constructor
  · rintro ⟨length, values⟩
    -- The keys of a table are distinct, so the entries of `left` fill up those of `right`.
    have within : left.entries ⊆ right.entries := fun entry member =>
      mem_entries_iff.2 (values entry.1 entry.2 (mem_entries_iff.1 member))
    exact (List.subperm_of_subset left.nodup_entries within).perm_of_length_le (Nat.le_of_eq length.symm)
  · intro perm
    refine ⟨perm.length_eq, fun key value found => ?_⟩
    rw [← mem_entries_iff] at found ⊢
    exact perm.mem_iff.1 found

def sorted (table : Table α) : Table α where
  entries := table.entries.mergeSort fun a b => a.1 ≤ b.1
  nodup := ((List.mergeSort_perm _ _).map Prod.fst).nodup_iff.2 table.nodup

theorem sorted_perm (table : Table α) : table.sorted.entries.Perm table.entries :=
  List.mergeSort_perm _ _

theorem sorted_pairwise (table : Table α) :
    table.sorted.entries.Pairwise fun a b => decide (a.1 ≤ b.1) = true := by
  apply List.pairwise_mergeSort
  · intro a b c first second
    exact decide_eq_true (String.le_trans (of_decide_eq_true first) (of_decide_eq_true second))
  · intro a b
    simpa using String.le_total a.1 b.1

-- Entries with the same key are one entry, so there is just one order for the entries.
theorem sorted_eq_iff_perm {left right : Table α} :
    left.sorted = right.sorted ↔ left.entries.Perm right.entries := by
  constructor
  · intro equal
    exact (equal ▸ left.sorted_perm).symm.trans right.sorted_perm
  · intro perm
    have entries : left.sorted.entries = right.sorted.entries := by
      have sorted : left.sorted.entries.Perm right.sorted.entries :=
        left.sorted_perm.trans (perm.trans right.sorted_perm.symm)
      refine List.Perm.eq_of_pairwise ?_ left.sorted_pairwise right.sorted_pairwise sorted
      intro a b first second below above
      have key : a.1 = b.1 :=
        String.le_antisymm (of_decide_eq_true below) (of_decide_eq_true above)
      have found := mem_entries_iff.1 first
      have found' := mem_entries_iff.1 (sorted.mem_iff.2 second)
      rw [key, found'] at found
      exact Prod.ext key (Option.some.inj found).symm
    cases made : left.sorted
    cases made' : right.sorted
    simpa [made, made'] using entries

theorem same_iff_sorted [BEq α] [LawfulBEq α] {left right : Table α} :
    left.same (· == ·) right = true ↔ left.sorted = right.sorted :=
  same_iff_perm.trans sorted_eq_iff_perm.symm

@[simp] theorem sorted_sorted (table : Table α) : table.sorted.sorted = table.sorted :=
  sorted_eq_iff_perm.2 table.sorted_perm

end Table

mutual

def Stmt.normal : Stmt → Stmt
  | .conditional first rest otherwise =>
    .conditional first.normal (Branch.normalAll rest) (Stmt.normalElse otherwise)
  | .always body => .always (Stmt.normalAll body)
  | .forLoop target iterable body => .forLoop target iterable (Stmt.normalAll body)
  | .whileLoop condition body => .whileLoop condition (Stmt.normalAll body)
  | .functionDef definition => .functionDef definition.normal
  | .classDef name attributes methods => .classDef name attributes (FunctionDef.normalAll methods)
  | s => s

def Stmt.normalAll : List Stmt → List Stmt
  | [] => []
  | s :: rest => s.normal :: Stmt.normalAll rest

def Stmt.normalElse : Option (List Stmt) → Option (List Stmt)
  | none => none
  | some body => some (Stmt.normalAll body)

def Branch.normal : Branch → Branch
  | ⟨condition, body⟩ => ⟨condition, Stmt.normalAll body⟩

def Branch.normalAll : List Branch → List Branch
  | [] => []
  | branch :: rest => branch.normal :: Branch.normalAll rest

def FunctionDef.normal : FunctionDef → FunctionDef
  | ⟨name, arguments, results, body, localVars, globalVars, owner, hidden, kind, imports,
      decorators⟩ =>
    ⟨name, arguments, results, Stmt.normalAll body, localVars, globalVars, owner, hidden, kind,
      imports, decorators.sorted⟩

def FunctionDef.normalAll : List FunctionDef → List FunctionDef
  | [] => []
  | definition :: rest => definition.normal :: FunctionDef.normalAll rest

end

theorem Stmt.normalAll_eq_map (body : List Stmt) : Stmt.normalAll body = body.map Stmt.normal := by
  induction body <;> simp_all [Stmt.normalAll]

theorem Branch.normalAll_eq_map (branches : List Branch) :
    Branch.normalAll branches = branches.map Branch.normal := by
  induction branches <;> simp_all [Branch.normalAll]

theorem FunctionDef.normalAll_eq_map (definitions : List FunctionDef) :
    FunctionDef.normalAll definitions = definitions.map FunctionDef.normal := by
  induction definitions <;> simp_all [FunctionDef.normalAll]

@[simp] theorem Stmt.length_normalAll (body : List Stmt) :
    (Stmt.normalAll body).length = body.length := by
  rw [Stmt.normalAll_eq_map, List.length_map]

@[simp] theorem Branch.length_normalAll (branches : List Branch) :
    (Branch.normalAll branches).length = branches.length := by
  rw [Branch.normalAll_eq_map, List.length_map]

@[simp] theorem FunctionDef.length_normalAll (definitions : List FunctionDef) :
    (FunctionDef.normalAll definitions).length = definitions.length := by
  rw [FunctionDef.normalAll_eq_map, List.length_map]

mutual

theorem Stmt.same_iff_normal : ∀ {a b : Stmt}, a.same b = true ↔ a.normal = b.normal
  | a, b => by
    cases a
    case conditional a as x =>
      cases b
      case conditional b bs y =>
        cases x <;> cases y <;>
          simp [Stmt.same, Stmt.normal, Stmt.normalElse, Branch.same_iff_normal,
            Branch.sameAll_iff_normal, Stmt.sameAll_iff_normal, and_assoc]
      all_goals cases x <;> simp [Stmt.same, Stmt.normal]
    -- Two different forms are not the same, and neither are their normal forms.
    all_goals
      cases b <;>
        simp [Stmt.same, Stmt.normal, Stmt.sameAll_iff_normal, FunctionDef.same_iff_normal,
          FunctionDef.sameAll_iff_normal, and_assoc]
termination_by structural a => a

theorem Stmt.sameAll_iff_normal : ∀ {as bs : List Stmt},
    Stmt.sameAll as bs = true ↔ Stmt.normalAll as = Stmt.normalAll bs
  | [], [] => by simp [Stmt.sameAll]
  | [], _ :: _ => by simp [Stmt.sameAll, Stmt.normalAll]
  | _ :: _, [] => by simp [Stmt.sameAll, Stmt.normalAll]
  | a :: as, b :: bs => by
    simp [Stmt.sameAll, Stmt.normalAll, Stmt.same_iff_normal, Stmt.sameAll_iff_normal]
termination_by structural as => as

theorem Branch.same_iff_normal : ∀ {a b : Branch}, a.same b = true ↔ a.normal = b.normal
  | ⟨_, _⟩, ⟨_, _⟩ => by simp [Branch.same, Branch.normal, Stmt.sameAll_iff_normal]
termination_by structural a => a

theorem Branch.sameAll_iff_normal : ∀ {as bs : List Branch},
    Branch.sameAll as bs = true ↔ Branch.normalAll as = Branch.normalAll bs
  | [], [] => by simp [Branch.sameAll]
  | [], _ :: _ => by simp [Branch.sameAll, Branch.normalAll]
  | _ :: _, [] => by simp [Branch.sameAll, Branch.normalAll]
  | a :: as, b :: bs => by
    simp [Branch.sameAll, Branch.normalAll, Branch.same_iff_normal, Branch.sameAll_iff_normal]
termination_by structural as => as

theorem FunctionDef.same_iff_normal : ∀ {a b : FunctionDef},
    a.same b = true ↔ a.normal = b.normal
  | ⟨_, _, _, _, _, _, _, _, _, _, _⟩, ⟨_, _, _, _, _, _, _, _, _, _, _⟩ => by
    simp [FunctionDef.same, FunctionDef.normal, Stmt.sameAll_iff_normal, Table.same_iff_sorted, and_assoc]
termination_by structural a => a

theorem FunctionDef.sameAll_iff_normal : ∀ {as bs : List FunctionDef},
    FunctionDef.sameAll as bs = true ↔ FunctionDef.normalAll as = FunctionDef.normalAll bs
  | [], [] => by simp [FunctionDef.sameAll]
  | [], _ :: _ => by simp [FunctionDef.sameAll, FunctionDef.normalAll]
  | _ :: _, [] => by simp [FunctionDef.sameAll, FunctionDef.normalAll]
  | a :: as, b :: bs => by
    simp [FunctionDef.sameAll, FunctionDef.normalAll, FunctionDef.same_iff_normal,
      FunctionDef.sameAll_iff_normal]
termination_by structural as => as

end

namespace ForeignFunction

def normal (function : ForeignFunction) : ForeignFunction :=
  { function with inner := function.inner.normal }

theorem same_iff_normal {a b : ForeignFunction} : a.same b = true ↔ a.normal = b.normal := by
  simp [same, normal, FunctionDef.same_iff_normal]

theorem sameAll_iff_normal {as bs : List ForeignFunction} :
    sameAll as bs = true ↔ as.map normal = bs.map normal := by
  induction as generalizing bs with
  | nil => cases bs <;> simp [sameAll]
  | cons a as ih => cases bs <;> simp [sameAll, same_iff_normal, ih]

end ForeignFunction

namespace ForeignModule

def normal (exported : ForeignModule) : ForeignModule :=
  { exported with functions := exported.functions.map ForeignFunction.normal }

theorem same_iff_normal {a b : ForeignModule} : a.same b = true ↔ a.normal = b.normal := by
  simp [same, normal, ForeignFunction.sameAll_iff_normal]

end ForeignModule

namespace Node

def normal : Node → Node
  | stmt s => stmt s.normal
  | block body => block (Stmt.normalAll body)
  | foreignFunction f => foreignFunction f.normal
  | foreignModule m => foreignModule m.normal
  | foreignFunctionInterface wrapperModule f => foreignFunctionInterface wrapperModule f.normal
  | foreignModuleInterface m => foreignModuleInterface m.normal
  | node => node

theorem same_iff_normal {a b : Node} : a.same b = true ↔ a.normal = b.normal := by
  cases a <;> cases b <;>
    simp [same, normal, Stmt.same_iff_normal, Stmt.sameAll_iff_normal,
      ForeignFunction.same_iff_normal, ForeignModule.same_iff_normal]

end Node

end NumericPython

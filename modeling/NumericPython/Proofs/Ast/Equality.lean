import NumericPython.Ast.Feed
import NumericPython.Proofs.Ast.Normal

set_option autoImplicit false

namespace NumericPython

namespace Feed

theorem decorators_sorted (table : Table (List Expr)) :
    decorators table.sorted = decorators table := by
  have entries : table.sorted.sorted.entries = table.sorted.entries := by rw [Table.sorted_sorted]
  exact congrArg (list _) entries

mutual

theorem stmt_normal (s : Stmt) : stmt s.normal = stmt s := by
  cases s
  case conditional first rest otherwise =>
    cases otherwise <;>
      simp [Stmt.normal, Stmt.normalElse, stmt, branch_normal, branches_normal, stmts_normal]
  all_goals
    simp [Stmt.normal, stmt, stmts_normal, functionDef_normal, functionDefs_normal]
termination_by structural s

theorem stmts_normal : ∀ body : List Stmt, stmts (Stmt.normalAll body) = stmts body
  | [] => rfl
  | s :: rest => by rw [Stmt.normalAll, stmts, stmts, stmt_normal, stmts_normal]
termination_by structural body => body

theorem branch_normal : ∀ b : Branch, branch b.normal = branch b
  | ⟨condition, body⟩ => by simp [Branch.normal, branch, stmts_normal]
termination_by structural b => b

theorem branches_normal : ∀ bs : List Branch, branches (Branch.normalAll bs) = branches bs
  | [] => rfl
  | b :: rest => by rw [Branch.normalAll, branches, branches, branch_normal, branches_normal]
termination_by structural bs => bs

theorem functionDef_normal : ∀ d : FunctionDef, functionDef d.normal = functionDef d
  | ⟨_, _, _, body, _, _, _, _, _, _, decorators⟩ => by
    simp [FunctionDef.normal, functionDef, stmts_normal, decorators_sorted]
termination_by structural d => d

theorem functionDefs_normal :
    ∀ ds : List FunctionDef, functionDefs (FunctionDef.normalAll ds) = functionDefs ds
  | [] => rfl
  | d :: rest => by
    rw [FunctionDef.normalAll, functionDefs, functionDefs, functionDef_normal, functionDefs_normal]
termination_by structural ds => ds

end

theorem foreignFunction_normal (f : ForeignFunction) :
    foreignFunction f.normal = foreignFunction f := by
  simp [foreignFunction, ForeignFunction.normal, functionDef_normal]

theorem foreignModule_normal (m : ForeignModule) : foreignModule m.normal = foreignModule m := by
  simp [foreignModule, ForeignModule.normal, list, List.flatMap_map, foreignFunction_normal]

end Feed

namespace Node

theorem feed_normal (node : Node) : node.normal.feed = node.feed := by
  cases node <;>
    simp [normal, feed, Feed.node, Feed.stmt_normal, Feed.stmts_normal,
      Feed.foreignFunction_normal, Feed.foreignModule_normal]

/-- Equality of nodes is an equivalence, equal nodes feed the same values to a hash, and tables are
equal if they have the same number of entries and the values of the one are found in the other. -/
theorem same_equivalence_hashed :
    Equivalence (fun a b : Node => a.same b = true) ∧
      (∀ a b : Node, a.same b = true → a.feed = b.feed) ∧
      ∀ left right : Table (List Expr),
        left.keys.Nodup ∧ right.keys.Nodup ∧
          (left.same (· == ·) right = true ↔
            left.entries.length = right.entries.length ∧
              ∀ key value, left.get? key = some value → right.get? key = some value) := by
  refine ⟨?_, ?_, fun left right => ⟨left.nodup, right.nodup, Table.same_iff_get?⟩⟩
  · simp only [same_iff_normal]
    exact ⟨fun _ => rfl, Eq.symm, Eq.trans⟩
  · intro a b equal
    rw [← feed_normal a, same_iff_normal.1 equal, feed_normal]

def decoratedInLoop (decorators : List (String × List Expr)) : Node :=
  let body : List Stmt := [.returnValue (.tuple [.float .notANumber, .float Binary64.zero.neg])]
  .stmt (.whileLoop (.boolean true)
    [.functionDef { FunctionDef.plain "f" [] body with decorators := .ofList decorators }])

theorem decoratedInLoop_order :
    let a := decoratedInLoop [("pure", []), ("types", [.string "int", .float .notANumber])]
    let b := decoratedInLoop [("types", [.string "int", .float .notANumber]), ("pure", [])]
    a.same a = true ∧ a.same b = true ∧ b.same a = true ∧ a.feed = b.feed := by
  intro a b
  have equal : a.same b = true := by decide +kernel
  exact ⟨same_equivalence_hashed.1.refl a, equal, same_equivalence_hashed.1.symm equal,
    same_equivalence_hashed.2.1 a b equal⟩

end Node

end NumericPython

import NumericPython.Proofs.Ast.Normal

set_option autoImplicit false

namespace NumericPython

mutual

def Stmt.definitions : Stmt → List FunctionDef
  | .conditional first rest otherwise =>
    first.definitions ++ Branch.definitionsAll rest ++ Stmt.definitionsElse otherwise
  | .always body | .forLoop _ _ body | .whileLoop _ body => Stmt.definitionsAll body
  | .functionDef definition => definition.definitions
  | .classDef _ _ methods => FunctionDef.definitionsAll methods
  | _ => []

def Stmt.definitionsAll : List Stmt → List FunctionDef
  | [] => []
  | s :: rest => s.definitions ++ Stmt.definitionsAll rest

def Stmt.definitionsElse : Option (List Stmt) → List FunctionDef
  | none => []
  | some body => Stmt.definitionsAll body

def Branch.definitions : Branch → List FunctionDef
  | ⟨_, body⟩ => Stmt.definitionsAll body

def Branch.definitionsAll : List Branch → List FunctionDef
  | [] => []
  | branch :: rest => branch.definitions ++ Branch.definitionsAll rest

def FunctionDef.definitions : FunctionDef → List FunctionDef
  | definition@⟨_, _, _, body, _, _, _, _, _, _, _⟩ => definition :: Stmt.definitionsAll body

def FunctionDef.definitionsAll : List FunctionDef → List FunctionDef
  | [] => []
  | definition :: rest => definition.definitions ++ FunctionDef.definitionsAll rest

end

mutual

theorem Stmt.definitions_normal (s : Stmt) :
    s.normal.definitions = s.definitions.map FunctionDef.normal := by
  cases s
  case conditional first rest otherwise =>
    cases otherwise <;>
      simp [Stmt.normal, Stmt.normalElse, Stmt.definitions, Stmt.definitionsElse,
        Branch.definitions_normal, Branch.definitionsAll_normal, Stmt.definitionsAll_normal]
  all_goals
    simp [Stmt.normal, Stmt.definitions, Stmt.definitionsAll_normal,
      FunctionDef.definitions_normal, FunctionDef.definitionsAll_normal]
termination_by structural s

theorem Stmt.definitionsAll_normal : ∀ body : List Stmt,
    Stmt.definitionsAll (Stmt.normalAll body) =
      (Stmt.definitionsAll body).map FunctionDef.normal
  | [] => rfl
  | s :: rest => by
    simp [Stmt.normalAll, Stmt.definitionsAll, Stmt.definitions_normal, Stmt.definitionsAll_normal]
termination_by structural body => body

theorem Branch.definitions_normal : ∀ branch : Branch,
    branch.normal.definitions = branch.definitions.map FunctionDef.normal
  | ⟨_, body⟩ => Stmt.definitionsAll_normal body
termination_by structural branch => branch

theorem Branch.definitionsAll_normal : ∀ branches : List Branch,
    Branch.definitionsAll (Branch.normalAll branches) =
      (Branch.definitionsAll branches).map FunctionDef.normal
  | [] => rfl
  | branch :: rest => by
    simp [Branch.normalAll, Branch.definitionsAll, Branch.definitions_normal,
      Branch.definitionsAll_normal]
termination_by structural branches => branches

theorem FunctionDef.definitions_normal : ∀ definition : FunctionDef,
    definition.normal.definitions = definition.definitions.map FunctionDef.normal
  | ⟨_, _, _, body, _, _, _, _, _, _, _⟩ => by
    simp [FunctionDef.normal, FunctionDef.definitions, Stmt.definitionsAll_normal]
termination_by structural definition => definition

theorem FunctionDef.definitionsAll_normal : ∀ definitions : List FunctionDef,
    FunctionDef.definitionsAll (FunctionDef.normalAll definitions) =
      (FunctionDef.definitionsAll definitions).map FunctionDef.normal
  | [] => rfl
  | definition :: rest => by
    simp [FunctionDef.normalAll, FunctionDef.definitionsAll, FunctionDef.definitions_normal,
      FunctionDef.definitionsAll_normal]
termination_by structural definitions => definitions

end

/-- The decorators of the definitions come in the same order. -/
def SameOrder (left right : List FunctionDef) : Prop :=
  left.map (·.decorators.keys) = right.map (·.decorators.keys)

section Order

variable {left right left' right' : List FunctionDef}

theorem SameOrder.of_append (whole : SameOrder (left ++ left') (right ++ right'))
    (normal : left.map FunctionDef.normal = right.map FunctionDef.normal) :
    SameOrder left right ∧ SameOrder left' right' := by
  have length : left.length = right.length := by
    simpa using congrArg List.length normal
  simp only [SameOrder, List.map_append] at whole
  exact List.append_inj whole (by simpa using length)

theorem SameOrder.of_cons {a b : FunctionDef} (whole : SameOrder (a :: left) (b :: right)) :
    a.decorators.keys = b.decorators.keys ∧ SameOrder left right := by
  simpa [SameOrder] using whole

end Order

namespace Table

variable {α : Type}

theorem entries_eq_of_keys {xs ys : List (String × α)}
    (keys : xs.map Prod.fst = ys.map Prod.fst) (nodup : (ys.map Prod.fst).Nodup)
    (within : ∀ entry ∈ xs, entry ∈ ys) : xs = ys := by
  -- The first entries have the same key, and no later entry has it.
  induction xs generalizing ys with
  | nil => exact (List.map_eq_nil_iff.1 keys.symm).symm
  | cons x xs ih =>
      obtain _ | ⟨y, ys⟩ := ys
      · simp at keys
      · rw [List.map_cons, List.map_cons, List.cons.injEq] at keys
        rw [List.map_cons, List.nodup_cons] at nodup
        rw [List.forall_mem_cons] at within
        have head : x = y := (List.mem_cons.1 within.1).resolve_right fun later =>
          nodup.1 (keys.1 ▸ List.mem_map_of_mem later)
        have tail : xs = ys := by
          refine ih keys.2 nodup.2 fun entry member => ?_
          refine (List.mem_cons.1 (within.2 entry member)).resolve_left fun same => ?_
          have key : y.1 ∈ xs.map Prod.fst := same ▸ List.mem_map_of_mem member
          exact nodup.1 (keys.2 ▸ key)
        rw [head, tail]

theorem eq_of_sorted {left right : Table α} (equal : left.sorted = right.sorted)
    (keys : left.keys = right.keys) : left = right := by
  have perm := sorted_eq_iff_perm.1 equal
  have entries : left.entries = right.entries :=
    entries_eq_of_keys keys right.nodup fun entry => perm.mem_iff.1
  cases left
  cases right
  simpa using entries

end Table

mutual

theorem Stmt.eq_of_normal {a b : Stmt} (equal : a.normal = b.normal)
    (order : SameOrder a.definitions b.definitions) : a = b := by
  cases a
  case conditional first rest otherwise =>
    obtain ⟨first', rest', otherwise', rfl⟩ : ∃ x y z, b = .conditional x y z := by
      cases b <;> simp [Stmt.normal] at equal ⊢
    simp only [Stmt.normal, Stmt.conditional.injEq] at equal
    obtain ⟨firstSame, restSame, otherwiseSame⟩ := equal
    have firstDefinitions : first.definitions.map FunctionDef.normal =
        first'.definitions.map FunctionDef.normal := by
      rw [← Branch.definitions_normal, firstSame, Branch.definitions_normal]
    have restDefinitions : (Branch.definitionsAll rest).map FunctionDef.normal =
        (Branch.definitionsAll rest').map FunctionDef.normal := by
      rw [← Branch.definitionsAll_normal, restSame, Branch.definitionsAll_normal]
    simp only [Stmt.definitions] at order
    -- Each part has as many definitions on both sides, so the lists are cut at the same places.
    obtain ⟨before, last⟩ := order.of_append (by
      rw [List.map_append, List.map_append, firstDefinitions, restDefinitions])
    obtain ⟨head, middle⟩ := before.of_append firstDefinitions
    rw [Branch.eq_of_normal firstSame head, Branch.all_eq_of_normal restSame middle,
      Stmt.else_eq_of_normal otherwiseSame last]
  case always body =>
    obtain ⟨body', rfl⟩ : ∃ x, b = .always x := by
      cases b <;> simp [Stmt.normal] at equal ⊢
    rw [Stmt.all_eq_of_normal (Stmt.always.inj equal) order]
  case forLoop target iterable body =>
    obtain ⟨target', iterable', body', rfl⟩ : ∃ x y z, b = .forLoop x y z := by
      cases b <;> simp [Stmt.normal] at equal ⊢
    obtain ⟨rfl, rfl, bodySame⟩ := Stmt.forLoop.inj equal
    rw [Stmt.all_eq_of_normal bodySame order]
  case whileLoop condition body =>
    obtain ⟨condition', body', rfl⟩ : ∃ x y, b = .whileLoop x y := by
      cases b <;> simp [Stmt.normal] at equal ⊢
    obtain ⟨rfl, bodySame⟩ := Stmt.whileLoop.inj equal
    rw [Stmt.all_eq_of_normal bodySame order]
  case functionDef definition =>
    obtain ⟨definition', rfl⟩ : ∃ x, b = .functionDef x := by
      cases b <;> simp [Stmt.normal] at equal ⊢
    rw [FunctionDef.eq_of_normal (Stmt.functionDef.inj equal) order]
  case classDef name attributes methods =>
    obtain ⟨name', attributes', methods', rfl⟩ : ∃ x y z, b = .classDef x y z := by
      cases b <;> simp [Stmt.normal] at equal ⊢
    obtain ⟨rfl, rfl, methodsSame⟩ := Stmt.classDef.inj equal
    rw [FunctionDef.all_eq_of_normal methodsSame order]
  -- Nothing else holds statements, and so it is its own normal form.
  all_goals cases b <;> simp_all [Stmt.normal]
termination_by structural a

theorem Stmt.all_eq_of_normal : ∀ {as bs : List Stmt}, Stmt.normalAll as = Stmt.normalAll bs →
    SameOrder (Stmt.definitionsAll as) (Stmt.definitionsAll bs) → as = bs
  | [], [], _, _ => rfl
  | a :: as, b :: bs, equal, order => by
    obtain ⟨head, tail⟩ := List.cons.inj equal
    obtain ⟨first, rest⟩ := order.of_append (by
      rw [← Stmt.definitions_normal, head, Stmt.definitions_normal])
    rw [Stmt.eq_of_normal head first, Stmt.all_eq_of_normal tail rest]
termination_by structural as => as

theorem Stmt.else_eq_of_normal : ∀ {x y : Option (List Stmt)},
    Stmt.normalElse x = Stmt.normalElse y →
    SameOrder (Stmt.definitionsElse x) (Stmt.definitionsElse y) → x = y
  | none, none, _, _ => rfl
  | some _, some _, equal, order =>
    congrArg some (Stmt.all_eq_of_normal (Option.some.inj equal) order)
termination_by structural x => x

theorem Branch.eq_of_normal : ∀ {a b : Branch}, a.normal = b.normal →
    SameOrder a.definitions b.definitions → a = b
  | ⟨_, _⟩, ⟨_, _⟩, equal, order => by
    obtain ⟨rfl, bodySame⟩ := Branch.mk.inj equal
    rw [Stmt.all_eq_of_normal bodySame order]
termination_by structural a => a

theorem Branch.all_eq_of_normal : ∀ {as bs : List Branch},
    Branch.normalAll as = Branch.normalAll bs →
    SameOrder (Branch.definitionsAll as) (Branch.definitionsAll bs) → as = bs
  | [], [], _, _ => rfl
  | a :: as, b :: bs, equal, order => by
    obtain ⟨head, tail⟩ := List.cons.inj equal
    obtain ⟨first, rest⟩ := order.of_append (by
      rw [← Branch.definitions_normal, head, Branch.definitions_normal])
    rw [Branch.eq_of_normal head first, Branch.all_eq_of_normal tail rest]
termination_by structural as => as

theorem FunctionDef.eq_of_normal : ∀ {a b : FunctionDef}, a.normal = b.normal →
    SameOrder a.definitions b.definitions → a = b
  | ⟨_, _, _, body, _, _, _, _, _, _, decorators⟩,
    ⟨_, _, _, body', _, _, _, _, _, _, decorators'⟩, equal, order => by
    obtain ⟨keys, inside⟩ := order.of_cons
    simp only [FunctionDef.normal, FunctionDef.mk.injEq] at equal ⊢
    have bodySame := Stmt.all_eq_of_normal equal.2.2.2.1 inside
    have decoratorsSame : decorators = decorators' :=
      Table.eq_of_sorted equal.2.2.2.2.2.2.2.2.2.2 keys
    simp [equal, bodySame, decoratorsSame]
termination_by structural a => a

theorem FunctionDef.all_eq_of_normal : ∀ {as bs : List FunctionDef},
    FunctionDef.normalAll as = FunctionDef.normalAll bs →
    SameOrder (FunctionDef.definitionsAll as) (FunctionDef.definitionsAll bs) → as = bs
  | [], [], _, _ => rfl
  | a :: as, b :: bs, equal, order => by
    obtain ⟨head, tail⟩ := List.cons.inj equal
    obtain ⟨first, rest⟩ := order.of_append (by
      rw [← FunctionDef.definitions_normal, head, FunctionDef.definitions_normal])
    rw [FunctionDef.eq_of_normal head first, FunctionDef.all_eq_of_normal tail rest]
termination_by structural as => as

end

end NumericPython

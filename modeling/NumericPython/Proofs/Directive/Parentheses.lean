import NumericPython.Directive

set_option autoImplicit false

namespace NumericPython

namespace Directive

def nests (depth : Nat) : List Char → Bool
  | [] => depth == 0
  | c :: cs =>
    match depthAfter depth c with
    | none => false
    | some inner => !(Text.isBlank c && inner == 0) && nests inner cs

/-- A clause has characters; its parentheses are balanced, and its blanks stand inside of them. -/
def isClause (text : String) : Bool :=
  !text.toList.isEmpty && nests 0 text.toList

def balanced (depth : Nat) : List Char → Bool
  | [] => depth == 0
  | c :: cs =>
    match depthAfter depth c with
    | none => false
    | some inner => balanced inner cs

def isPlain (c : Char) : Bool :=
  !Text.isBlank c && c != '(' && c != ')'

theorem depthAfter_other {c : Char} (opening : c ≠ '(') (closing : c ≠ ')') (depth : Nat) :
    depthAfter depth c = some depth := by
  rw [depthAfter, if_neg opening, if_neg closing]

section Nests

variable {cs rest : List Char}

theorem nests_plain (plain : ∀ c ∈ cs, isPlain c = true) : nests 0 (cs ++ rest) = nests 0 rest := by
  induction cs with
  | nil => rfl
  | cons c cs ih =>
      have here := plain c (List.mem_cons_self ..)
      simp only [isPlain, Bool.and_eq_true, bne_iff_ne, Bool.not_eq_true'] at here
      rw [List.cons_append, nests, depthAfter_other here.1.2 here.2]
      simp [here.1.1, ih fun d member => plain d (List.mem_cons_of_mem _ member)]

theorem nests_flat {depth : Nat} (flat : ∀ c ∈ cs, c ≠ '(' ∧ c ≠ ')') :
    nests (depth + 1) (cs ++ rest) = nests (depth + 1) rest := by
  induction cs with
  | nil => rfl
  | cons c cs ih =>
      -- With a parenthesis open, blanks do not end the word.
      have here := flat c (List.mem_cons_self ..)
      rw [List.cons_append, nests, depthAfter_other here.1 here.2]
      simp [ih fun d member => flat d (List.mem_cons_of_mem _ member)]

theorem nests_balanced (inner depth : Nat) (closes : balanced inner cs = true) :
    nests (inner + (depth + 1)) (cs ++ rest) = nests (depth + 1) rest := by
  -- `inner` counts the parentheses that the text itself has open.
  induction cs generalizing inner with
  | nil =>
      obtain rfl : inner = 0 := by simpa [balanced] using closes
      rw [List.nil_append, Nat.zero_add]
  | cons c cs ih =>
      rw [balanced] at closes
      rw [List.cons_append, nests]
      by_cases opening : c = '('
      · subst opening
        have later := ih (inner + 1) (by simpa [depthAfter] using closes)
        have same : inner + (depth + 1) + 1 = inner + 1 + (depth + 1) := by omega
        simp [depthAfter, same, later]
      · by_cases closing : c = ')'
        · subst closing
          cases inner with
          | zero => simp [depthAfter] at closes
          | succ inner =>
              have later := ih inner (by simpa [depthAfter] using closes)
              have same : inner + 1 + (depth + 1) - 1 = inner + (depth + 1) := by omega
              simp [depthAfter, same, later]
        · rw [depthAfter_other opening closing] at closes ⊢
          simp [ih inner closes]

end Nests

/-- The character `c` behind `front` is a blank outside of all parentheses. -/
def Separates (front : List Char) (c : Char) : Prop :=
  Text.isBlank c = true ∧ front.count '(' = front.count ')'

section Counts

variable {cs front back : List Char} {depth : Nat} {c : Char}

theorem ne_of_isBlank (blank : Text.isBlank c = true) : c ≠ '(' ∧ c ≠ ')' := by
  constructor
  · rintro rfl
    exact absurd blank (by decide)
  · rintro rfl
    exact absurd blank (by decide)

theorem count_of_blanks (blank : ∀ c ∈ cs, Text.isBlank c = true) :
    cs.count '(' = 0 ∧ cs.count ')' = 0 := by
  rw [List.count_eq_zero, List.count_eq_zero]
  constructor
  · intro member
    exact (ne_of_isBlank (blank _ member)).1 rfl
  · intro member
    exact (ne_of_isBlank (blank _ member)).2 rfl

-- One character changes the depth by what it counts for.
theorem count_of_depthAfter {inner : Nat} (after : depthAfter depth c = some inner) :
    inner + [c].count ')' = depth + [c].count '(' := by
  unfold depthAfter at after
  by_cases opening : c = '('
  · subst opening
    simp_all
  · by_cases closing : c = ')'
    · subst closing
      by_cases zero : depth = 0
      · simp [zero] at after
      · simp only [zero, Char.reduceEq, if_true, if_false, Option.some.injEq] at after
        subst after
        simp
        omega
    · simp_all

theorem depthAfter_eq_none_iff : depthAfter depth c = none ↔ c = ')' ∧ depth = 0 := by
  unfold depthAfter
  by_cases opening : c = '('
  · subst opening
    simp
  · by_cases closing : c = ')' <;> by_cases zero : depth = 0 <;> simp [opening, closing, zero]

theorem balanced_iff : balanced depth cs = true ↔
    (∀ front, front <+: cs → front.count ')' ≤ depth + front.count '(') ∧
      cs.count ')' = depth + cs.count '(' := by
  induction cs generalizing depth with
  | nil =>
      simp only [balanced, List.prefix_nil, forall_eq, List.count_nil, Nat.add_zero, beq_iff_eq]
      omega
  | cons c cs ih =>
      have prefixes (holds : List Char → Prop) : (∀ front, front <+: c :: cs → holds front) ↔
          holds [] ∧ ∀ front, front <+: cs → holds (c :: front) := by
        simp only [List.prefix_cons_iff]
        constructor
        · intro all
          exact ⟨all [] (.inl rfl), fun front before => all _ (.inr ⟨front, rfl, before⟩)⟩
        · rintro ⟨none, some⟩ front (rfl | ⟨rest, rfl, before⟩)
          · exact none
          · exact some rest before
      rw [balanced, prefixes]
      cases after : depthAfter depth c with
      | none =>
          -- The parenthesis closed here is a prefix that has one too many.
          obtain ⟨rfl, rfl⟩ := depthAfter_eq_none_iff.1 after
          constructor
          · intro accepted
            cases accepted
          · rintro ⟨⟨-, never⟩, -⟩
            have excess := never [] List.nil_prefix
            simp at excess
      | some inner =>
          have step := count_of_depthAfter after
          simp only [ih]
          simp only [List.count_cons, List.count_nil] at step ⊢
          constructor
          · rintro ⟨never, whole⟩
            refine ⟨⟨by simp, fun front before => ?_⟩, by omega⟩
            have bound := never front before
            omega
          · rintro ⟨⟨-, never⟩, whole⟩
            refine ⟨fun front before => ?_, by omega⟩
            have bound := never front before
            omega

-- `inner` parentheses are open behind `front`.
theorem nests_split (inside : nests depth (front ++ back) = true) :
    ∃ inner, inner + front.count ')' = depth + front.count '(' ∧ nests inner back = true := by
  induction front generalizing depth with
  | nil => exact ⟨depth, rfl, inside⟩
  | cons c front ih =>
      rw [List.cons_append, nests] at inside
      cases after : depthAfter depth c with
      | none =>
          rw [after] at inside
          cases inside
      | some next =>
          rw [after, Bool.and_eq_true] at inside
          obtain ⟨inner, counts, rest⟩ := ih inside.2
          have step := count_of_depthAfter after
          refine ⟨inner, ?_, rest⟩
          simp only [List.count_cons, List.count_nil] at step ⊢
          omega

theorem count_of_nests (inside : nests 0 cs = true) : cs.count '(' = cs.count ')' := by
  have whole : nests 0 (cs ++ []) = true := by simpa using inside
  obtain ⟨inner, counts, none⟩ := nests_split whole
  obtain rfl : inner = 0 := by simpa [nests] using none
  omega

theorem not_separates_of_nests (inside : nests 0 (front ++ c :: back) = true) :
    ¬ Separates front c := by
  rintro ⟨blank, level⟩
  obtain ⟨inner, counts, rest⟩ := nests_split inside
  obtain rfl : inner = 0 := by omega
  obtain ⟨opening, closing⟩ := ne_of_isBlank blank
  rw [nests, depthAfter_other opening closing] at rest
  simp [blank] at rest

end Counts

end Directive

end NumericPython

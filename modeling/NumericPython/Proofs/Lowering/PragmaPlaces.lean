import NumericPython.Proofs.Lowering.Locations

set_option autoImplicit false

namespace NumericPython

/-- The bytes of a text, counted from its start, hold the span. -/
structure Span.InText (text : String) (span : Span) : Prop where
  ordered : span.start ≤ span.stop
  bound : span.stop.toNat ≤ Text.byteSize text.toList

structure Span.LiesIn (whole part : Span) : Prop where
  lower : whole.start ≤ part.start
  ordered : part.start ≤ part.stop
  upper : part.stop ≤ whole.stop

/-- All nodes of a directive stand in the text that it was read from. -/
def FrontEnd.StaysInText (frontEnd : FrontEnd) : Prop :=
  ∀ text directive, frontEnd.directive text = .ok directive →
    ∀ node, directive.Within node → node.span.InText text

def Span.Measures (span : Span) (text : String) : Prop :=
  span.stop.toNat = span.start.toNat + Text.byteSize text.toList

namespace Lowering

open NumericPython.Tree

variable {frontEnd : FrontEnd} {text : String} {span part : Span} {cause : LowerError}

inductive PragmaRefusal (frontEnd : FrontEnd) (text : String) (span : Span) : LowerError → Prop
  | directive {fault : FrontEndError} (refused : frontEnd.directive text = .error fault) :
      PragmaRefusal frontEnd text span (.directive fault span)
  | noFamily {directive : Tree} (read : frontEnd.directive text = .ok directive)
      (lacks : directive.child? "family" = none) :
      PragmaRefusal frontEnd text span (.ofTree directive)
  | unknown {directive family : Tree} (read : frontEnd.directive text = .ok directive)
      (names : directive.child? "family" = some family)
      (foreign : PragmaFamily.ofName? family.text = none) :
      PragmaRefusal frontEnd text span (unknownFamily family.text (shiftInto span family.span))

theorem pragmaRefusal_of_lowerPragma (failed : lowerPragma frontEnd text span = .error cause) :
    PragmaRefusal frontEnd text span cause := by
  unfold lowerPragma at failed
  split at failed
  next fault refused =>
    cases failed
    exact .directive refused
  next directive read =>
    split at failed
    next lacks =>
      cases failed
      exact .noFamily read lacks
    next family names =>
      split at failed
      next foreign =>
        cases failed
        exact .unknown read names foreign
      next => cases failed

section Places

variable (measures : span.Measures text)

include measures

theorem liesIn_self : span.LiesIn span := by
  have ordered : span.start ≤ span.stop := by
    rw [UInt32.le_iff_toNat_le, measures]
    exact Nat.le_add_right _ _
  exact ⟨UInt32.le_refl _, ordered, UInt32.le_refl _⟩

theorem fits_of_inText (inside : part.InText text) : Fits span part := by
  obtain ⟨ordered, bound⟩ := inside
  refine ⟨ordered, ?_⟩
  have stop := span.stop.toNat_lt
  have le := UInt32.le_iff_toNat_le.1 ordered
  rw [Span.toNat_length ordered, UInt32.size]
  unfold Span.Measures at measures
  omega

theorem liesIn_shiftInto (inside : part.InText text) : span.LiesIn (shiftInto span part) := by
  obtain ⟨start, stop⟩ := (fits_of_inText measures inside).toNat_shiftInto
  have ordered := UInt32.le_iff_toNat_le.1 inside.ordered
  have bound := inside.bound
  unfold Span.Measures at measures
  constructor <;> rw [UInt32.le_iff_toNat_le] <;> omega

theorem liesIn_iff_of_inText (inside : part.InText text) :
    span.LiesIn part ↔ span.start ≤ part.start := by
  refine ⟨fun lies => lies.lower, fun lower => ⟨lower, inside.ordered, ?_⟩⟩
  have bound := inside.bound
  unfold Span.Measures at measures
  rw [UInt32.le_iff_toNat_le]
  omega

end Places

/-- A pragma comment is refused with an error of the front end or as an unsupported construct. The
error lies in the comment exactly if the directive has a family or starts, as counted from the start
of the comment, at no lower offset than the comment does in the source. -/
theorem pragma_refusal_in_comment_iff {comment : Tree} (stays : frontEnd.StaysInText)
    (pragma : comment.isPragma = true) (measures : comment.span.Measures comment.text)
    (failed : lowerComment frontEnd comment = .error cause) :
    ((∃ fault, cause = .directive fault comment.span) ∨
      ∃ construct place, cause = .unsupported construct place) ∧
    ∃ place, cause.span? = some place ∧
      (comment.span.LiesIn place ↔
        ∀ directive, frontEnd.directive comment.text = .ok directive →
          directive.child? "family" = none → comment.span.start ≤ directive.span.start) := by
  rw [lowerComment, if_pos pragma] at failed
  cases pragmaRefusal_of_lowerPragma failed with
  | @directive fault refused =>
      refine ⟨.inl ⟨fault, rfl⟩, comment.span, rfl, ?_⟩
      simp [liesIn_self measures, refused]
  | @noFamily directive read lacks =>
      -- The span is reported as the directive has it, counted from the start of the comment.
      have inside := stays _ _ read directive (.self directive)
      refine ⟨.inr ⟨_, _, rfl⟩, directive.span, rfl, ?_⟩
      simp [liesIn_iff_of_inText measures inside, read, lacks]
  | @unknown directive family read names foreign =>
      -- Here the span is shifted to where the comment stands.
      have member : family ∈ directive.children := List.mem_of_find?_eq_some names
      have inside := stays _ _ read family (.under member (.self family))
      refine ⟨.inr ⟨_, _, rfl⟩, _, rfl, ?_⟩
      simp [liesIn_shiftInto measures inside, read, names]

def familyless : FrontEnd :=
  ⟨fun text => .ok (.leaf .directive (.ofRange 0 (Text.byteSize text.toList)) text none)⟩

theorem familyless_staysInText : familyless.StaysInText := by
  intro text directive read node within
  cases read
  cases within with
  | under member _ => cases member
  | self =>
      have stop := clampOffset_toNat_eq (Text.byteSize text.toList)
      constructor
      · rw [UInt32.le_iff_toNat_le]
        exact Nat.zero_le _
      · change (clampOffset _).toNat ≤ _
        omega

def indentedPragma : Tree :=
  .leaf .comment (.ofRange 10 16) "#$ omp" none

theorem familyless_pragma_misplaced :
    indentedPragma.span = ⟨10, 16⟩ ∧ familyless.StaysInText ∧
      lowerComment familyless indentedPragma = .error (.unsupported "directive" ⟨0, 6⟩) ∧
      ¬indentedPragma.span.LiesIn ⟨0, 6⟩ := by
  have failed : lowerComment familyless indentedPragma =
      .error (.unsupported "directive" ⟨0, 6⟩) := by
    rfl
  have measures : indentedPragma.span.Measures indentedPragma.text := by
    rfl
  refine ⟨by rfl, familyless_staysInText, failed, ?_⟩
  obtain ⟨-, place, located, lies⟩ :=
    pragma_refusal_in_comment_iff familyless_staysInText (by decide) measures failed
  cases located
  rw [lies]
  intro early
  exact absurd (early _ rfl rfl) (by decide +kernel)

end Lowering

end NumericPython

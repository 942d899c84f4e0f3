import NumericPython.Proofs.Directive.Words
import NumericPython.Proofs.Grammar.CommentReading
import NumericPython.Proofs.Layout.Spans
import NumericPython.Proofs.Lowering.StatementRefusals

set_option autoImplicit false

namespace NumericPython

/-- The bytes from the offset of a span to its offset and length are in the source, and the offsets
are ordered, so that the length is their difference. -/
structure Span.Inside (source : Source) (span : Span) : Prop where
  ordered : span.start ≤ span.stop
  bound : span.start.toNat + span.length.toNat ≤ Text.byteSize source.chars

theorem Span.toNat_length {span : Span} (ordered : span.start ≤ span.stop) :
    span.length.toNat = span.stop.toNat - span.start.toNat :=
  UInt32.toNat_sub_of_le _ _ ordered

theorem Source.Covers.inside {source : Source} {span : Span} {text : String}
    (covers : source.Covers span.start.toNat span.stop.toNat text) : span.Inside source := by
  have ordered : span.start ≤ span.stop := UInt32.le_iff_toNat_le.2 covers.le
  refine ⟨ordered, ?_⟩
  have le := covers.le
  have bound := covers.stop_le
  rw [Span.toNat_length ordered]
  omega

namespace Lowering

open NumericPython.Tree

structure Fits (comment part : Span) : Prop where
  ordered : part.start ≤ part.stop
  bound : comment.start.toNat + part.start.toNat + part.length.toNat < UInt32.size

/-- No difference and no sum of offsets wraps around when a tree is lowered. -/
structure ExactSpans (tree : Tree) : Prop where
  lengths : ∀ node, tree.Within node → node.span.start ≤ node.span.stop
  families : ∀ comment, tree.Within comment → comment.isPragma = true →
    ∀ directive, Directive.parse comment.text = .ok directive →
      ∀ family, directive.child? "family" = some family → Fits comment.span family.span

def unknownFamily (word : String) (span : Span) : LowerError :=
  .unsupported ("`" ++ word ++ "` directive") span

theorem Fits.toNat_shiftInto {comment part : Span} (fits : Fits comment part) :
    (shiftInto comment part).start.toNat = comment.start.toNat + part.start.toNat ∧
      (shiftInto comment part).stop.toNat = comment.start.toNat + part.stop.toNat := by
  obtain ⟨ordered, bound⟩ := fits
  have length := Span.toNat_length ordered
  have start : (comment.start + part.start).toNat = comment.start.toNat + part.start.toNat := by
    rw [UInt32.toNat_add]
    exact Nat.mod_eq_of_lt (Nat.lt_of_le_of_lt (Nat.le_add_right _ _) bound)
  refine ⟨start, ?_⟩
  have stop : (comment.start + part.start + part.length).toNat =
      comment.start.toNat + part.start.toNat + part.length.toNat := by
    rw [UInt32.toNat_add, start]
    exact Nat.mod_eq_of_lt bound
  have le := UInt32.le_iff_toNat_le.1 ordered
  rw [shiftInto]
  dsimp only
  omega

section Family

variable {source : Source} {comment : Tree} {family : Directive.Word}
  {clauses : List Directive.Word}

-- The word that names the family stands in the source where its shifted span says.
theorem family_stands (size : Text.byteSize source.chars < UInt32.size)
    (covers : source.Covers comment.span.start.toNat comment.span.stop.toNat comment.text)
    (read : Directive.words? comment.text.toList = .ok (family, clauses)) :
    let span := (Directive.wordTree .identifier "family" family).span
    Fits comment.span span ∧
      source.Covers (shiftInto comment.span span).start.toNat
        (shiftInto comment.span span).stop.toNat (String.ofList family.text) := by
  obtain ⟨body, marked, -, -⟩ := Directive.words?_eq_ok.1 read
  have small : Text.byteSize comment.text.toList < UInt32.size := by
    have stop := covers.stop_eq
    have inside := covers.stop_le
    omega
  rw [marked] at read
  obtain ⟨start, stop, word⟩ := Directive.wordTree_covers small marked
    (Directive.cut_of_words? read) (.head _) .identifier "family"
  have whole := covers.part word
  rw [← stop, ← start] at whole
  have fits : Fits comment.span (Directive.wordTree .identifier "family" family).span := by
    have ordered : (Directive.wordTree .identifier "family" family).span.start ≤
        (Directive.wordTree .identifier "family" family).span.stop := by
      rw [UInt32.le_iff_toNat_le, start, stop]
      omega
    refine ⟨ordered, ?_⟩
    have inside := whole.stop_le
    rw [Span.toNat_length ordered]
    omega
  refine ⟨fits, ?_⟩
  rw [fits.toNat_shiftInto.1, fits.toNat_shiftInto.2]
  exact whole

theorem family_of_parse {text : String} {directive child : Tree}
    (parsed : Directive.parse text = .ok directive) (found : directive.child? "family" = some child) :
    ∃ family clauses, Directive.words? text.toList = .ok (family, clauses) ∧
      child = Directive.wordTree .identifier "family" family := by
  unfold Directive.parse at parsed
  split at parsed
  next => cases parsed
  next family clauses read =>
    cases parsed
    exact ⟨family, clauses, read, (Option.some.inj found).symm⟩

end Family

theorem exactSpans_of_stands {source : Source} {tree : Tree}
    (size : Text.byteSize source.chars < UInt32.size) (stands : tree.Stands source) :
    ExactSpans tree where
  lengths node within := (stands node within).inside.ordered
  families comment within _ directive parsed child found := by
    obtain ⟨family, clauses, read, rfl⟩ := family_of_parse parsed found
    exact (family_stands size (stands comment within) read).1

/-- The place that an error names. -/
inductive Pinpoints (source : Source) (tree : Tree) : LowerError → Prop
  | malformed (cause : Malformed) : Pinpoints source tree (.malformed cause)
  | family {name : String} {span : Span} (word : Directive.isIdentifier name.toList = true)
      (inside : span.Inside source) (here : source.slice span.start.toNat span.stop.toNat = name) :
      Pinpoints source tree (unknownFamily name span)
  | node {node : Tree} {cause : LowerError} (within : tree.Within node)
      (located : cause.span? = some node.span) (inside : node.span.Inside source)
      (other : cause = .ofTree node ∨ ∀ name span, Directive.isIdentifier name.toList = true →
        cause ≠ unknownFamily name span) :
      Pinpoints source tree cause

theorem not_space_of_isIdentifier {name : List Char} (word : Directive.isIdentifier name = true) :
    name.count ' ' = 0 := by
  cases name with
  | nil => rfl
  | cons c cs =>
      simp only [Directive.isIdentifier, Bool.and_eq_true, List.all_eq_true] at word
      rw [List.count_eq_zero]
      intro member
      exact absurd (word.2 ' ' member) (by decide)

theorem Reports.other {node : Tree} {cause : LowerError} (reports : Reports node cause) :
    cause = .ofTree node ∨ ∀ name span, Directive.isIdentifier name.toList = true →
      cause ≠ unknownFamily name span := by
  have spelled {construct name : String} {place span : Span}
      (same : LowerError.unsupported construct place = unknownFamily name span) :
      construct.toList = '`' :: (name.toList ++ "` directive".toList) := by
    cases same
    simp
  cases reports with
  | noRule => exact .inl rfl
  | lacks field =>
      -- There are two blanks around the word before the field.
      refine .inr fun name span word same => ?_
      have blanks := congrArg (List.count ' ') (spelled same)
      simp [not_space_of_isIdentifier word] at blanks
      omega
  | operator => exact .inr fun _ _ _ same => by cases same
  | literal => exact .inr fun _ _ _ same => by cases same
  | construct listed =>
      have plain : ∀ name ∈ namedConstructs, name.toList.head? ≠ some '`' := by decide
      refine .inr fun name span _ same => plain _ listed ?_
      rw [spelled same, List.head?_cons]
  | @qualified qualifier listed =>
      have plain : ∀ qualifier ∈ kindQualifiers, ∃ c cs, qualifier.toList = c :: cs ∧ c ≠ '`' := by
        simp [kindQualifiers]
      refine .inr fun name span _ same => ?_
      obtain ⟨c, cs, first, letter⟩ := plain _ listed
      have text := spelled same
      simp [first, letter] at text
  | stringPrefix letters =>
      refine .inr fun name span _ same => ?_
      have text := spelled same
      simp at text

/-- Errors of lowering point into the source. -/
theorem lowering_errors_point_into_source (source : Source) (raw : RawTree)
    (size : Text.byteSize source.chars < UInt32.size)
    (lies : ∀ node, raw.Within node → node.Lies source) :
    ExactSpans (raw.toTree source) ∧
      ∀ cause, LoweredModule.ofTree Directive.frontEnd (raw.toTree source) = .error cause →
        Pinpoints source (raw.toTree source) cause := by
  have stands := RawTree.stands_toTree size lies
  refine ⟨exactSpans_of_stands size stands, ?_⟩
  intro cause failed
  cases refusal_of_ofTree failed with
  | malformed cause => exact .malformed cause
  | node within reports =>
      exact .node within reports.span?_eq (stands _ within).inside reports.other
  | @pragma comment _ within isPragma refused =>
      rw [lowerPragma_frontEnd] at refused
      split at refused
      next fault _ =>
        cases refused
        exact .node within rfl (stands _ within).inside (.inr (by simp [unknownFamily]))
      next family clauses read =>
        split at refused
        next =>
          cases refused
          obtain ⟨-, covers⟩ := family_stands size (stands _ within) read
          obtain ⟨_, -, -, name⟩ := Directive.words?_eq_ok.1 read
          exact .family (by simpa using name) covers.inside covers.slice_eq
        next => cases refused

open RawTree in
def headerPragma : RawTree :=
  named "module" none 0 29
    [named "if_statement" none 0 28
      [token "if" 0 2, named "identifier" "condition" 3 5 [], token ":" 5 6,
       named "comment" none 8 22 [],
       suite "consequence" 27 28]]

def headerPragmaSource : Source :=
  .ofString "if é:  #$ cuda kernel\n    b\n"

theorem header_pragma_pinpointed :
    LoweredModule.ofTree Directive.frontEnd (headerPragma.toTree headerPragmaSource) =
        .error (unknownFamily "cuda" ⟨11, 15⟩) ∧
      ExactSpans (headerPragma.toTree headerPragmaSource) ∧
        Pinpoints headerPragmaSource (headerPragma.toTree headerPragmaSource)
          (unknownFamily "cuda" ⟨11, 15⟩) := by
  have size : Text.byteSize headerPragmaSource.chars < UInt32.size := by decide +kernel
  have lies : ∀ node, headerPragma.Within node → node.Lies headerPragmaSource := by decide +kernel
  have failed : LoweredModule.ofTree Directive.frontEnd (headerPragma.toTree headerPragmaSource) =
      .error (unknownFamily "cuda" ⟨11, 15⟩) := by
    rfl
  obtain ⟨exact, points⟩ :=
    lowering_errors_point_into_source headerPragmaSource headerPragma size lies
  exact ⟨failed, exact, points _ failed⟩

end Lowering

end NumericPython

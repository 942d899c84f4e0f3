import Mathlib.Data.List.DropRight
import NumericPython.Proofs.Directive.Words
import NumericPython.Proofs.Grammar.CommentReading
import NumericPython.Proofs.Printing.FilledLines

set_option autoImplicit false

namespace NumericPython

namespace Text

theorem trimStart_trim (cs : List Char) : trimStart (trim cs) = trim cs := by
  have shorter : trim cs <+: trimStart cs := List.rdropWhile_prefix isBlank (trimStart cs)
  rw [trimStart, List.dropWhile_eq_self_iff]
  intro filled
  rw [shorter.getElem filled]
  exact List.dropWhile_get_zero_not isBlank cs (filled.trans_le shorter.length_le)

theorem trim_trim (cs : List Char) : trim (trim cs) = trim cs := by
  have ends : trimEnd (trim cs) = trim cs := List.rdropWhile_idempotent isBlank (trimStart cs)
  rw [trim, trimStart_trim, ends]

/-- Blanks around `text` make `cs`, and `text` neither begins nor ends with one. -/
structure TrimsTo (cs text : List Char) : Prop where
  cut : ∃ front back, cs = front ++ text ++ back ∧ ∀ c ∈ front ++ back, isBlank c = true
  begins : ∀ c ∈ text.head?, isBlank c = false
  ends : ∀ c ∈ text.getLast?, isBlank c = false

theorem trimsTo_trim (cs : List Char) : TrimsTo cs (trim cs) where
  cut := by
    have ended : trim cs ++ (trimStart cs).rtakeWhile isBlank = trimStart cs :=
      List.rdropWhile_append_rtakeWhile
    refine ⟨cs.takeWhile isBlank, (trimStart cs).rtakeWhile isBlank, ?_, ?_⟩
    · rw [List.append_assoc, ended, trimStart, List.takeWhile_append_dropWhile]
    · intro c member
      rcases List.mem_append.1 member with front | back
      · exact List.mem_takeWhile_imp front
      · exact List.mem_rtakeWhile_imp back
  begins := by
    intro c first
    have started : (trim cs).dropWhile isBlank = trim cs := trimStart_trim cs
    have starts := List.head?_dropWhile_not isBlank (trim cs)
    rw [started, first] at starts
    simpa using starts
  ends := by
    intro c last
    obtain ⟨init, same⟩ := List.getLast?_eq_some_iff.1 last
    have ended : (trim cs).rdropWhile isBlank = trim cs := List.rdropWhile_idempotent isBlank _
    refine Bool.eq_false_iff.2 fun blank => ?_
    rw [same, List.rdropWhile_concat_pos _ _ _ blank] at ended
    have longer := congrArg List.length ended
    have shorter := (List.rdropWhile_prefix isBlank init).length_le
    simp only [List.length_append, List.length_singleton] at longer
    omega

theorem mem_of_mem_trim {c : Char} {cs : List Char} (member : c ∈ trim cs) : c ∈ cs := by
  have shorter : trim cs <+: trimStart cs := List.rdropWhile_prefix isBlank (trimStart cs)
  exact (List.dropWhile_sublist isBlank).subset (shorter.subset member)

end Text

namespace Line

def withoutIndent (text : String) : String :=
  String.ofList (text.toList.dropWhile (· == ' '))

theorem withoutIndent_renderAll {content : String} {cs : List Char}
    (sign : content.toList = '#' :: cs) (width level : Nat) :
    withoutIndent (renderAll width [.text level content]) = content := by
  have spaces : ∀ c ∈ List.replicate (level * width) ' ', (c == ' ') = true := by
    intro c member
    rw [List.eq_of_mem_replicate member]
    rfl
  have whole : (renderAll width [.text level content]).toList =
      List.replicate (level * width) ' ' ++ content.toList := by
    simp [renderAll, render, Text.spaces]
  rw [withoutIndent, whole, dropWhile_append_stop spaces (by simp [sign]), String.ofList_toList]

theorem oneLine_renderAll {content : String} (plain : Text.OneLine content) (width level : Nat) :
    Text.OneLine (renderAll width [.text level content]) := by
  simp only [renderAll, List.map_singleton, Text.joinWith_singleton, render, Text.oneLine_append]
  refine ⟨?_, plain⟩
  simp [Text.OneLine, Text.spaces]

end Line

namespace Lowering

open Printing Grammar

section Comments

variable {comment : Tree} {s : Stmt}

theorem trim_commentText (text : String) :
    Text.trim (commentText text).toList = (commentText text).toList := by
  unfold commentText
  split <;> rw [String.toList_ofList, Text.trim_trim]

theorem trimsTo_commentText {text : String} {cs : List Char} (sign : text.toList = '#' :: cs) :
    Text.TrimsTo cs (commentText text).toList := by
  simp only [commentText, sign, String.toList_ofList]
  exact Text.trimsTo_trim cs

theorem oneLine_commentText {text : String} (plain : Text.OneLine text) :
    Text.OneLine (commentText text) := by
  unfold commentText
  split
  next cs sign =>
    intro feed
    rw [String.toList_ofList] at feed
    exact plain (sign ▸ .tail _ (Text.mem_of_mem_trim feed))
  next =>
    intro feed
    rw [String.toList_ofList] at feed
    exact plain (Text.mem_of_mem_trim feed)

theorem pragma_of_lowerPragma {text : String} {span : Span}
    (lowers : lowerPragma Directive.frontEnd text span = .ok s) :
    ∃ family clauses, s = .pragma family clauses ∧
      (∀ clause ∈ clauses, Directive.isClause clause = true) ∧
      (Text.OneLine text → ∀ clause ∈ clauses, Text.OneLine clause) := by
  rw [lowerPragma_frontEnd] at lowers
  split at lowers
  next => cases lowers
  next first words found =>
    split at lowers
    next => cases lowers
    next family known =>
      cases lowers
      obtain ⟨body, marked, -⟩ := Directive.words?_eq_ok.1 found
      rw [marked] at found
      have cut := Directive.cut_of_words? found
      refine ⟨family, _, rfl, ?_, ?_⟩
      · rw [List.forall_mem_map]
        exact fun word member => cut.isClause word (.tail _ member)
      · intro plain
        rw [List.forall_mem_map]
        intro word member feed
        obtain ⟨front, back, rfl, -⟩ := cut.stands word (.tail _ member)
        rw [String.toList_ofList] at feed
        exact plain (by simp [marked, feed])

end Comments

/-- What a comment is lowered to is printed on one line on every level, and that line without its
indentation is lowered to the same again. The text of a plain comment is that of the source behind
the number sign, without the blanks around it. -/
theorem comment_lines_stable {comment : Tree} {s : Stmt}
    (lowers : lowerComment Directive.frontEnd comment = .ok s) (width level : Nat) :
    (if comment.isPragma then ∃ family clauses, s = .pragma family clauses
      else ∃ text, s = .comment text ∧
        ∀ cs, comment.text.toList = '#' :: cs → Text.TrimsTo cs text.toList) ∧
    ∃ line, (stmtLines level s).map (Line.renderAll width) = .ok line ∧
      (Text.OneLine comment.text → Text.OneLine line) ∧
      ∀ span field children, lowerComment Directive.frontEnd
        ⟨.comment, span, Line.withoutIndent line, field, children⟩ = .ok s := by
  unfold lowerComment at lowers
  split at lowers
  next pragma =>
    obtain ⟨family, clauses, rfl, valid, plain⟩ := pragma_of_lowerPragma lowers
    rw [if_pos pragma]
    refine ⟨⟨family, clauses, rfl⟩, _, rfl, ?_, ?_⟩
    · intro oneLine
      exact Line.oneLine_renderAll (pragmaText_fillsLine family (plain oneLine)).2 width level
    · intro span field children
      rw [Line.withoutIndent_renderAll (toList_pragmaText family clauses)]
      exact lowerComment_pragmaText family valid span field children
  next plain =>
    cases lowers
    rw [if_neg plain]
    refine ⟨⟨_, rfl, fun cs sign => trimsTo_commentText sign⟩, _, rfl, ?_, ?_⟩
    · intro oneLine
      exact Line.oneLine_renderAll (commentLine_fillsLine (oneLine_commentText oneLine)).2 width level
    · intro span field children
      rw [Line.withoutIndent_renderAll (toList_commentLine _)]
      exact lowerComment_commentLine (trim_commentText comment.text) span field children

def spacedPragma : Tree :=
  .leaf .comment (.ofRange 4 41) "#$  omp\u3000for  reduction(+: (a,\tb) )end  " none

def spacedComment : Tree :=
  .leaf .comment (.ofRange 4 16) "#\t$ omp # \u3000" none

theorem spaced_comments_stable :
    (∃ s, lowerComment Directive.frontEnd spacedPragma = .ok s ∧
      s = .pragma .omp ["for", "reduction(+: (a,\tb) )end"] ∧
      (stmtLines 1 s).map (Line.renderAll 4) =
        .ok "    #$ omp for reduction(+: (a,\tb) )end" ∧
      ∃ line, (stmtLines 1 s).map (Line.renderAll 4) = .ok line ∧
        (Text.OneLine spacedPragma.text → Text.OneLine line) ∧
        ∀ span field children, lowerComment Directive.frontEnd
          ⟨.comment, span, Line.withoutIndent line, field, children⟩ = .ok s) ∧
    ∃ s, lowerComment Directive.frontEnd spacedComment = .ok s ∧ s = .comment "$ omp #" ∧
      Text.TrimsTo "\t$ omp # \u3000".toList "$ omp #".toList ∧
      (stmtLines 2 s).map (Line.renderAll 2) = .ok "    # $ omp #" ∧
      ∃ line, (stmtLines 2 s).map (Line.renderAll 2) = .ok line ∧
        (Text.OneLine spacedComment.text → Text.OneLine line) ∧
        ∀ span field children, lowerComment Directive.frontEnd
          ⟨.comment, span, Line.withoutIndent line, field, children⟩ = .ok s := by
  have pragma : lowerComment Directive.frontEnd spacedPragma =
      .ok (.pragma .omp ["for", "reduction(+: (a,\tb) )end"]) := by rfl
  have plain : lowerComment Directive.frontEnd spacedComment = .ok (.comment "$ omp #") := by rfl
  refine ⟨⟨_, pragma, rfl, by rfl, (comment_lines_stable pragma 4 1).2⟩, ?_⟩
  obtain ⟨kind, printed⟩ := comment_lines_stable plain 2 2
  obtain ⟨text, same, trims⟩ : ∃ text, Stmt.comment "$ omp #" = .comment text ∧
      ∀ cs, spacedComment.text.toList = '#' :: cs → Text.TrimsTo cs text.toList := kind
  cases same
  exact ⟨_, plain, rfl, trims _ (by decide), by rfl, printed⟩

end Lowering

end NumericPython

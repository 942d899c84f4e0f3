import NumericPython.Printing.Stmt
import NumericPython.Proofs.Directive.Parentheses
import NumericPython.Proofs.Grammar.SimpleReading
import NumericPython.Proofs.Grammar.Spelling

set_option autoImplicit false

namespace NumericPython

namespace Directive

theorem splitWords_nests {cs rest word : List Char} {offset depth : Nat}
    (inside : nests depth cs = true) : splitWords offset depth word (cs ++ rest) =
      splitWords (offset + Text.byteSize cs) 0 (word ++ cs) rest := by
  induction cs generalizing offset depth word with
  | nil =>
      obtain rfl : depth = 0 := by simpa [nests] using inside
      simp
  | cons c cs ih =>
      rw [nests] at inside
      rw [List.cons_append, splitWords]
      cases after : depthAfter depth c with
      | none =>
          rw [after] at inside
          cases inside
      | some inner =>
          rw [after] at inside
          simp only [Bool.and_eq_true, Bool.not_eq_true'] at inside
          have later := @ih (word ++ [c]) (offset + c.utf8Size) inner inside.2
          simp only [inside.1, Bool.false_eq_true, if_false, later]
          simp [Nat.add_assoc]

theorem splitWords_joined {clauses : List String} (valid : ∀ text ∈ clauses, isClause text = true)
    (offset : Nat) (word : List Char) : ∃ words,
      splitWords offset 0 word (clauses.flatMap fun text => ' ' :: text.toList) =
        some (finishWord offset word ++ words) ∧
      words.map (fun word => String.ofList word.text) = clauses := by
  induction clauses generalizing offset word with
  | nil => exact ⟨[], by simp [splitWords], rfl⟩
  | cons text clauses ih =>
      have here := valid text (.head _)
      simp only [isClause, Bool.and_eq_true, Bool.not_eq_true'] at here
      obtain ⟨words, split, texts⟩ := ih (fun other member => valid other (.tail _ member))
        (offset + ' '.utf8Size + Text.byteSize text.toList) text.toList
      have space : Text.isBlank ' ' = true := by decide
      have depth : depthAfter 0 ' ' = some 0 := rfl
      refine ⟨finishWord (offset + ' '.utf8Size + Text.byteSize text.toList) text.toList ++ words,
        ?_, ?_⟩
      · rw [List.flatMap_cons, List.cons_append, splitWords, depth]
        simp only [space, Bool.true_and, beq_self_eq_true, if_true]
        rw [splitWords_nests here.2, List.nil_append, split]
        rfl
      · rw [finishWord, here.1]
        simp [texts]

end Directive

namespace Lowering

theorem lowerPragma_frontEnd (text : String) (span : Span) :
    lowerPragma Directive.frontEnd text span =
      match Directive.words? text.toList with
      | .error fault => .error (.directive (.directive text fault.reason) span)
      | .ok (family, clauses) =>
        match PragmaFamily.ofName? (String.ofList family.text) with
        | none =>
          .error (.unsupported ("`" ++ String.ofList family.text ++ "` directive")
            (shiftInto span (Directive.wordTree .identifier "family" family).span))
        | some known => .ok (.pragma known (clauses.map fun word => String.ofList word.text)) := by
  rw [lowerPragma]
  simp only [Directive.frontEnd, Directive.parse]
  cases Directive.words? text.toList with
  | error fault => rfl
  | ok words =>
      obtain ⟨family, clauses⟩ := words
      have fill : (clauses.map (Directive.wordTree .directiveClause "clause")).filter
          (·.fills "clause") = clauses.map (Directive.wordTree .directiveClause "clause") := by
        apply List.filter_eq_self.2
        intro tree member
        obtain ⟨word, -, rfl⟩ := List.mem_map.1 member
        rfl
      have kinds : (clauses.map (Directive.wordTree .directiveClause "clause")).filter
          (·.kind == .directiveClause) =
            clauses.map (Directive.wordTree .directiveClause "clause") := by
        apply List.filter_eq_self.2
        intro tree member
        obtain ⟨word, -, rfl⟩ := List.mem_map.1 member
        rfl
      have first : (Directive.wordTree .identifier "family" family).fills "family" = true ∧
          (Directive.wordTree .identifier "family" family).fills "clause" = false := ⟨rfl, rfl⟩
      simp only [Tree.child?, Tree.childrenBy, List.find?_cons, List.filter_cons, first,
        Bool.false_eq_true, if_false, fill, kinds, List.map_map]
      rfl

end Lowering

namespace Grammar

open Lowering RawTree Printing

variable {source : Source}

def commentNode (start stop : Nat) : RawTree :=
  ⟨"comment", none, start, stop, true, false, false, []⟩

theorem convert_comment (start stop : Nat) (opener : Option Nat) :
    convert source opener (commentNode start stop) =
      ⟨.comment, .ofRange start stop, source.slice start stop, none, []⟩ := by
  rw [commentNode, convert]
  rfl

theorem toList_commentLine (text : String) :
    (commentLine text).toList = '#' :: if text.isEmpty then [] else ' ' :: text.toList := by
  rw [commentLine]
  split <;> simp

theorem lowerComment_commentLine {frontEnd : FrontEnd} {text : String}
    (trimmed : Text.trim text.toList = text.toList) (span : Span) (field : Option String)
    (children : List Tree) :
    lowerComment frontEnd ⟨.comment, span, commentLine text, field, children⟩ =
      .ok (.comment text) := by
  have notPragma : Tree.isPragma ⟨.comment, span, commentLine text, field, children⟩ = false := by
    rw [Tree.isPragma, toList_commentLine]
    split <;> rfl
  have blank : Text.isBlank ' ' = true := by decide
  rw [lowerComment, notPragma, if_neg Bool.false_ne_true]
  simp only [commentText, toList_commentLine]
  by_cases empty : text.isEmpty = true
  · have same : text = "" := by simpa using empty
    subst same
    rfl
  · rw [if_neg empty]
    have trims : Text.trim (' ' :: text.toList) = Text.trim text.toList := by
      simp [Text.trim, Text.trimStart, blank]
    simp [trims, trimmed]

theorem isClause_family (family : PragmaFamily) : Directive.isClause family.name = true := by
  cases family <;> decide

theorem isIdentifier_family (family : PragmaFamily) :
    Directive.isIdentifier family.name.toList = true := by
  cases family <;> decide

theorem toList_pragmaText (family : PragmaFamily) (clauses : List String) :
    (pragmaText family clauses).toList =
      '#' :: '$' :: (family.name :: clauses).flatMap fun text => ' ' :: text.toList := by
  rw [pragmaText, toList_joinWith]
  rfl

theorem words_pragmaText (family : PragmaFamily) {clauses : List String}
    (valid : ∀ text ∈ clauses, Directive.isClause text = true) : ∃ first words,
      Directive.words? (pragmaText family clauses).toList = .ok (first, words) ∧
        String.ofList first.text = family.name ∧
        words.map (fun word => String.ofList word.text) = clauses := by
  obtain ⟨words, split, texts⟩ := Directive.splitWords_joined
    (List.forall_mem_cons.2 ⟨isClause_family family, valid⟩) 2 []
  have none_open : Directive.finishWord 2 [] = [] := rfl
  rw [none_open, List.nil_append] at split
  cases words with
  | nil => cases texts
  | cons first words =>
      rw [List.map_cons, List.cons_eq_cons] at texts
      have identifier : Directive.isIdentifier first.text = true := by
        have name : first.text = family.name.toList := by
          rw [← texts.1, String.toList_ofList]
        rw [name]
        exact isIdentifier_family family
      refine ⟨first, words, ?_, texts⟩
      rw [toList_pragmaText, Directive.words?]
      simp only [split, identifier, if_true]

theorem lowerComment_pragmaText (family : PragmaFamily) {clauses : List String}
    (valid : ∀ text ∈ clauses, Directive.isClause text = true) (span : Span)
    (field : Option String) (children : List Tree) :
    lowerComment Directive.frontEnd
      ⟨.comment, span, pragmaText family clauses, field, children⟩ =
        .ok (.pragma family clauses) := by
  obtain ⟨first, words, read, name, texts⟩ := words_pragmaText family valid
  have isPragma : Tree.isPragma
      ⟨.comment, span, pragmaText family clauses, field, children⟩ = true := by
    rw [Tree.isPragma, toList_pragmaText]
    rfl
  rw [lowerComment, isPragma, if_pos rfl, lowerPragma_frontEnd, read]
  simp only [name, PragmaFamily.ofName?_name, texts]

end Grammar

end NumericPython

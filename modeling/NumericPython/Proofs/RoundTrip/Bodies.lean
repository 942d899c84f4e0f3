import NumericPython.Proofs.RoundTrip.Headers

set_option autoImplicit false

namespace NumericPython

open Grammar Lowering Printing RawTree

variable {alphabet : Alphabet} {width : Nat}

def Stmt.isSolid : Stmt → Bool
  | .comment _ | .pragma _ _ | .emptyLine => false
  | _ => true

def EndsInStatement (body : List Stmt) : Prop :=
  ∃ last ∈ body.getLast?, last.isSolid = true

section Meaning

def Means (tree : Tree) (s : Stmt) : Prop :=
  tree.isToken = false ∧ Gives (lowerStmt Directive.frontEnd tree) s

theorem runs_of_means {layout : List Tree} {body : List Stmt}
    (all : List.Forall₂ Means layout body) : Runs body layout := by
  induction all with
  | nil =>
      rw [Runs, lowerStmts]
      exact gives_pure _
  | cons here _ ih =>
      rw [Runs, lowerStmts, here.1, if_neg Bool.false_ne_true]
      exact here.2.bind (ih.bind (gives_pure _))

theorem not_gives_refuse {α : Type} {cause : LowerError} {result : α} :
    ¬Gives (refuse cause) result := by
  rintro ⟨entered, enters⟩
  have outcome := congrArg Prod.fst (enters .empty)
  cases outcome

theorem Grammar.ReadsStmt.means {source : Source} {tree : RawTree} {s : Stmt}
    (reads : ReadsStmt source tree s) : Means (convert source none tree) s := by
  have sort := reads.sort
  simp only [List.mem_cons, not_or] at sort
  constructor
  · rw [convert_isToken, beq_eq_false_iff_ne]
    exact sort.1
  · cases tree
    exact reads.lowers _ none

theorem Grammar.ReadsStmt.isSolid {source : Source} {tree : RawTree} {s : Stmt}
    (reads : ReadsStmt source tree s) : IsSolid tree := by
  have sort := reads.sort
  have notBlock : tree.treeKind ≠ .block := by
    intro block
    have gives := reads.means.2
    have kind : (convert source none tree).kind = .block := convert_kind.trans block
    generalize convert source none tree = converted at gives kind
    obtain ⟨kind', span, text, field, children⟩ := converted
    cases kind
    unfold lowerStmt at gives
    exact not_gives_refuse gives
  simp only [List.mem_cons, List.not_mem_nil, or_false, not_or] at sort
  simp [IsSolid, sort, notBlock]

def Stmt.ReadsBack (alphabet : Alphabet) (width : Nat) (s : Stmt) : Prop :=
  ∀ level, ∃ lines, stmtLines level s = .ok lines ∧
    Chunk.IsMade alphabet width level Means ⟨s.isSolid, lines, s⟩

theorem isMade_of_reads {level : Nat} {lines : List Line} {s : Stmt} (solid : s.isSolid = true)
    (makes : Makes alphabet width level .statement lines
      (single fun source tree => ReadsStmt source tree s)) :
    Chunk.IsMade alphabet width level Means ⟨s.isSolid, lines, s⟩ := by
  rw [solid]
  refine .node (makes.imp ?_)
  rintro source _ ⟨tree, rfl, reads⟩
  exact ⟨tree, rfl, reads.isSolid, reads.means⟩

end Meaning

section Bodies

variable {body : List Stmt} {level : Nat}

theorem exists_chunks (each : ∀ s ∈ body, s.ReadsBack alphabet width) (level : Nat) :
    ∃ chunks : List (Chunk Stmt), stmtsLines level body = .ok (chunks.flatMap Chunk.lines) ∧
      chunks.map Chunk.item = body ∧ ∀ chunk ∈ chunks,
        chunk.IsMade alphabet width level Means ∧ chunk.solid = chunk.item.isSolid := by
  induction body with
  | nil => exact ⟨[], rfl, rfl, by simp⟩
  | cons s body ih =>
      obtain ⟨lines, printed, isMade⟩ := each s (.head _) level
      obtain ⟨chunks, printed', items, all⟩ := ih fun other member => each other (.tail _ member)
      exact ⟨⟨s.isSolid, lines, s⟩ :: chunks,
        stmtsLines_cons_ok.2 ⟨_, _, printed, printed', List.flatMap_cons⟩,
        by rw [List.map_cons, items], List.forall_mem_cons.2 ⟨⟨isMade, rfl⟩, all⟩⟩

theorem bodyLines_of_ends (ends : EndsInStatement body) (lines : List Line) :
    bodyLines level body lines = lines := by
  obtain ⟨last, found, solid⟩ := ends
  have some_statement : body.all isLayout = false := by
    refine List.all_eq_false.2 ⟨last, List.mem_of_getLast? found, ?_⟩
    cases last <;> first | exact Bool.false_ne_true | cases solid
  rw [bodyLines, some_statement, if_neg Bool.false_ne_true]

theorem exists_body (ends : EndsInStatement body) (each : ∀ s ∈ body, s.ReadsBack alphabet width)
    (level : Nat) : ∃ lines, stmtsLines level body = .ok lines ∧
      bodyLines level body lines = lines ∧ MakesBody alphabet width level lines (Runs body) := by
  obtain ⟨chunks, printed, rfl, all⟩ := exists_chunks each level
  refine ⟨_, printed, bodyLines_of_ends ends _, (makes_chunks (fun chunk member =>
    (all chunk member).1) ?_).imp fun _ => runs_of_means⟩
  obtain ⟨last, found, solid⟩ := ends
  rw [List.getLast?_map] at found
  obtain ⟨chunk, found', rfl⟩ := Option.mem_map.1 found
  exact ⟨chunk, found', (all chunk (List.mem_of_getLast? found')).2.trans solid⟩

end Bodies

section Branches

variable {level : Nat}

structure Branch.ReadsBack (alphabet : Alphabet) (width : Nat) (branch : Branch) : Prop where
  writable : Writable alphabet .value branch.condition
  ends : EndsInStatement branch.body
  each : ∀ s ∈ branch.body, s.ReadsBack alphabet width

theorem exists_branch (positive : 0 < width) {branch : Branch}
    (readsBack : branch.ReadsBack alphabet width) {clause : Clause} {keyword : String}
    {result : Source → List RawTree → Prop} (header : ∀ text,
      WrittenAs alphabet (Derives (.at .or)) branch.condition text →
      IsHeader alphabet clause (Runs branch.body) result (keyword ++ text ++ ":")) (level : Nat) :
    ∃ lines, branchLines level keyword branch = .ok lines ∧ lines ≠ [] ∧
      Makes alphabet width level (.clause clause) lines result := by
  obtain ⟨condition, body⟩ := branch
  obtain ⟨text, written⟩ := readsBack.writable.written
  obtain ⟨lines, printed, same, makes⟩ := exists_body readsBack.ends readsBack.each (level + 1)
  refine ⟨.text level (keyword ++ text ++ ":") :: lines, ?_, by simp,
    makes_suite positive (header text written) makes⟩
  exact branchLines_ok.2 ⟨text, lines, written.1, printed, by rw [same]⟩

theorem exists_alternatives (positive : 0 < width) {rest : List Branch}
    {otherwise : Option (List Stmt)} (each : ∀ branch ∈ rest, branch.ReadsBack alphabet width)
    (last : ∀ body ∈ otherwise, EndsInStatement body ∧ ∀ s ∈ body, s.ReadsBack alphabet width)
    (level : Nat) :
    ∃ lines lines', elifLines level rest = .ok lines ∧ elseLines level otherwise = .ok lines' ∧
      Makes alphabet width level .alternatives (lines ++ lines') fun source trees =>
        List.Forall₂ (ReadsAlternative source) trees (furtherBranches rest otherwise) := by
  induction rest with
  | nil =>
      cases otherwise with
      | none =>
          refine ⟨[], [], rfl, rfl, makes_noAlternative.imp ?_⟩
          rintro source _ rfl
          exact .nil
      | some body =>
          obtain ⟨lines, printed, same, makes⟩ := exists_body (last body rfl).1 (last body rfl).2
            (level + 1)
          refine ⟨[], .text level "else:" :: lines, rfl, ?_,
            (makes_else (makes_suite positive isHeader_else makes) (by simp)).imp ?_⟩
          · exact elseLines_some_ok.2 ⟨lines, printed, by rw [same]⟩
          · rintro source _ ⟨_, rfl, children, rfl, reads⟩
            exact .cons reads .nil
  | cons branch rest ih =>
      obtain ⟨lines, printed, some_line, makes⟩ := exists_branch positive (each branch (.head _))
        (fun text written => isHeader_elif written) level
      obtain ⟨others, lines', printed', printedElse, makes'⟩ :=
        ih fun other member => each other (.tail _ member)
      refine ⟨_, lines', elifLines_cons_ok.2 ⟨lines, others, printed, printed', rfl⟩, printedElse, ?_⟩
      rw [List.append_assoc]
      refine (makes_elif makes makes' some_line).imp ?_
      rintro source _ ⟨children, trees, rfl, reads, all⟩
      exact .cons reads all

theorem conditional_readsBack (positive : 0 < width) {first : Branch} {rest : List Branch}
    {otherwise : Option (List Stmt)}
    (each : ∀ branch ∈ first :: rest, branch.ReadsBack alphabet width)
    (last : ∀ body ∈ otherwise, EndsInStatement body ∧ ∀ s ∈ body, s.ReadsBack alphabet width) :
    (Stmt.conditional first rest otherwise).ReadsBack alphabet width := by
  intro level
  obtain ⟨condition, body⟩ := first
  obtain ⟨lines, printed, some_line, makes⟩ := exists_branch positive (each _ (.head _))
    (fun text written => @isHeader_if _ _ _ body rest otherwise written) level
  obtain ⟨lines', lines'', printed', printed'', makes'⟩ := exists_alternatives positive
    (fun branch member => each branch (.tail _ member)) last level
  refine ⟨_, StmtForm.written (.conditional printed printed' printed''), isMade_of_reads rfl ?_⟩
  rw [List.append_assoc]
  refine (makes_conditional makes makes' some_line).imp ?_
  rintro source _ ⟨_, rfl, children, trees, rfl, reads, all⟩
  exact ⟨_, rfl, reads trees all⟩

end Branches

end NumericPython

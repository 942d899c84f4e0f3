import NumericPython.Proofs.Grammar.Wording
import NumericPython.Proofs.RoundTrip.Expressions

set_option autoImplicit false

namespace NumericPython

open Grammar Lowering Printing

variable {alphabet : Alphabet}

section Targets

inductive Assignable (alphabet : Alphabet) : Expr → Prop
  | symbol {name : String} (isName : IsName alphabet name) :
      Assignable alphabet (.symbol (.plain name))
  | dotted {name : DottedName} (names : ∀ part ∈ name.parts, IsName alphabet part) :
      Assignable alphabet (.dotted name)
  | indexed {base index : Expr} {more : List Expr} (writable : Writable alphabet .value base)
      (indices : ∀ e ∈ index :: more, Writable alphabet .index e) :
      Assignable alphabet (.indexed base index more)
  | tuple {first : Expr} {rest : List Expr} (items : ∀ e ∈ first :: rest, Assignable alphabet e) :
      Assignable alphabet (.tuple (first :: rest))

def WrittenAs (alphabet : Alphabet) (rule : List Token → RawTree → Prop) (e : Expr)
    (text : String) : Prop :=
  exprText e = .ok text ∧
    Worded alphabet isEnd rule (fun source tree => Reads source tree e) text.toList

theorem Writable.written {e : Expr} (writable : Writable alphabet .value e) :
    ∃ text, WrittenAs alphabet (Derives (.at .or)) e text := by
  obtain ⟨text, printed, spelled⟩ := writable.recovered
  exact ⟨text, printed, (spelled.weaken (or_le _)).worded⟩

theorem exprTexts_written {rule : List Token → RawTree → Prop} {items : List Expr}
    (written : ∀ e ∈ items, ∃ text, WrittenAs alphabet rule e text) :
    ∃ texts, exprTexts items = .ok texts ∧ List.Forall₂ (fun e text => Worded alphabet isEnd rule
      (fun source tree => Reads source tree e) (String.toList text)) items texts := by
  rw [exprTexts_eq_mapM]
  exact mapM_forall₂ written

theorem Assignable.written {e : Expr} (assignable : Assignable alphabet e) :
    ∃ text, WrittenAs alphabet TargetItem e text := by
  induction assignable with
  | @symbol name isName =>
      refine ⟨name, ExprForm.written (.symbol _), fun start => ⟨_, _, opensWord_of_word isName (by decide),
        (segment_name isName).imp fun c ends => by simp [ends], ⟨.weaken (by decide) (.operand rfl), rfl⟩,
        fun source holds => ?_⟩⟩
      simpa using @reads_name source ⟨.name, name.toList, start⟩ rfl (holds _ (.head _))
  | @dotted name names =>
      refine ⟨name.text, ExprForm.written (.dotted name), fun start => ?_⟩
      obtain ⟨tokens, tree, head, segment, derives, kind, reads⟩ := spelledParts_dotted names start
      refine ⟨tokens, tree, head, segment.imp fun c ends => by simp [ends],
        ⟨.weaken (by decide) derives, ?_⟩, fun source holds => (reads source holds).dotted.1⟩
      cases tree
      simp only [List.mem_cons, List.not_mem_nil, or_false] at kind
      rcases kind with rfl | rfl <;> rfl
  | @indexed base index more writable indices =>
      obtain ⟨text, printed, spelled⟩ := printed_indexed writable.recovered
        fun e member => (indices e member).recovered
      refine ⟨text, printed, fun start => ?_⟩
      obtain ⟨tokens, tree, spells, kind⟩ := spelled start
      refine ⟨tokens, tree, spells.head, spells.segment, ⟨.weaken (by decide) spells.derives, ?_⟩,
        spells.reads⟩
      cases tree
      cases kind
      rfl
  | @tuple first rest _ written =>
      obtain ⟨texts, printed, worded⟩ := exprTexts_written written
      refine ⟨tupleText texts, ExprForm.written (.tuple printed), ?_⟩
      rcases texts with _ | ⟨text, texts⟩
      · cases worded
      · cases rest with
        | nil =>
            obtain ⟨here, ⟨⟩⟩ := List.forall₂_cons.1 worded
            exact worded_singleTarget here
        | cons second rest =>
            obtain ⟨second', others, rfl⟩ : ∃ second' others, texts = second' :: others := by
              cases texts with
              | nil => cases (List.forall₂_cons.1 worded).2
              | cons second' others => exact ⟨second', others, rfl⟩
            exact worded_tupleTarget worded

def TargetValues (tokens : List Token) (tree : RawTree) : Prop :=
  Values tokens tree ∧ tree.isTarget = true

def WrittenOpen (alphabet : Alphabet) (rule : List Token → RawTree → Prop) (e : Expr)
    (text : String) : Prop :=
  openText e = .ok text ∧
    Worded alphabet isEnd rule (fun source tree => Reads source tree e) text.toList

theorem openText_written {rule rule' : List Token → RawTree → Prop} {e : Expr} {text : String}
    (written : WrittenAs alphabet rule e text)
    (items : ∀ es, e = .tuple es → ∀ item ∈ es, ∃ text, WrittenAs alphabet rule item text)
    (one : ∀ tokens tree, rule tokens tree → rule' tokens tree)
    (several : ∀ tokens tree, Several rule tokens tree → rule' tokens tree) :
    ∃ text, WrittenOpen alphabet rule' e text := by
  by_cases isOpen : ∃ first second rest, e = .tuple (first :: second :: rest)
  · obtain ⟨first, second, rest, rfl⟩ := isOpen
    obtain ⟨texts, printed, worded⟩ := exprTexts_written (items _ rfl)
    exact ⟨commaSeparated texts, by rw [openText, printed]; rfl, (worded_several worded).imp several⟩
  · refine ⟨text, ?_, written.2.imp one⟩
    have closed : openText e = exprText e := by
      unfold openText
      split
      next first second rest => exact absurd ⟨first, second, rest, rfl⟩ isOpen
      next => rfl
    rw [closed, written.1]

theorem Writable.writtenOpen {e : Expr} (writable : Writable alphabet .value e) :
    ∃ text, WrittenOpen alphabet Values e text := by
  obtain ⟨text, written⟩ := writable.written
  refine openText_written written ?_ (fun _ _ derives => .one derives)
    fun _ _ several => several.values fun _ _ derives => derives
  rintro es rfl item member
  cases writable with
  | tuple items => exact (items item member).written

theorem Assignable.writtenOpen {e : Expr} (assignable : Assignable alphabet e) :
    ∃ text, WrittenOpen alphabet TargetValues e text := by
  obtain ⟨text, written⟩ := assignable.written
  refine openText_written written ?_ (fun _ _ target => ⟨.one target.1, target.2⟩)
    fun _ _ several => ⟨several.values fun _ _ target => target.1, several.isTarget⟩
  rintro es rfl item member
  cases assignable with
  | tuple items => exact (items item member).written

end Targets

section Simple

def OnLine (alphabet : Alphabet) (s : Stmt) (text : String) : Prop :=
  Worded alphabet isEnd (fun tokens tree => ∃ lead, Simple lead tokens tree)
    (fun source tree => ReadsStmt source tree s) text.toList

theorem onLine_expression {e : Expr} {text : String}
    (written : WrittenAs alphabet (Derives (.at .or)) e text)
    (notPrint : ∀ args, e ≠ .call (.symbol (.plain "print")) args) :
    OnLine alphabet (.expression e) text :=
  written.2.map (fun tree => node "expression_statement" [tree])
    (fun _ _ derives => ⟨_, .expression derives⟩) fun _ _ reads => readsStmt_expression reads notPrint

theorem isName_print : IsName alphabet "print" :=
  @isWord_ascii alphabet 'p' ['r', 'i', 'n', 't'] (by decide) (by decide)

theorem onLine_print {items : List Expr} (writable : ∀ e ∈ items, Writable alphabet .value e) :
    ∃ texts, exprTexts items = .ok texts ∧
      OnLine alphabet (.print items) (callText "print" texts) := by
  obtain ⟨texts, printed, spelled⟩ := recovered_tuple fun e member => (writable e member).recovered
  have isCallee : IsCallee alphabet (.symbol (.plain "print")) := ⟨rfl, isName_print⟩
  refine ⟨texts, printed, fun start => ?_⟩
  obtain ⟨tokens, tree, head, segment, derives, call⟩ := spelled_callNode isCallee spelled start
  exact ⟨tokens, node "expression_statement" [tree], head, segment,
    ⟨_, .expression (.weaken (by decide) derives)⟩,
    fun source holds => readsStmt_print (call source holds)⟩

theorem isMarkTail_of_space (c : Char) (space : (c == ' ') = true) : (!isMarkTail c) = true := by
  rw [beq_iff_eq] at space
  rw [space]
  rfl

theorem onLine_assign {target value : Expr} {text text' : String}
    (left : WrittenOpen alphabet TargetValues target text)
    (right : WrittenOpen alphabet Values value text') :
    OnLine alphabet (.assign target value) (text ++ " = " ++ text') := by
  have whole : (text ++ " = " ++ text').toList =
      text.toList ++ ([' '] ++ ("=".toList ++ ([' '] ++ text'.toList))) := by
    simp
  rw [OnLine, whole]
  refine left.2.around (fun start => (segment_mark (by decide)).imp isMarkTail_of_space) (by decide)
    right.2 (fun tree token tree' => assignmentNode "assignment" tree token.leaf tree')
    (fun tokens tree token tokens' tree' target assigns values =>
      ⟨_, @Simple.assignment ⟨tokens, tree⟩ ⟨tokens', tree'⟩ _ target.1 target.2 assigns values⟩)
    fun source tree token tree' reads _ _ reads' => readsStmt_assignment reads reads'

theorem onLine_augmented {op : BinaryOperator} (arithmetic : op.isArithmetic = true)
    {target value : Expr} {text text' : String} (left : WrittenAs alphabet TargetItem target text)
    (right : WrittenAs alphabet (Derives (.at .or)) value text') :
    OnLine alphabet (.augAssign target op value) (text ++ " " ++ op.text ++ "= " ++ text') := by
  have whole : (text ++ " " ++ op.text ++ "= " ++ text').toList =
      text.toList ++ ([' '] ++ ((op.text ++ "=").toList ++ ([' '] ++ text'.toList))) := by
    simp
  have known : op.text ++ "=" ∈ augmentedMarks ∧ (op.text ++ "=").toList ∈ marks := by
    revert arithmetic
    cases op <;> decide
  rw [OnLine, whole]
  refine left.2.around (fun start => (segment_mark known.2).imp isMarkTail_of_space) (by simp)
    right.2 (fun tree token tree' => assignmentNode "augmented_assignment" tree
      (token.leaf.inField "operator") tree') (fun tokens tree token tokens' tree' target assigns derives =>
      ⟨_, @Simple.augmented ⟨tokens, tree⟩ ⟨tokens', tree'⟩ _ _ target.1 target.2 known.1 assigns
        (.one derives)⟩)
    fun source tree token tree' reads assigns holds reads' =>
      readsStmt_augmented arithmetic assigns holds reads reads'

theorem onLine_return {value : Expr} {text : String}
    (written : WrittenOpen alphabet Values value text) :
    OnLine alphabet (.returnValue value) ("return " ++ text) := by
  have whole : ("return " ++ text).toList = "return".toList ++ ([' '] ++ text.toList) := by
    simp
  rw [OnLine, whole]
  exact written.2.behind (by decide)
    (fun keyword tree => node "return_statement" [keyword.leaf, tree])
    (fun keyword tokens tree returns values =>
      ⟨_, @Simple.returned _ ⟨tokens, tree⟩ returns values⟩)
    fun source keyword tree returns _ reads => readsStmt_return returns reads

theorem onLine_pass : OnLine alphabet .pass "pass" :=
  fun start => ⟨_, _, ⟨'p', _, rfl, rfl⟩, segment_keyword (by decide), ⟨_, .pass (isMark_mk "pass" start)⟩,
    fun source _ => readsStmt_pass source _⟩

end Simple

section Imports

variable {target : ImportTarget} {more : List ImportTarget}

def ImportList (tokens : List Token) (tree : RawTree) : Prop :=
  ∃ chain : Chain Part, chain.IsSeries "," ImportItem ∧ tokens = (chain.map Part.tokens).tokens ∧
    tree.children = (chain.map Part.tree).nodes (RawTree.inField "name") id

def ReadsList (targets : List ImportTarget) (source : Source) (tree : RawTree) : Prop :=
  ∃ chain : Chain (RawTree × ImportTarget),
    (∀ token ∈ chain.separators, token.isMark "," = true) ∧
    (∀ item ∈ chain.items, ReadsTarget source item.2 item.1) ∧
    chain.items.map Prod.snd = targets ∧
    tree.children = (chain.map Prod.fst).nodes (RawTree.inField "name") id

def ImportTarget.IsNamed (alphabet : Alphabet) (target : ImportTarget) : Prop :=
  IsCallee alphabet target.name ∧ ∀ name ∈ target.asName, IsName alphabet name

theorem worded_importList (named : ∀ item ∈ target :: more, item.IsNamed alphabet) :
    Worded alphabet isEnd ImportList (ReadsList (target :: more))
      (commaSeparated ((target :: more).map targetText)).toList := by
  intro start
  have worded : List.Forall₂ (fun target text => Worded alphabet isEnd ImportItem
      (fun source tree => ReadsTarget source target tree) (String.toList text)) (target :: more)
      ((target :: more).map targetText) := by
    rw [List.forall₂_map_right_iff, List.forall₂_same]
    exact fun item member => worded_target (named item member).1 (named item member).2
  obtain ⟨chain, sequence⟩ := exists_commaSequence worded start
  refine ⟨_, node "" (((chain.map Prod.fst).map Part.tree).nodes (RawTree.inField "name") id),
    sequence.head, sequence.segment, ⟨chain.map Prod.fst, sequence.series, rfl, rfl⟩,
    fun source holds => ?_⟩
  obtain ⟨separates, reads, values⟩ := sequence.pairs holds
  exact ⟨readings chain, separates, reads, values, by rw [trees_readings]; rfl⟩

theorem onLine_import (named : ∀ item ∈ target :: more, item.IsNamed alphabet) :
    OnLine alphabet (.importNames ⟨none, target, more⟩) (importText ⟨none, target, more⟩) := by
  have whole : (importText ⟨none, target, more⟩).toList = "import".toList ++
      ([' '] ++ (commaSeparated ((target :: more).map targetText)).toList) := by
    simp [importText, Import.targets]
  rw [OnLine, whole]
  refine (worded_importList named).behind (by decide)
    (fun keyword list => node "import_statement" (keyword.leaf :: list.children)) ?_ ?_
  · rintro keyword _ tree imports ⟨chain, series, rfl, children⟩
    rw [children]
    exact ⟨_, .imports imports series⟩
  · rintro source keyword tree imports _ ⟨chain, separates, reads, values, children⟩
    rw [children]
    exact readsStmt_import imports separates reads values

theorem worded_source {name : Name} (isCallee : IsCallee alphabet name)
    (other : name ≠ .symbol (.plain "__future__")) :
    Worded alphabet isEnd
      (fun tokens tree => PathItem tokens tree ∧ tokens.map Token.text ≠ ["__future__".toList])
      (fun source tree => ReadsPath source name tree) name.text.toList := by
  intro start
  obtain ⟨tokens, tree, head, segment, isPath, reads⟩ := worded_path isCallee start
  exact ⟨tokens, tree, head, segment, ⟨isPath, not_future other segment.lexesAt isPath reads⟩, reads⟩

theorem worded_importFrom {name : Name} (isCallee : IsCallee alphabet name)
    (other : name ≠ .symbol (.plain "__future__"))
    (named : ∀ item ∈ target :: more, item.IsNamed alphabet) :
    Worded alphabet isEnd
      (fun tokens tree => ∀ keyword : Token, keyword.isMark "from" = true →
        ∃ lead, Simple lead (keyword :: tokens)
          (node "import_from_statement" (keyword.leaf :: tree.children)))
      (fun source tree => ∀ keyword : Token, keyword.isMark "from" = true → ReadsStmt source
        (node "import_from_statement" (keyword.leaf :: tree.children))
        (.importNames ⟨some name, target, more⟩))
      (name.text.toList ++ ([' '] ++ ("import".toList ++
        ([' '] ++ (commaSeparated ((target :: more).map targetText)).toList)))) := by
  have isEnd_space (c : Char) (space : (c == ' ') = true) : isEnd c = true := by
    rw [beq_iff_eq] at space
    rw [space]
    rfl
  refine (worded_source isCallee other).around
    (fun start => (segment_keyword (by decide)).imp isEnd_space) (by decide)
    (worded_importList named) (fun path keyword list => node ""
      (path.inField "module_name" :: keyword.leaf :: list.children)) ?_ ?_
  · rintro tokens path keyword' _ list ⟨isPath, notFuture⟩ imports ⟨chain, series, rfl, children⟩
      keyword starts
    have nodes : (node "" (path.inField "module_name" :: keyword'.leaf :: list.children)).children =
        path.inField "module_name" :: keyword'.leaf ::
          (chain.map Part.tree).nodes (RawTree.inField "name") id := by
      rw [children]
      rfl
    rw [nodes]
    exact ⟨_, @Simple.importsFrom _ _ ⟨tokens, path⟩ _ starts isPath notFuture imports series⟩
  · rintro source path keyword' list readsPath imports _ ⟨chain, separates, reads, values, children⟩
      keyword starts
    have nodes : (node "" (path.inField "module_name" :: keyword'.leaf :: list.children)).children =
        path.inField "module_name" :: keyword'.leaf ::
          (chain.map Prod.fst).nodes (RawTree.inField "name") id := by
      rw [children]
      rfl
    rw [nodes]
    exact readsStmt_importFrom starts readsPath imports separates reads values

theorem onLine_importFrom {name : Name} (isCallee : IsCallee alphabet name)
    (other : name ≠ .symbol (.plain "__future__"))
    (named : ∀ item ∈ target :: more, item.IsNamed alphabet) :
    OnLine alphabet (.importNames ⟨some name, target, more⟩)
      (importText ⟨some name, target, more⟩) := by
  have whole : (importText ⟨some name, target, more⟩).toList = "from".toList ++ ([' '] ++
      (name.text.toList ++ ([' '] ++ ("import".toList ++
        ([' '] ++ (commaSeparated ((target :: more).map targetText)).toList))))) := by
    simp [importText, Import.targets]
  rw [OnLine, whole]
  exact (worded_importFrom isCallee other named).behind (by decide)
    (fun keyword tree => node "import_from_statement" (keyword.leaf :: tree.children))
    (fun keyword tokens tree starts rule => rule keyword starts)
    fun source keyword tree starts _ reads => reads keyword starts

end Imports

end NumericPython

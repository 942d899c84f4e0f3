import NumericPython.Proofs.Printing.Blocks
import NumericPython.Proofs.Printing.OneLine

set_option autoImplicit false

namespace NumericPython

namespace Text

def first? (text : String) : Option Char :=
  text.toList.find? fun c => !isBlank c

@[simp] theorem first?_append (first second : String) :
    first? (first ++ second) = (first? first).or (first? second) := by
  simp [first?]

def opensComment (text : String) : Bool :=
  first? text == some '#'

/-- Whether the text is neither blank nor a comment. -/
def isCode (text : String) : Bool :=
  (first? text).any (· != '#')

theorem isCode_append {first : String} (code : isCode first = true) (second : String) :
    isCode (first ++ second) = true := by
  unfold isCode at code ⊢
  cases found : first? first with
  | none => simp [found] at code
  | some c => simpa [found] using code

theorem isCode_append_eq {first second : String}
    (visible : (first? first).isSome = true ∨ isCode second = true) :
    isCode (first ++ second) = !opensComment first := by
  -- What a text goes on with matters only if it is blank up to there.
  unfold isCode opensComment at *
  cases found : first? first with
  | none => simpa [found] using visible
  | some c => simp [found, bne]

end Text

open Text

namespace Expr

/-- Whether the text of the expression opens with a comment. Only a name can make it do so. -/
def opensComment : Expr → Bool
  | symbol s => Text.opensComment s.name
  | dotted name => Text.opensComment name.text
  | call callee _ => Text.opensComment callee.text
  | binary op left _ => !Precedence.wrapsLeft op left && left.opensComment
  | indexed base _ _ => !Precedence.wrapsBase base && base.opensComment
  | intrinsic .shape [array] | intrinsic .shape [array, _] =>
    !Precedence.wrapsBase array && array.opensComment
  | _ => false

end Expr

namespace Printing

theorem isCode_of_cons {text : String} {c : Char} {cs : List Char} (opens : text.toList = c :: cs)
    (visible : isBlank c = false) (plain : c ≠ '#') : isCode text = true := by
  simp [isCode, first?, opens, visible, plain]

theorem isCode_of_digits {cs rest : List Char} {text : String}
    (digits : Numeral.isDigits cs = true) (opens : text.toList = cs ++ rest) :
    isCode text = true := by
  obtain ⟨nonempty, all⟩ := Numeral.isDigits_iff.1 digits
  cases cs with
  | nil => contradiction
  | cons c cs =>
      have digit : c.isDigit = true := all c (List.mem_cons_self ..)
      apply isCode_of_cons opens
      · have range : 48 ≤ c.toNat ∧ c.toNat ≤ 57 := Char.isDigit_iff_toNat.1 digit
        simp [isBlank, blankRanges]
        omega
      · rintro rfl
        cases digit

theorem integer_isCode (value : Int64) : isCode (toString value.toInt) = true := by
  have digits := Decimal.isDigits_toDigits value.toInt.natAbs
  have text : (toString value.toInt).toList = value.toInt.repr.toList := rfl
  rw [Decimal.toList_repr_int] at text
  split at text
  · exact isCode_of_cons text (by decide) (by decide)
  · apply isCode_of_digits digits
    rw [text, List.append_nil]

theorem float_isCode {value : Binary64} {text : String} (written : floatText value = .ok text) :
    isCode text = true := by
  unfold floatText at written
  split at written
  next finite =>
    cases written
    have text := Binary64.text_of_finite finite
    have valid : value.numeral.Valid := (Decimal.numeral_valid _ _).1
    split at text
    · exact isCode_of_cons text (by decide) (by decide)
    · exact isCode_of_digits valid.whole text
  next => cases written

theorem isCode_callText {callee : String} {texts : List String} (after : String) :
    isCode (callText callee texts ++ after) = !Text.opensComment callee := by
  have bracket : isCode "(" = true := by decide
  simp only [callText, String.append_assoc]
  exact isCode_append_eq (.inr (isCode_append bracket _))

theorem first?_dotted (name : DottedName) : (first? name.text).isSome = true := by
  have dot : first? "." = some '.' := by decide
  obtain ⟨_ | ⟨part, _ | ⟨next, rest⟩⟩, two_le, _⟩ := name
  · contradiction
  · contradiction
  · simp [DottedName.text, joinWith_cons_cons, dot]

theorem operator_isCode (op : BinaryOperator) : isCode (" " ++ op.text) = true := by
  cases op <;> decide

theorem quoted_isCode (text : String) :
    isCode (String.ofList (Quoted.encode text.toList)) = true := by
  unfold Quoted.encode Quoted.delimiter
  -- The first character is one of the two quotes.
  split <;> exact isCode_of_cons String.toList_ofList (by decide) (by decide)

theorem isCode_parenthesized {wrap hash : Bool} {text after : String}
    (inner : isCode (text ++ after) = !hash) :
    isCode (parenthesized wrap text ++ after) = !(!wrap && hash) := by
  have bracket : isCode "(" = true := by decide
  cases wrap with
  | false => exact inner
  | true =>
      simp only [parenthesized, if_true, String.append_assoc]
      exact isCode_append bracket _

theorem isCode_intrinsicCall (function : IntrinsicFunction) (texts : List String) (after : String) :
    isCode (callText function.name texts ++ after) = true := by
  rw [isCode_callText]
  cases function with
  | math function => cases function <;> decide
  | _ => decide

theorem intrinsicText_isCode {function : IntrinsicFunction} {args : List Expr}
    {texts : List String} (written : exprTexts args = .ok texts)
    (parts : ∀ e ∈ args, ∀ {text : String}, exprText e = .ok text →
      ∀ {after : String}, isCode after = true → isCode (text ++ after) = !e.opensComment)
    (after : String) :
    isCode (intrinsicText function args texts ++ after) =
      !(Expr.intrinsic function args).opensComment := by
  have shape : isCode ".shape" = true := by decide
  have extent : isCode ".shape[" = true := by decide
  cases function with
  | shape =>
      -- With one or two arguments the text starts with the array, otherwise with the name.
      rcases args with _ | ⟨array, _ | ⟨axis, _ | ⟨more, rest⟩⟩⟩
      · cases written
        exact isCode_intrinsicCall .shape [] after
      · obtain ⟨text, _, arrayWritten, none, rfl⟩ := exprTexts_cons_ok.1 written
        cases none
        rw [intrinsicText, String.append_assoc]
        apply isCode_parenthesized
        exact parts array (List.mem_cons_self ..) arrayWritten (isCode_append shape after)
      · obtain ⟨text, _, arrayWritten, later, rfl⟩ := exprTexts_cons_ok.1 written
        obtain ⟨axisText, _, _, none, rfl⟩ := exprTexts_cons_ok.1 later
        cases none
        simp only [intrinsicText, String.append_assoc]
        apply isCode_parenthesized
        exact parts array (List.mem_cons_self ..) arrayWritten (isCode_append extent _)
      · obtain ⟨_, _, _, later, rfl⟩ := exprTexts_cons_ok.1 written
        obtain ⟨_, _, _, last, rfl⟩ := exprTexts_cons_ok.1 later
        obtain ⟨_, _, _, _, rfl⟩ := exprTexts_cons_ok.1 last
        exact isCode_intrinsicCall .shape _ after
  | _ => exact isCode_intrinsicCall _ texts after

theorem exprText_isCode : ∀ (e : Expr) {text : String}, exprText e = .ok text →
    ∀ {after : String}, isCode after = true ∨ (∀ s, e ≠ .symbol s) →
      isCode (text ++ after) = !e.opensComment
  -- Only of a symbol nothing may be seen, so that it matters what follows.
  | .integer value, _, written, after, _ => by
      cases written
      exact isCode_append (integer_isCode value) after
  | .float _, _, written, after, _ => isCode_append (float_isCode written) after
  | .complex _, _, written, after, _ => by
      obtain ⟨part, floatWritten, rfl⟩ := map_eq_ok.1 written
      rw [String.append_assoc]
      exact isCode_append (float_isCode floatWritten) _
  | .boolean value, _, written, after, _ => by
      cases written
      have constant : isCode (if value then "True" else "False") = true := by cases value <;> decide
      exact isCode_append constant after
  | .string text, _, written, after, _ => by
      cases written
      exact isCode_append (quoted_isCode text) after
  | .nil, _, written, after, _ => by
      cases written
      exact isCode_append (by decide) after
  | .symbol s, _, written, after, follows => by
      cases written
      -- A symbol may print as nothing, so the line is code by what follows.
      have code := follows.resolve_right fun other => other s rfl
      exact isCode_append_eq (.inr code)
  | .dotted name, _, written, after, _ => by
      cases written
      exact isCode_append_eq (.inl (first?_dotted name))
  | .tuple items, _, written, after, _ => by
      obtain ⟨texts, itemsWritten, rfl⟩ := map_eq_ok.1 written
      have bracket : isCode "(" = true := by decide
      unfold tupleText
      split <;> (simp only [String.append_assoc]; exact isCode_append bracket _)
  | .binary op left right, _, written, after, _ => by
      cases ExprForm.of_written written with
      | binary leftWritten rightWritten =>
          -- The left operand is followed by the operator, which is code.
          have sign := isCode_append (operator_isCode op)
          simp only [String.append_assoc] at sign ⊢
          apply isCode_parenthesized
          exact exprText_isCode left leftWritten (.inl (sign _))
  | .unary op operand, _, written, after, _ => by
      cases ExprForm.of_written written with
      | neg _ | not _ =>
          rw [String.append_assoc]
          exact isCode_append (by decide) _
  | .call callee args, _, written, after, _ => by
      obtain ⟨texts, argsWritten, rfl⟩ := map_eq_ok.1 written
      exact isCode_callText after
  | .range start stop step, _, written, after, _ => by
      cases ExprForm.of_written written
      exact isCode_callText after
  | .indexed base index more, _, written, after, _ => by
      cases ExprForm.of_written written with
      | indexed baseWritten _ _ =>
          have bracket : isCode "[" = true := by decide
          simp only [String.append_assoc]
          apply isCode_parenthesized
          exact exprText_isCode base baseWritten (.inl (isCode_append bracket _))
  | .slice _ _ _, _, written, _, _ => by cases written
  | .intrinsic function args, _, written, after, _ => by
      obtain ⟨texts, argsWritten, rfl⟩ := map_eq_ok.1 written
      exact intrinsicText_isCode argsWritten
        (fun e _ _ partWritten _ code => exprText_isCode e partWritten (.inl code)) after

end Printing

namespace Stmt

/-- Whether the statement puts a line on its own level that is neither blank nor a comment. -/
def printsCode : Stmt → Bool
  | comment _ | pragma _ _ | emptyLine => false
  | expression (.symbol s) => isCode s.name
  -- The parentheses of a tuple of several items are left out in front of an assignment.
  | assign (.tuple (first :: _ :: _)) _ => !first.opensComment
  | assign target _ | augAssign target _ _ | expression target => !target.opensComment
  | _ => true

def isEmptyLine : Stmt → Bool
  | emptyLine => true
  | _ => false

end Stmt

namespace Line

def isCodeOn (level : Nat) : Line → Bool
  | blank => false
  | text inner content => inner == level && isCode content

inductive Begins (level : Nat) : Bool → Bool → List Line → Prop
  | blank : Begins level true false [.blank]
  | single (content : String) : Begins level false (isCode content) [.text level content]
  | header {content : String} (code : isCode content = true) (rest : List Line) :
    Begins level false true (.text level content :: rest)

variable {level : Nat} {code : Bool} {lines : List Line}

theorem Begins.any_isCodeOn {empty : Bool} (begins : Begins level empty code lines) :
    lines.any (isCodeOn level) = code := by
  cases begins with
  | blank => rfl
  | single content => simp [isCodeOn]
  | header isHeader rest => simp [isCodeOn, isHeader]

theorem Begins.filled (begins : Begins level false code lines) : lines.all isBlank = false := by
  cases begins <;> rfl

theorem Begins.append {empty : Bool} (begins : Begins level empty code lines) (visible : code = true)
    (others : List Line) : Begins level empty code (lines ++ others) := by
  cases begins with
  | blank => contradiction
  | single content =>
      rw [visible]
      exact .header visible others
  | header isHeader rest => exact .header isHeader (rest ++ others)

end Line

namespace Printing

open Line

theorem openText_isCode {target : Expr} {text : String} (written : openText target = .ok text)
    {after : String} (code : isCode after = true) (value : Expr) :
    isCode (text ++ after) = (Stmt.assign target value).printsCode := by
  unfold openText at written
  split at written
  next first second rest =>
    obtain ⟨texts, itemsWritten, rfl⟩ := map_eq_ok.1 written
    obtain ⟨firstText, _, firstWritten, later, rfl⟩ := exprTexts_cons_ok.1 itemsWritten
    obtain ⟨_, _, _, _, rfl⟩ := exprTexts_cons_ok.1 later
    have comma : isCode ", " = true := by decide
    simp only [commaSeparated, joinWith_cons_cons, String.append_assoc]
    exact exprText_isCode first firstWritten (.inl (isCode_append comma _))
  next single =>
    have whole : (Stmt.assign target value).printsCode = !target.opensComment := by
      cases target with
      | tuple items =>
          rcases items with _ | ⟨first, _ | ⟨second, rest⟩⟩
          · rfl
          · rfl
          · exact absurd rfl (single first second rest)
      | _ => rfl
    rw [whole]
    exact exprText_isCode target written (.inl code)

theorem commentLine_notCode (text : String) : isCode (commentLine text) = false := by
  have hash : first? "# " = some '#' := by decide
  unfold commentLine
  split
  · decide
  · simp [isCode, hash]

theorem pragmaText_notCode (family : PragmaFamily) (clauses : List String) :
    isCode (pragmaText family clauses) = false := by
  have hash : first? "#$ " = some '#' := by decide
  simp [isCode, pragmaText, joinWith_cons_cons, hash]

theorem branchLines_begins {level : Nat} {keyword : String} (code : isCode keyword = true)
    {branch : Branch} {lines : List Line}
    (written : branchLines level keyword branch = .ok lines) : Begins level false true lines := by
  obtain ⟨condition, body, _, _, rfl⟩ := branchLines_ok.1 written
  rw [String.append_assoc]
  exact .header (isCode_append code _) _

theorem decoratorText_isCode {decorator : String × List Expr} {text : String}
    (written : decoratorText decorator = .ok text) : isCode text = true := by
  have sign : isCode "@" = true := by decide
  unfold decoratorText at written
  split at written
  · cases written
    exact isCode_append sign _
  · obtain ⟨texts, _, rfl⟩ := map_eq_ok.1 written
    exact isCode_append sign _

theorem functionLines_begins {level : Nat} {definition : FunctionDef} {lines : List Line}
    (written : functionLines level definition = .ok lines) : Begins level false true lines := by
  obtain ⟨decorators, parameters, body, decoratorsWritten, _, _, rfl⟩ := functionLines_ok.1 written
  cases decorators with
  | nil =>
      rw [String.append_assoc]
      exact .header (isCode_append (by decide) _) _
  | cons text rest =>
      obtain ⟨decorator, _, textWritten⟩ := mem_of_mapM decoratorsWritten (List.mem_cons_self ..)
      exact .header (decoratorText_isCode textWritten) _

theorem importText_isCode (item : Import) : isCode (importText item) = true := by
  unfold importText
  split
  · simp only [String.append_assoc]
    exact isCode_append (by decide) _
  · exact isCode_append (by decide) _

theorem callText_isCode {callee : String} (code : isCode callee = true) (texts : List String) :
    isCode (callText callee texts) = true := by
  simp only [callText, String.append_assoc]
  exact isCode_append code _

theorem LineForm.isCode_eq {s : Stmt} {text : String} (form : LineForm s text) :
    isCode text = s.printsCode := by
  -- A name decides only in front of an assignment and where it is the whole statement.
  cases form with
  | @assign target value _ valueText targetWritten _ =>
      have sign : isCode " = " = true := by decide
      rw [String.append_assoc]
      exact openText_isCode targetWritten (isCode_append sign valueText) value
  | @augAssign target op value _ valueText targetWritten _ =>
      have sign := isCode_append (operator_isCode op) ("= " ++ valueText)
      simp only [String.append_assoc] at sign ⊢
      exact exprText_isCode target targetWritten (.inl sign)
  | returnValue _ => exact isCode_append (by decide) _
  | print _ => exact callText_isCode (by decide) _
  | comment text => exact commentLine_notCode text
  | pragma family clauses => exact pragmaText_notCode family clauses
  | pass => decide
  | importNames item => exact importText_isCode item
  | @expression value _ valueWritten =>
      by_cases isSymbol : ∃ s, value = .symbol s
      · obtain ⟨s, rfl⟩ := isSymbol
        cases valueWritten
        rfl
      · have others : (Stmt.expression value).printsCode = !value.opensComment := by
          cases value with
          | symbol s => exact absurd ⟨s, rfl⟩ isSymbol
          | _ => rfl
        -- Nothing comes after the text, so that it is code on its own.
        have code := @exprText_isCode value _ valueWritten ""
          (.inr fun s same => isSymbol ⟨s, same⟩)
        rwa [String.append_empty, ← others] at code

theorem LineForm.isEmptyLine_eq {s : Stmt} {text : String} (form : LineForm s text) :
    s.isEmptyLine = false := by
  cases form <;> rfl

theorem stmtLines_begins {level : Nat} {s : Stmt} {lines : List Line}
    (written : stmtLines level s = .ok lines) : Begins level s.isEmptyLine s.printsCode lines := by
  cases StmtForm.of_written written with
  | line form =>
      rw [← form.isCode_eq, form.isEmptyLine_eq]
      exact .single _
  | emptyLine => exact .blank
  | conditional firstWritten _ _ =>
      rw [List.append_assoc]
      exact (branchLines_begins (by decide) firstWritten).append rfl _
  | always _ => exact .header (by decide) _
  | forLoop _ _ _ =>
      simp only [String.append_assoc]
      exact .header (isCode_append (by decide) _) _
  | whileLoop _ _ =>
      rw [String.append_assoc]
      exact .header (isCode_append (by decide) _) _
  | functionDef written => exact functionLines_begins written
  | classDef _ =>
      rw [String.append_assoc]
      exact .header (isCode_append (by decide) _) _

end Printing

end NumericPython

import NumericPython.Lowering.Expr
import NumericPython.Printing.Expr
import NumericPython.Proofs.Grammar.Spelling

set_option autoImplicit false

namespace NumericPython

namespace Quoted

/-- What is left behind the first `quote` that no backslash takes along. -/
def afterClosing? (quote : Char) : List Char → Option (List Char)
  | [] => none
  | '\\' :: _ :: cs => afterClosing? quote cs
  | c :: cs => if c = quote then some cs else afterClosing? quote cs

theorem afterClosing?_cons {quote c : Char} (notBackslash : c ≠ '\\') (cs : List Char) :
    afterClosing? quote (c :: cs) = if c = quote then some cs else afterClosing? quote cs :=
  afterClosing?.eq_3 quote c cs fun _ _ same _ => notBackslash same

theorem afterClosing?_content {quote : Char} (isQuote : isQuote quote = true) {content : List Char}
    (inside : Grammar.IsContent quote content) (rest : List Char) :
    afterClosing? quote (content ++ quote :: rest) = some rest := by
  induction inside with
  | nil =>
      have notBackslash : quote ≠ '\\' := by
        rintro rfl
        cases isQuote
      rw [List.nil_append, afterClosing?_cons notBackslash, if_pos rfl]
  | plain other notBackslash _ _ ih =>
      rw [List.cons_append, afterClosing?_cons notBackslash, if_neg other, ih]
  | escape _ _ ih => exact ih

theorem isControl_hexDigit {n : Nat} (small : n < 16) : isControl (hexDigit n) = false := by
  have all : ∀ i : Fin 16, isControl (hexDigit i.val) = false := by decide
  exact all ⟨n, small⟩

theorem not_control_escape {d : Char} (visible : isControl d = false) :
    ∀ e ∈ ['\\', d], isControl e = false := by
  have backslash : isControl '\\' = false := by decide
  simp [backslash, visible]

theorem not_control_encodeChar {quote : Char} (visible : isControl quote = false) (c : Char) :
    ∀ d ∈ encodeChar quote c, isControl d = false := by
  unfold encodeChar
  split_ifs with _ _ _ _ same control
  · exact not_control_escape (by decide)
  · exact not_control_escape (by decide)
  · exact not_control_escape (by decide)
  · exact not_control_escape (by decide)
  · apply not_control_escape
    rwa [same]
  · have small := isControl_lt control
    have high := @isControl_hexDigit (c.toNat / 16) (by omega)
    have low := @isControl_hexDigit (c.toNat % 16) (by omega)
    simp +decide [high, low]
  · simpa using control

theorem not_control_encode (text : List Char) : ∀ c ∈ encode text, isControl c = false := by
  have visible : isControl (delimiter text) = false := by
    unfold delimiter
    split <;> rfl
  intro c member
  simp only [encode, List.cons_append, List.mem_cons, List.mem_append, List.mem_flatMap,
    List.not_mem_nil, or_false] at member
  rcases member with rfl | ⟨d, _, inside⟩ | rfl
  · exact visible
  · exact not_control_encodeChar visible d c inside
  · exact visible

theorem not_triple_encode (text : List Char) :
    ¬ [delimiter text, delimiter text, delimiter text] <+: encode text := by
  have head := head_encodeChars (delimiter_isQuote text) text
  rw [encode]
  -- Nothing stands between the quotes of the empty string, and what stands there begins otherwise.
  generalize text.flatMap (encodeChar (delimiter text)) = content at head
  cases content with
  | nil => simp
  | cons c cs => simp [Ne.symm (head c rfl)]

end Quoted

open Quoted

/-- The literal of a string holds no line break nor any other control character; it opens with one
quote and not with three, and the first such quote behind the opening one that no backslash takes
along is its last character. Lowering reads the string back from it. -/
theorem string_literal_reads_back (text : String) :
    ∃ literal quote body,
      Printing.exprText (.string text) = .ok literal ∧
      literal.toList = quote :: body ∧
      isQuote quote = true ∧
      ('\n' ∉ literal.toList ∧ '\r' ∉ literal.toList ∧ ∀ c ∈ literal.toList, isControl c = false) ∧
      ¬ [quote, quote, quote] <+: literal.toList ∧
      (∀ rest, afterClosing? quote (body ++ rest) = some rest) ∧
      ∀ span field children,
        Lowering.lowerExpr ⟨.string, span, literal, field, children⟩ = .ok (.string text) := by
  have visible := not_control_encode text.toList
  have isQuote := delimiter_isQuote text.toList
  have inside := Grammar.isContent_encodeChars isQuote text.toList
  refine ⟨String.ofList (encode text.toList), delimiter text.toList,
    text.toList.flatMap (encodeChar (delimiter text.toList)) ++ [delimiter text.toList], rfl, ?_,
    isQuote, ?_, ?_, ?_, ?_⟩
  · rw [String.toList_ofList]
    rfl
  · rw [String.toList_ofList]
    exact ⟨fun feed => absurd (visible _ feed) (by decide),
      fun carriage => absurd (visible _ carriage) (by decide), visible⟩
  · rw [String.toList_ofList]
    exact not_triple_encode text.toList
  · intro rest
    rw [List.append_assoc, List.singleton_append]
    exact afterClosing?_content isQuote inside rest
  · intro span field children
    rw [Lowering.lowerExpr, Lowering.lowerString, String.toList_ofList, read_encode]
    simp only [String.ofList_toList]

-- A quote of each kind, a backslash at the end, and a control character in front of a digit.
example : Printing.exprText (.string "\"'\x011\\") = .ok "\"\\\"'\\x011\\\\\"" := by decide

end NumericPython

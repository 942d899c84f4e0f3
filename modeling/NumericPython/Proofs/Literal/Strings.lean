import NumericPython.Literal.Quoted

set_option autoImplicit false

namespace NumericPython.Quoted

def isQuote (c : Char) : Bool :=
  c = '"' || c = '\''

theorem delimiter_isQuote (text : List Char) : isQuote (delimiter text) = true := by
  unfold delimiter
  split <;> rfl

theorem hexValue?_hexDigit {n : Nat} (small : n < 16) : hexValue? (hexDigit n) = some n := by
  have all : ∀ i : Fin 16, hexValue? (hexDigit i.val) = some i.val := by decide
  exact all ⟨n, small⟩

theorem finish_toNat (c : Char) (next : State) : finish c.toNat next = .ok ([c], next) := by
  have valid : c.toNat.isValidChar := c.valid
  simp [finish, charOfCode?, valid, Char.ofNat_toNat]

theorem decodeFrom_of_step {state next : State} {c : Char} {out rest : List Char}
    (done : step state c = .ok (out, next)) :
    decodeFrom state (c :: rest) = (decodeFrom next rest).map (out ++ ·) := by
  rw [decodeFrom, done]
  rfl

theorem isControl_lt {c : Char} (control : isControl c = true) : c.toNat < 160 := by
  simp only [isControl, Bool.or_eq_true, Bool.and_eq_true, decide_eq_true_eq] at control
  omega

theorem decodeFrom_code {c : Char} (control : isControl c = true) (rest : List Char) :
    decodeFrom .plain ('\\' :: 'x' :: hexDigit (c.toNat / 16) :: hexDigit (c.toNat % 16) :: rest) =
      (decodeFrom .plain rest).map ([c] ++ ·) := by
  have small := isControl_lt control
  have high := @hexValue?_hexDigit (c.toNat / 16) (by omega)
  have low := @hexValue?_hexDigit (c.toNat % 16) (by omega)
  have code : 16 * (16 * 0 + c.toNat / 16) + c.toNat % 16 = c.toNat := by omega
  have first : step .plain '\\' = .ok ([], .escaped) := rfl
  have second : step .escaped 'x' = .ok ([], .hex 1 0) := rfl
  have third : step (.hex 1 0) (hexDigit (c.toNat / 16)) =
      .ok ([], .hex 0 (16 * 0 + c.toNat / 16)) := by
    simp only [step, high]
  have fourth : step (.hex 0 (16 * 0 + c.toNat / 16)) (hexDigit (c.toNat % 16)) =
      .ok ([c], .plain) := by
    simp only [step, low, code, finish_toNat]
  rw [decodeFrom_of_step first, decodeFrom_of_step second, decodeFrom_of_step third,
    decodeFrom_of_step fourth]
  cases decodeFrom .plain rest <;> rfl

theorem decodeFrom_pair {c out : Char} (meaning : escape c = .ok ([out], .plain))
    (rest : List Char) :
    decodeFrom .plain ('\\' :: c :: rest) = (decodeFrom .plain rest).map ([out] ++ ·) := by
  have first : step .plain '\\' = .ok ([], .escaped) := rfl
  rw [decodeFrom_of_step first, decodeFrom_of_step (show step .escaped c = _ from meaning)]
  cases decodeFrom .plain rest <;> rfl

theorem decodeFrom_encodeChar {quote : Char} (isQuote : isQuote quote = true) (c : Char)
    (rest : List Char) :
    decodeFrom .plain (encodeChar quote c ++ rest) =
      (decodeFrom .plain rest).map ([c] ++ ·) := by
  unfold encodeChar
  split
  next same => rw [same]; exact decodeFrom_pair rfl rest
  next notBackslash =>
    split
    next same => rw [same]; exact decodeFrom_pair rfl rest
    next =>
    split
    next same => rw [same]; exact decodeFrom_pair rfl rest
    next =>
    split
    next same => rw [same]; exact decodeFrom_pair rfl rest
    next =>
    split
    next same =>
      refine decodeFrom_pair ?_ rest
      simp only [Quoted.isQuote, Bool.or_eq_true, decide_eq_true_eq] at isQuote
      rcases isQuote with delimiter | delimiter <;> rw [same, delimiter] <;> rfl
    next =>
    split
    next control => exact decodeFrom_code control rest
    next =>
      refine decodeFrom_of_step ?_
      simp [step, plainStep, notBackslash]

theorem decode_encodeChars {quote : Char} (isQuote : isQuote quote = true) (text : List Char) :
    decode (text.flatMap (encodeChar quote)) = .ok text := by
  unfold decode
  induction text with
  | nil => rfl
  | cons c cs ih =>
      rw [List.flatMap_cons, decodeFrom_encodeChar isQuote, ih]
      rfl

theorem head_encodeChars {quote : Char} (isQuote : isQuote quote = true) (text : List Char) :
    ∀ c ∈ (text.flatMap (encodeChar quote)).head?, c ≠ quote := by
  have backslash : '\\' ≠ quote := by
    rintro rfl
    cases isQuote
  cases text with
  | nil => simp
  | cons d ds =>
      rw [List.flatMap_cons]
      unfold encodeChar
      repeat' split
      all_goals simp_all

theorem between?_of_other {quote c : Char} {cs : List Char} (other : quote ≠ c)
    (more : List Char) : between? (quote :: more) (c :: cs) = none := by
  simp [between?, other]

theorem between?_three {quote : Char} {content : List Char}
    (head : ∀ c ∈ content.head?, c ≠ quote) :
    between? [quote, quote, quote] (quote :: content ++ [quote]) = none := by
  cases content with
  | nil => simp [between?, List.isPrefixOf]
  | cons c cs =>
      have other : quote ≠ c := Ne.symm (head c rfl)
      simp [between?, other]

theorem between?_one (quote : Char) (content : List Char) :
    between? [quote] (quote :: content ++ [quote]) = some content := by
  have ends : [quote].isSuffixOf (content ++ [quote]) = true := by
    rw [List.isSuffixOf_iff_suffix]
    exact List.suffix_append ..
  simp [between?, ends]

theorem findSome?_quotes {quote : Char} (isQuote : isQuote quote = true) {content : List Char}
    (head : ∀ c ∈ content.head?, c ≠ quote) :
    quotes.findSome? (between? · (quote :: content ++ [quote])) = some content := by
  have three := between?_three head
  have one := between?_one quote content
  simp only [Quoted.isQuote, Bool.or_eq_true, decide_eq_true_eq] at isQuote
  rcases isQuote with rfl | rfl
  · have single := @between?_of_other '\'' '"' (content ++ ['"']) (by decide) ['\'', '\'']
    simp only [quotes, List.findSome?_cons, three]
    simp only [List.cons_append] at one single ⊢
    simp only [single, one]
  · have double := @between?_of_other '"' '\'' (content ++ ['\'']) (by decide)
    simp only [quotes, List.findSome?_cons, three]
    simp only [List.cons_append] at one double ⊢
    simp only [double, one]

theorem read_encode (text : List Char) : read (encode text) = .ok text := by
  have isQuote := delimiter_isQuote text
  have found := findSome?_quotes isQuote (head_encodeChars isQuote text)
  have decoded := decode_encodeChars isQuote text
  unfold read encode
  have quoted : (decide (delimiter text = '"') || decide (delimiter text = '\'')) = true := isQuote
  simp only [List.cons_append] at found ⊢
  simp only [List.takeWhile_cons, List.dropWhile_cons, quoted, Bool.not_true, Bool.false_eq_true,
    if_false, List.isEmpty_cons, decide_true, Bool.true_or, if_true, found, decoded]

end NumericPython.Quoted

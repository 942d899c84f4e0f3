import NumericPython.Dump.Json
import NumericPython.Literal.Quoted
import NumericPython.Proofs.Dump.Numbers
import NumericPython.Proofs.Grammar.Spelling
import NumericPython.Proofs.Lists

set_option autoImplicit false

namespace NumericPython.Json

section Strings

def meaning (c : Char) : Char :=
  if c = 'b' then '\x08'
  else if c = 'f' then '\x0c'
  else if c = 'n' then '\n'
  else if c = 'r' then '\r'
  else if c = 't' then '\t'
  else c

def readChar? : List Char → Option (Char × List Char)
  | '\\' :: 'u' :: '0' :: '0' :: high :: low :: rest => do
    let first ← Quoted.hexValue? high
    let second ← Quoted.hexValue? low
    some (Char.ofNat (16 * first + second), rest)
  | '\\' :: c :: rest => some (meaning c, rest)
  | c :: rest => some (c, rest)
  | [] => none

theorem hexValue?_digitChar {n : Nat} (small : n < 16) :
    Quoted.hexValue? (Nat.digitChar n) = some n := by
  have all : ∀ i : Fin 16, Quoted.hexValue? (Nat.digitChar i.val) = some i.val := by decide
  exact all ⟨n, small⟩

theorem readChar?_control {c : Char} (control : c.toNat < 0x20) (rest : List Char) :
    readChar? ('\\' :: 'u' :: '0' :: '0' :: Nat.digitChar (c.toNat / 16) ::
      Nat.digitChar (c.toNat % 16) :: rest) = some (c, rest) := by
  have high := hexValue?_digitChar (n := c.toNat / 16) (by omega)
  have low := hexValue?_digitChar (n := c.toNat % 16) (by omega)
  have code : 16 * (c.toNat / 16) + c.toNat % 16 = c.toNat := by omega
  simp [readChar?, high, low, code, Char.ofNat_toNat]

theorem readChar?_plain {c : Char} (plain : c ≠ '\\') (rest : List Char) :
    readChar? (c :: rest) = some (c, rest) := by
  rw [readChar?.eq_def]
  split <;> simp_all

theorem readChar?_escapeChar (c : Char) (rest : List Char) :
    readChar? (escapeChar c ++ rest) = some (c, rest) := by
  unfold escapeChar
  by_cases quote : c = '"'
  · subst quote; rfl
  by_cases backslash : c = '\\'
  · subst backslash; rfl
  by_cases backspace : c = '\x08'
  · subst backspace; rfl
  by_cases formFeed : c = '\x0c'
  · subst formFeed; rfl
  by_cases lineFeed : c = '\n'
  · subst lineFeed; rfl
  by_cases carriageReturn : c = '\r'
  · subst carriageReturn; rfl
  by_cases tab : c = '\t'
  · subst tab; rfl
  simp only [quote, backslash, backspace, formFeed, lineFeed, carriageReturn, tab, if_false]
  split
  next control => exact readChar?_control control rest
  next => exact readChar?_plain backslash rest

theorem escapeChar_cons (c : Char) : ∃ first more, escapeChar c = first :: more ∧ first ≠ '"' := by
  unfold escapeChar
  by_cases quote : c = '"'
  · exact ⟨'\\', ['"'], if_pos quote, by decide⟩
  · rw [if_neg quote]
    repeat' split
    all_goals first | exact ⟨_, _, rfl, by decide⟩ | exact ⟨_, _, rfl, quote⟩

theorem escaped_unique {cs ds r s : List Char}
    (same : cs.flatMap escapeChar ++ '"' :: r = ds.flatMap escapeChar ++ '"' :: s) :
    cs = ds ∧ r = s := by
  induction cs generalizing ds with
  | nil =>
      cases ds with
      | nil => exact ⟨rfl, (List.cons.inj same).2⟩
      | cons d ds =>
          obtain ⟨first, more, written, other⟩ := escapeChar_cons d
          rw [List.flatMap_cons, written] at same
          exact absurd (List.cons.inj same).1.symm other
  | cons c cs ih =>
      cases ds with
      | nil =>
          obtain ⟨first, more, written, other⟩ := escapeChar_cons c
          rw [List.flatMap_cons, written] at same
          exact absurd (List.cons.inj same).1 other
      | cons d ds =>
          have read := congrArg readChar? same
          rw [List.flatMap_cons, List.flatMap_cons, List.append_assoc, List.append_assoc,
            readChar?_escapeChar, readChar?_escapeChar, Option.some.injEq, Prod.mk.injEq] at read
          obtain ⟨rfl, later⟩ := read
          obtain ⟨rfl, rest⟩ := ih later
          exact ⟨rfl, rest⟩

theorem quoted_unique {a b : String} {r s : List Char}
    (same : (quoted a).toList ++ r = (quoted b).toList ++ s) : a = b ∧ r = s := by
  simp only [quoted, String.toList_ofList, List.cons_append, List.append_assoc, List.cons.injEq,
    true_and, List.nil_append] at same
  obtain ⟨chars, rest⟩ := escaped_unique same
  exact ⟨String.toList_inj.1 chars, rest⟩

end Strings

section Numbers

def Ends (rest : List Char) : Prop :=
  -- What may follow the text of a value inside of another one.
  ∀ c ∈ rest.head?, c = ',' ∨ c = ']' ∨ c = '\x7d'

theorem Ends.not_number {rest : List Char} (ends : Ends rest) :
    ∀ c ∈ rest.head?, isNumberChar c = false := by
  intro c first
  rcases ends c first with rfl | rfl | rfl <;> rfl

theorem number_unique {a b : String} {r s : List Char}
    (all : ∀ c ∈ a.toList, isNumberChar c = true) (all' : ∀ c ∈ b.toList, isNumberChar c = true)
    (ends : Ends r) (ends' : Ends s) (same : a.toList ++ r = b.toList ++ s) : a = b ∧ r = s := by
  -- Both numbers are read up to the first character that is in no number.
  have chars : a.toList = b.toList := by
    rw [← takeWhile_append_stop all ends.not_number, same,
      takeWhile_append_stop all' ends'.not_number]
  rw [chars] at same
  exact ⟨String.toList_inj.1 chars, List.append_cancel_left same⟩

end Numbers

/-- The text of `x` is that of no other valid value, whatever follows. -/
def TellsApart {α : Type} (valid : α → Prop) (text : α → List Char) (x : α) : Prop :=
  ∀ y, valid y → ∀ r s, Ends r → Ends s → text x ++ r = text y ++ s → x = y ∧ r = s

section Lists

variable {α : Type} {valid : α → Prop} {text : α → List Char} {xs ys : List α} {close : Char}
  {r s : List Char}

def listText (text : α → List Char) : List α → List Char
  | [] => []
  | x :: rest => text x ++ rest.flatMap fun y => ',' :: text y

theorem toList_joinWith_comma (write : α → String) (xs : List α) :
    (Text.joinWith "," (xs.map write)).toList = listText (fun x => (write x).toList) xs := by
  cases xs with
  | nil => rfl
  | cons x rest =>
      rw [List.map_cons, Grammar.toList_joinWith, listText, List.flatMap_map]
      rfl

theorem ends_more (isClose : close = ']' ∨ close = '\x7d') (rest : List α) :
    Ends ((rest.flatMap fun y => ',' :: text y) ++ close :: r) := by
  intro c first
  cases rest with
  | nil =>
      obtain rfl : close = c := by simpa using first
      exact .inr isClose
  | cons y rest =>
      obtain rfl : ',' = c := by simpa using first
      exact .inl rfl

theorem more_unique (isClose : close = ']' ∨ close = '\x7d')
    (each : ∀ x ∈ xs, TellsApart valid text x) (valids : ∀ y ∈ ys, valid y)
    (same : (xs.flatMap fun x => ',' :: text x) ++ close :: r =
      (ys.flatMap fun y => ',' :: text y) ++ close :: s) : xs = ys ∧ r = s := by
  have notComma : close ≠ ',' := by rcases isClose with rfl | rfl <;> decide
  induction xs generalizing ys with
  | nil =>
      cases ys with
      | nil => exact ⟨rfl, (List.cons.inj same).2⟩
      | cons y ys => exact absurd (List.cons.inj same).1 notComma
  | cons x xs ih =>
      cases ys with
      | nil => exact absurd (List.cons.inj same).1.symm notComma
      | cons y ys =>
          simp only [List.flatMap_cons, List.cons_append, List.append_assoc, List.cons.injEq,
            true_and] at same
          obtain ⟨rfl, later⟩ := each x (List.mem_cons_self ..) y (valids y (List.mem_cons_self ..))
            _ _ (ends_more isClose xs) (ends_more isClose ys) same
          obtain ⟨rfl, rest⟩ := ih (fun z member => each z (List.mem_cons_of_mem _ member))
            (fun z member => valids z (List.mem_cons_of_mem _ member)) later
          exact ⟨rfl, rest⟩

theorem listText_unique (isClose : close = ']' ∨ close = '\x7d')
    (each : ∀ x ∈ xs, TellsApart valid text x) (valids : ∀ x ∈ xs, valid x)
    (valids' : ∀ y ∈ ys, valid y) (opens : ∀ x, valid x → ∃ c cs, text x = c :: cs ∧ c ≠ close)
    (same : listText text xs ++ close :: r = listText text ys ++ close :: s) : xs = ys ∧ r = s := by
  cases xs with
  | nil =>
      cases ys with
      | nil => exact ⟨rfl, (List.cons.inj same).2⟩
      | cons y ys =>
          obtain ⟨c, cs, written, other⟩ := opens y (valids' y (List.mem_cons_self ..))
          rw [listText, listText, written] at same
          exact absurd (List.cons.inj same).1.symm other
  | cons x xs =>
      cases ys with
      | nil =>
          obtain ⟨c, cs, written, other⟩ := opens x (valids x (List.mem_cons_self ..))
          rw [listText, listText, written] at same
          exact absurd (List.cons.inj same).1 other
      | cons y ys =>
          rw [listText, listText, List.append_assoc, List.append_assoc] at same
          obtain ⟨rfl, later⟩ := each x (List.mem_cons_self ..) y (valids' y (List.mem_cons_self ..))
            _ _ (ends_more isClose xs) (ends_more isClose ys) same
          obtain ⟨rfl, rest⟩ := more_unique isClose
            (fun z member => each z (List.mem_cons_of_mem _ member))
            (fun z member => valids' z (List.mem_cons_of_mem _ member)) later
          exact ⟨rfl, rest⟩

end Lists

/-- All floating point numbers in the value are finite. -/
inductive FiniteNumbers : Json → Prop
  | null : FiniteNumbers .null
  | boolean (value : Bool) : FiniteNumbers (.boolean value)
  | integer (value : Int) : FiniteNumbers (.integer value)
  | float {value : Binary64} (finite : value.isFinite = true) : FiniteNumbers (.float value)
  | string (text : String) : FiniteNumbers (.string text)
  | array {items : List Json} (each : ∀ item ∈ items, FiniteNumbers item) :
      FiniteNumbers (.array items)
  | object {members : List (String × Json)} (each : ∀ member ∈ members, FiniteNumbers member.2) :
      FiniteNumbers (.object members)

section Values

inductive Lead where
  | null
  | boolean
  | number
  | string
  | array
  | object

def lead : Json → Lead
  | null => .null
  | boolean _ => .boolean
  | integer _ | float _ => .number
  | string _ => .string
  | array _ => .array
  | object _ => .object

def leadOf (c : Char) : Lead :=
  if c = 'n' then .null
  else if c = 't' ∨ c = 'f' then .boolean
  else if c = '"' then .string
  else if c = '[' then .array
  else if c = '\x7b' then .object
  else .number

theorem compactItems_eq (items : List Json) : compactItems items = items.map compact := by
  induction items <;> simp_all [compactItems]

def memberText (member : String × Json) : List Char :=
  (quoted member.1).toList ++ ':' :: (compact member.2).toList

theorem memberText_cons (member : String × Json) : ∃ cs, memberText member = '"' :: cs := by
  simp only [memberText, quoted, String.toList_ofList, List.cons_append, List.cons.injEq, true_and,
    exists_eq']

theorem compactMembers_eq (members : List (String × Json)) :
    (Text.joinWith "," (compactMembers members)).toList = listText memberText members := by
  have each : compactMembers members =
      members.map fun member => quoted member.1 ++ ":" ++ compact member.2 := by
    induction members <;> simp_all [compactMembers]
  have text : (fun member : String × Json => (quoted member.1 ++ ":" ++ compact member.2).toList) =
      memberText := by
    funext member
    simp [memberText]
  rw [each, toList_joinWith_comma, text]

theorem toList_array (items : List Json) :
    (compact (array items)).toList =
      '[' :: (listText (fun item => (compact item).toList) items ++ [']']) := by
  rw [compact, compactItems_eq, String.toList_append, String.toList_append, toList_joinWith_comma]
  rfl

theorem toList_object (members : List (String × Json)) :
    (compact (object members)).toList = '\x7b' :: (listText memberText members ++ ['\x7d']) := by
  rw [compact, String.toList_append, String.toList_append, compactMembers_eq]
  rfl

theorem leadOf_number {c : Char} (number : isNumberChar c = true) :
    leadOf c = .number ∧ c ≠ ']' := by
  have other {d : Char} (mark : isNumberChar d = false) : c ≠ d := by
    rintro rfl
    rw [mark] at number
    cases number
  refine ⟨?_, other rfl⟩
  rw [leadOf, if_neg (other rfl), if_neg (not_or_intro (other rfl) (other rfl)), if_neg (other rfl),
    if_neg (other rfl), if_neg (other rfl)]

theorem number_cons {text : String} (all : ∀ c ∈ text.toList, isNumberChar c = true)
    (filled : text.toList ≠ []) :
    ∃ c cs, text.toList = c :: cs ∧ leadOf c = .number ∧ c ≠ ']' := by
  obtain ⟨c, cs, same⟩ := List.exists_cons_of_ne_nil filled
  exact ⟨c, cs, same, leadOf_number (all c (by rw [same]; exact List.mem_cons_self ..))⟩

theorem compact_cons {a : Json} (finite : FiniteNumbers a) :
    ∃ c cs, (compact a).toList = c :: cs ∧ leadOf c = lead a ∧ c ≠ ']' := by
  cases finite with
  | null => exact ⟨'n', _, rfl, rfl, by decide⟩
  | boolean value => cases value <;> exact ⟨_, _, rfl, rfl, by decide⟩
  | integer value =>
      exact number_cons (WholeNumber.text_isNumberChar value) (WholeNumber.text_ne_nil value)
  | float finite =>
      rename_i value
      have text : compact (float value) = value.text .dump := if_pos finite
      rw [text]
      refine number_cons (Binary64.text_isNumberChar finite) ?_
      rcases Binary64.point_or_exponent_mem_text finite with mark | mark <;>
        exact List.ne_nil_of_mem mark
  | string text => exact ⟨'"', _, by rw [compact.eq_def]; exact String.toList_ofList, rfl, by decide⟩
  | array each => exact ⟨'[', _, toList_array _, rfl, by decide⟩
  | object each => exact ⟨'\x7b', _, toList_object _, rfl, by decide⟩

theorem lead_eq {a b : Json} (finite : FiniteNumbers a) (finite' : FiniteNumbers b)
    {r s : List Char} (same : (compact a).toList ++ r = (compact b).toList ++ s) :
    lead a = lead b := by
  obtain ⟨c, cs, first, ofFirst, _⟩ := compact_cons finite
  obtain ⟨d, ds, second, ofSecond, _⟩ := compact_cons finite'
  rw [first, second] at same
  rw [← ofFirst, ← ofSecond, (List.cons.inj same).1]

theorem member_tellsApart {member : String × Json}
    (value : TellsApart FiniteNumbers (fun j => (compact j).toList) member.2) :
    TellsApart (fun other : String × Json => FiniteNumbers other.2) memberText member := by
  obtain ⟨key, a⟩ := member
  rintro ⟨other, b⟩ finite r s ends ends' same
  simp only [memberText, List.append_assoc, List.cons_append] at same
  obtain ⟨rfl, later⟩ := quoted_unique same
  obtain ⟨rfl, rest⟩ := value b finite r s ends ends' (List.cons.inj later).2
  exact ⟨rfl, rest⟩

theorem compact_float {value : Binary64} (finite : value.isFinite = true) :
    compact (float value) = value.text .dump :=
  if_pos finite

theorem integer_tellsApart (value : Int) :
    TellsApart FiniteNumbers (fun j => (compact j).toList) (integer value) := by
  have all := WholeNumber.text_isNumberChar value
  intro b finite r s ends ends' same
  have leads := lead_eq (.integer value) finite same
  cases finite with
  | integer other =>
      obtain ⟨text, rest⟩ := number_unique all (WholeNumber.text_isNumberChar other) ends ends' same
      rw [WholeNumber.text_injective text]
      exact ⟨rfl, rest⟩
  | float isFinite =>
      simp only [compact_float isFinite] at same
      obtain ⟨text, rest⟩ := number_unique all (Binary64.text_isNumberChar isFinite) ends ends' same
      exact absurd text (WholeNumber.text_ne_float value isFinite)
  | _ => cases leads

theorem float_tellsApart {value : Binary64} (isFinite : value.isFinite = true) :
    TellsApart FiniteNumbers (fun j => (compact j).toList) (float value) := by
  have all : ∀ c ∈ (value.text .dump).toList, _ := Binary64.text_isNumberChar isFinite
  intro b finite r s ends ends' same
  have leads := lead_eq (.float isFinite) finite same
  simp only [compact_float isFinite] at same
  cases finite with
  | integer other =>
      obtain ⟨text, rest⟩ := number_unique all (WholeNumber.text_isNumberChar other) ends ends' same
      exact absurd text.symm (WholeNumber.text_ne_float other isFinite)
  | float isFinite' =>
      simp only [compact_float isFinite'] at same
      obtain ⟨text, rest⟩ := number_unique all (Binary64.text_isNumberChar isFinite') ends ends' same
      rw [Binary64.text_injective isFinite isFinite' text]
      exact ⟨rfl, rest⟩
  | _ => cases leads

theorem compact_tellsApart {a : Json} (finite : FiniteNumbers a) :
    TellsApart FiniteNumbers (fun j => (compact j).toList) a := by
  -- In each case the first character shows what the other value is, and the parts are told apart by
  -- induction: what follows a part is a comma or the bracket that closes the whole.
  induction finite with
  | integer value => exact integer_tellsApart value
  | float isFinite => exact float_tellsApart isFinite
  | null =>
      intro b finite' r s ends ends' same
      have leads := lead_eq .null finite' same
      cases finite' with
      | null => exact ⟨rfl, List.append_cancel_left same⟩
      | _ => cases leads
  | boolean value =>
      intro b finite' r s ends ends' same
      have leads := lead_eq (.boolean value) finite' same
      cases finite' with
      | boolean other =>
          have text : value = other := by
            cases value <;> cases other <;> first | rfl | exact absurd (List.cons.inj same).1 (by decide)
          subst text
          exact ⟨rfl, List.append_cancel_left same⟩
      | _ => cases leads
  | string text =>
      intro b finite' r s ends ends' same
      have leads := lead_eq (.string text) finite' same
      cases finite' with
      | string other =>
          obtain ⟨rfl, rest⟩ := quoted_unique same
          exact ⟨rfl, rest⟩
      | _ => cases leads
  | array each ih =>
      intro b finite' r s ends ends' same
      have leads := lead_eq (.array each) finite' same
      cases finite' with
      | array each' =>
          simp only [toList_array, List.cons_append, List.append_assoc, List.cons.injEq, true_and,
            List.nil_append] at same
          obtain ⟨rfl, rest⟩ := listText_unique (.inl rfl) ih each each'
            (fun item finite => by
              obtain ⟨c, cs, text, _, other⟩ := compact_cons finite
              exact ⟨c, cs, text, other⟩) same
          exact ⟨rfl, rest⟩
      | _ => cases leads
  | object each ih =>
      intro b finite' r s ends ends' same
      have leads := lead_eq (.object each) finite' same
      cases finite' with
      | object each' =>
          simp only [toList_object, List.cons_append, List.append_assoc, List.cons.injEq, true_and,
            List.nil_append] at same
          obtain ⟨rfl, rest⟩ := listText_unique (.inr rfl)
            (fun member among => member_tellsApart (ih member among)) each each'
            (fun member _ => by
              obtain ⟨cs, text⟩ := memberText_cons member
              exact ⟨'"', cs, text, by decide⟩) same
          exact ⟨rfl, rest⟩
      | _ => cases leads

theorem compact_injective {a b : Json} (finite : FiniteNumbers a) (finite' : FiniteNumbers b)
    (same : compact a = compact b) : a = b := by
  have texts : (compact a).toList ++ [] = (compact b).toList ++ [] := by rw [same]
  exact (compact_tellsApart finite b finite' [] [] nofun nofun texts).1

end Values

end NumericPython.Json

import NumericPython.Printing.Node
import NumericPython.Proofs.Grammar.CommentReading
import NumericPython.Proofs.Printing.FilledLines

set_option autoImplicit false

namespace NumericPython

namespace Header

/-- How many parentheses are open, and how many brackets outside of them. -/
structure Nesting where
  parentheses : Nat
  brackets : Nat
deriving DecidableEq

namespace Nesting

def outside : Nesting := ⟨0, 0⟩

/-- A bracket inside of parentheses opens or closes nothing outside of them. -/
def after (nesting : Nesting) (c : Char) : Nesting :=
  if c = '(' then { nesting with parentheses := nesting.parentheses + 1 }
  else if c = ')' then { nesting with parentheses := nesting.parentheses - 1 }
  else if nesting.parentheses ≠ 0 then nesting
  else if c = '[' then { nesting with brackets := nesting.brackets + 1 }
  else if c = ']' then { nesting with brackets := nesting.brackets - 1 }
  else nesting

end Nesting

/-- Splits a text at the commas outside of all parentheses and brackets. `entry` holds what has been
read of the entry that is open there. -/
def splitEntries (nesting : Nesting) (entry : List Char) : List Char → List (List Char)
  | [] => [entry]
  | c :: cs =>
    if c = ',' ∧ nesting = .outside then entry :: splitEntries nesting [] cs
    else splitEntries (nesting.after c) (entry ++ [c]) cs

def entries (types : List Char) : List (List Char) :=
  if types.isEmpty then [] else splitEntries .outside [] types

def Passes (before : Nesting) (cs : List Char) (behind : Nesting) : Prop :=
  -- The text leads from one nesting to another and is not split.
  ∀ entry rest,
    splitEntries before entry (cs ++ rest) = splitEntries behind (entry ++ cs) rest

theorem passes_nil (nesting : Nesting) : Passes nesting [] nesting := by
  intro entry rest
  rw [List.nil_append, List.append_nil]

theorem Passes.append {before between behind : Nesting} {cs ds : List Char}
    (first : Passes before cs between) (second : Passes between ds behind) :
    Passes before (cs ++ ds) behind := by
  intro entry rest
  rw [List.append_assoc, first, second, List.append_assoc]

theorem passes_char {nesting : Nesting} {c : Char} (inside : c = ',' → nesting ≠ .outside) :
    Passes nesting [c] (nesting.after c) := by
  intro entry rest
  rw [List.singleton_append, splitEntries, if_neg fun both => inside both.1 both.2]

theorem passes_all {nesting : Nesting} {cs : List Char}
    (keeps : ∀ c ∈ cs, nesting.after c = nesting ∧ (c = ',' → nesting ≠ .outside)) :
    Passes nesting cs nesting := by
  induction cs with
  | nil => exact passes_nil nesting
  | cons c cs ih =>
      obtain ⟨stays, inside⟩ := keeps c (List.mem_cons_self ..)
      have first : Passes nesting [c] nesting := by
        have step := passes_char inside
        rwa [stays] at step
      exact first.append (ih fun d member => keeps d (List.mem_cons_of_mem _ member))

theorem passes_balanced {inner : Nat} {cs : List Char}
    (closes : Directive.balanced inner cs = true) : Passes ⟨inner + 1, 0⟩ cs ⟨1, 0⟩ := by
  induction cs generalizing inner with
  | nil =>
      obtain rfl : inner = 0 := by simpa [Directive.balanced] using closes
      exact passes_nil _
  | cons c cs ih =>
      rw [Directive.balanced] at closes
      have step : Passes ⟨inner + 1, 0⟩ [c] (Nesting.after ⟨inner + 1, 0⟩ c) := by
        refine passes_char fun _ same => ?_
        cases same
      by_cases opening : c = '('
      · subst opening
        exact step.append (ih (by simpa [Directive.depthAfter] using closes))
      · by_cases closing : c = ')'
        · subst closing
          cases inner with
          | zero => simp [Directive.depthAfter] at closes
          | succ inner => exact step.append (ih (by simpa [Directive.depthAfter] using closes))
        · rw [Directive.depthAfter_other opening closing] at closes
          have stays : Nesting.after ⟨inner + 1, 0⟩ c = ⟨inner + 1, 0⟩ := by
            simp [Nesting.after, opening, closing]
          rw [stays] at step
          exact step.append (ih closes)

theorem splitEntries_separated {first : List Char} {more : List (List Char)}
    (whole : Passes .outside first .outside) (each : ∀ cs ∈ more, Passes .outside cs .outside)
    (entry : List Char) :
    splitEntries .outside entry (first ++ more.flatMap fun cs => ',' :: cs) =
      (entry ++ first) :: more := by
  induction more generalizing entry first with
  | nil => rw [List.flatMap_nil, whole, splitEntries]
  | cons next more ih =>
      have later := ih (each next (List.mem_cons_self ..))
        (fun cs member => each cs (List.mem_cons_of_mem _ member)) []
      rw [List.flatMap_cons, whole, List.cons_append, splitEntries, if_pos ⟨rfl, rfl⟩, later,
        List.nil_append]

def dimensions (rank : Nat) : List Char :=
  if rank = 0 then [] else '[' :: (List.replicate rank ':').intersperse ',' ++ [']']

def orderNote (order : List Char) (rank : Nat) : List Char :=
  if 1 < rank then "(order=".toList ++ order ++ [')'] else []

/-- The entry of a parameter gives its element type, a colon for each dimension, and the memory
order where there are several dimensions. -/
def IsEntryOf (order : List Char) (argument : Argument) (entry : List Char) : Prop :=
  ∃ info, argument.info = some info ∧
    entry = info.dtype.name.toList ++ dimensions info.rank.toNat ++ orderNote order info.rank.toNat

theorem toList_colons (rank : Nat) :
    (Text.joinWith "," (List.replicate rank ":")).toList =
      (List.replicate rank ':').intersperse ',' := by
  induction rank with
  | zero => rfl
  | succ rank ih =>
      cases rank with
      | zero => rfl
      | succ rank =>
          rw [List.replicate_succ, List.replicate_succ] at ih ⊢
          rw [Text.joinWith_cons_cons, List.replicate_succ, List.replicate_succ,
            List.intersperse_cons_cons, ← ih]
          simp

theorem isEntryOf_argumentType {settings : Settings} {argument : Argument} {text : String}
    (written : Printing.argumentType settings argument = .ok text) :
    IsEntryOf settings.arrayOrder.toList argument text.toList := by
  unfold Printing.argumentType at written
  rcases known : argument.info with _ | info
  · rw [known] at written
    cases written
  · rw [known, Except.ok.injEq] at written
    refine ⟨info, known, ?_⟩
    rw [← written, dimensions, orderNote]
    by_cases scalar : info.rank.toNat = 0
    · simp [scalar]
    · by_cases several : 1 < info.rank.toNat <;>
        simp [scalar, several, Nat.pos_of_ne_zero scalar, toList_colons]

section Entries

variable {order : List Char}

theorem passes_dtype (dtype : DataType) : Passes .outside dtype.name.toList .outside := by
  apply passes_all
  cases dtype <;> simp [DataType.name, Nesting.after]

theorem mem_colons {rank : Nat} {c : Char}
    (member : c ∈ (List.replicate rank ':').intersperse ',') : c = ':' ∨ c = ',' := by
  induction rank with
  | zero => cases member
  | succ rank ih =>
      -- A comma stands in front of every colon but the first one.
      cases rank with
      | zero => exact .inl (List.mem_singleton.1 member)
      | succ rank =>
          rw [List.replicate_succ, List.replicate_succ, List.intersperse_cons_cons] at member
          rcases member with _ | ⟨_, _ | ⟨_, later⟩⟩
          · exact .inl rfl
          · exact .inr rfl
          · exact ih later

theorem mem_dimensions {rank : Nat} {c : Char} (member : c ∈ dimensions rank) :
    c = '[' ∨ c = ':' ∨ c = ',' ∨ c = ']' := by
  unfold dimensions at member
  split at member
  · cases member
  · simp only [List.cons_append, List.mem_cons, List.mem_append, List.not_mem_nil, or_false] at member
    rcases member with opening | inside | closing
    · exact .inl opening
    · rcases mem_colons inside with colon | comma
      · exact .inr (.inl colon)
      · exact .inr (.inr (.inl comma))
    · exact .inr (.inr (.inr closing))

theorem passes_dimensions (rank : Nat) : Passes .outside (dimensions rank) .outside := by
  unfold dimensions
  split
  · exact passes_nil _
  · have opening : Passes .outside ['['] ⟨0, 1⟩ := passes_char nofun
    have closing : Passes ⟨0, 1⟩ [']'] .outside := passes_char nofun
    have colons : Passes ⟨0, 1⟩ ((List.replicate rank ':').intersperse ',') ⟨0, 1⟩ := by
      apply passes_all
      intro c member
      rcases mem_colons member with rfl | rfl <;> decide
    exact (opening.append colons).append closing

theorem passes_orderNote (closes : Directive.balanced 0 order = true) (rank : Nat) :
    Passes .outside (orderNote order rank) .outside := by
  unfold orderNote
  split
  · have opening : Passes .outside ['('] ⟨1, 0⟩ := passes_char nofun
    have label : Passes ⟨1, 0⟩ "order=".toList ⟨1, 0⟩ := passes_all (by simp [Nesting.after])
    have closing : Passes ⟨1, 0⟩ [')'] .outside := passes_char nofun
    exact ((opening.append label).append (passes_balanced closes)).append closing
  · exact passes_nil _

theorem IsEntryOf.passes (closes : Directive.balanced 0 order = true) {argument : Argument}
    {entry : List Char} (isEntry : IsEntryOf order argument entry) :
    Passes .outside entry .outside := by
  obtain ⟨info, _, rfl⟩ := isEntry
  exact ((passes_dtype _).append (passes_dimensions _)).append (passes_orderNote closes _)

theorem IsEntryOf.ne_nil {argument : Argument} {entry : List Char}
    (isEntry : IsEntryOf order argument entry) : entry ≠ [] := by
  obtain ⟨info, _, rfl⟩ := isEntry
  have named : info.dtype.name.toList ≠ [] := by cases info.dtype <;> decide
  simp [named]

theorem IsEntryOf.oneLine (plain : '\n' ∉ order) {argument : Argument} {text : String}
    (isEntry : IsEntryOf order argument text.toList) : Text.OneLine text := by
  obtain ⟨info, _, same⟩ := isEntry
  have dtype : '\n' ∉ info.dtype.name.toList := by cases info.dtype <;> decide
  have colons : '\n' ∉ dimensions info.rank.toNat := fun member => by
    rcases mem_dimensions member with same | same | same | same <;> cases same
  have note : '\n' ∉ orderNote order info.rank.toNat := by
    unfold orderNote
    split <;> simp [plain]
  simp [Text.OneLine, same, dtype, colons, note]

theorem IsEntryOf.nests (closes : Directive.balanced 0 order = true) {argument : Argument}
    {entry : List Char} (isEntry : IsEntryOf order argument entry) (rest : List Char) :
    Directive.nests 1 (entry ++ rest) = Directive.nests 1 rest := by
  obtain ⟨info, _, rfl⟩ := isEntry
  -- Of the three parts only the note on the order opens a parenthesis, and it closes it again.
  have dtype (rest : List Char) :
      Directive.nests 1 (info.dtype.name.toList ++ rest) = Directive.nests 1 rest := by
    apply Directive.nests_flat
    cases info.dtype <;> simp [DataType.name]
  have colons (rest : List Char) :
      Directive.nests 1 (dimensions info.rank.toNat ++ rest) = Directive.nests 1 rest := by
    apply Directive.nests_flat
    intro c member
    rcases mem_dimensions member with rfl | rfl | rfl | rfl <;> decide
  have note (rest : List Char) :
      Directive.nests 1 (orderNote order info.rank.toNat ++ rest) = Directive.nests 1 rest := by
    unfold orderNote
    split
    · have value : Directive.nests 2 (order ++ (')' :: rest)) = Directive.nests 2 (')' :: rest) := by
        simpa using Directive.nests_balanced 0 1 closes
      have whole : "(order=".toList ++ order ++ [')'] ++ rest =
          '(' :: ("order=".toList ++ (order ++ (')' :: rest))) := by
        simp
      rw [whole, Directive.nests]
      simp [Directive.depthAfter, value, Directive.nests]
    · rfl
  rw [List.append_assoc, List.append_assoc, dtype, colons, note]

end Entries

section Counting

variable {order seen cs ds : List Char}

/-- Behind `seen` nothing is open, if parentheses and brackets are each counted by themselves. -/
def AllClosed (seen : List Char) : Prop :=
  seen.count '(' = seen.count ')' ∧ seen.count '[' = seen.count ']'

instance (seen : List Char) : Decidable (AllClosed seen) :=
  inferInstanceAs (Decidable (_ ∧ _))

theorem AllClosed.append_iff (closed : AllClosed seen) : AllClosed (seen ++ cs) ↔ AllClosed cs := by
  obtain ⟨parentheses, brackets⟩ := closed
  simp only [AllClosed, List.count_append]
  omega

/-- Splits the text behind `seen` at the commas where everything is closed. -/
def splitCounted (seen entry : List Char) : List Char → List (List Char)
  | [] => [entry]
  | c :: cs =>
    if c = ',' ∧ AllClosed seen then entry :: splitCounted (seen ++ [c]) [] cs
    else splitCounted (seen ++ [c]) (entry ++ [c]) cs

def countedEntries (types : List Char) : List (List Char) :=
  if types.isEmpty then [] else splitCounted [] [] types

def Whole (seen cs : List Char) : Prop :=
  -- The text behind `seen` is not split.
  ∀ entry rest,
    splitCounted seen entry (cs ++ rest) = splitCounted (seen ++ cs) (entry ++ cs) rest

theorem Whole.append (first : Whole seen cs) (second : Whole (seen ++ cs) ds) :
    Whole seen (cs ++ ds) := by
  intro entry rest
  rw [List.append_assoc, first, second, List.append_assoc, List.append_assoc]

theorem whole_of_inside
    (inside : ∀ front, front ++ [','] <+: cs → ¬ AllClosed (seen ++ front)) : Whole seen cs := by
  induction cs generalizing seen with
  | nil =>
      intro entry rest
      simp
  | cons c cs ih =>
      intro entry rest
      have here : ¬(c = ',' ∧ AllClosed seen) := by
        rintro ⟨rfl, closed⟩
        exact inside [] (by simp) (by simpa using closed)
      have later : Whole (seen ++ [c]) cs := ih fun front before => by
        simpa using inside (c :: front) (by simpa using before)
      rw [List.cons_append, splitCounted, if_neg here, later]
      simp

theorem whole_of_no_comma (none : ',' ∉ cs) : Whole seen cs :=
  whole_of_inside fun _ before => absurd (before.subset (by simp)) none

-- Commas between two brackets do not split, whatever else is counted there.
theorem whole_enclosed {opening closing : Char} (opens : opening ≠ ',') (closes : closing ≠ ',')
    (inside : ∀ front, front <+: cs → ¬ AllClosed (seen ++ opening :: front)) :
    Whole seen (opening :: cs ++ [closing]) := by
  refine whole_of_inside fun front before => ?_
  rw [List.cons_append] at before
  rcases List.prefix_cons_iff.1 before with none | ⟨back, same, before⟩
  · simp at none
  · rcases List.append_eq_cons_iff.1 same with ⟨-, comma⟩ | ⟨front, rfl, rfl⟩
    · exact absurd (List.cons.inj comma).1.symm opens
    · rcases List.prefix_concat_iff.1 before with whole | before
      · exact absurd (List.append_inj_right' whole rfl) (by simpa using closes.symm)
      · exact inside front ((List.prefix_append _ _).trans before)

theorem count_colons {rank : Nat} {c : Char} (other : c ≠ ':' ∧ c ≠ ',') :
    ((List.replicate rank ':').intersperse ',').count c = 0 := by
  refine List.count_eq_zero.2 fun member => ?_
  rcases mem_colons member with rfl | rfl
  · exact other.1 rfl
  · exact other.2 rfl

theorem whole_dimensions (closed : AllClosed seen) (rank : Nat) : Whole seen (dimensions rank) := by
  unfold dimensions
  split
  · exact whole_of_no_comma List.not_mem_nil
  · refine whole_enclosed (by decide) (by decide) fun front before => ?_
    have flat {c : Char} (bracket : c ≠ ':' ∧ c ≠ ',') : front.count c = 0 :=
      Nat.eq_zero_of_le_zero ((before.sublist.count_le c).trans_eq (count_colons bracket))
    rw [closed.append_iff]
    rintro ⟨-, brackets⟩
    simp [@flat '[' (by decide), @flat ']' (by decide)] at brackets

theorem allClosed_dimensions (rank : Nat) : AllClosed (dimensions rank) := by
  unfold dimensions
  split
  · exact ⟨rfl, rfl⟩
  · simp [AllClosed, count_colons]

theorem whole_orderNote (closes : Directive.balanced 0 order = true) (closed : AllClosed seen)
    (rank : Nat) : Whole seen (orderNote order rank) := by
  unfold orderNote
  split
  · have label : Directive.balanced 0 ("order=".toList ++ order) = true := closes
    have text : "(order=".toList ++ order ++ [')'] =
        '(' :: ("order=".toList ++ order) ++ [')'] := by
      simp
    rw [text]
    refine whole_enclosed (by decide) (by decide) fun front before => ?_
    have never := (Directive.balanced_iff.1 label).1 front before
    rw [closed.append_iff]
    rintro ⟨parentheses, -⟩
    simp only [List.count_cons_self, List.count_cons_of_ne (show '(' ≠ ')' by decide)] at parentheses
    omega
  · exact whole_of_no_comma List.not_mem_nil

theorem allClosed_orderNote (closes : Directive.balanced 0 order = true)
    (even : order.count '[' = order.count ']') (rank : Nat) : AllClosed (orderNote order rank) := by
  have parentheses := (Directive.balanced_iff.1 closes).2
  unfold orderNote
  split
  · simp [AllClosed, even, parentheses]
  · exact ⟨rfl, rfl⟩

theorem allClosed_dtype (dtype : DataType) : AllClosed dtype.name.toList := by
  cases dtype <;> decide

theorem IsEntryOf.allClosed (closes : Directive.balanced 0 order = true)
    (even : order.count '[' = order.count ']') {argument : Argument} {entry : List Char}
    (isEntry : IsEntryOf order argument entry) : AllClosed entry := by
  obtain ⟨info, _, rfl⟩ := isEntry
  rw [List.append_assoc, (allClosed_dtype _).append_iff, (allClosed_dimensions _).append_iff]
  exact allClosed_orderNote closes even _

theorem IsEntryOf.whole (closes : Directive.balanced 0 order = true) {argument : Argument}
    {entry : List Char} (isEntry : IsEntryOf order argument entry) (closed : AllClosed seen) :
    Whole seen entry := by
  obtain ⟨info, _, rfl⟩ := isEntry
  have named : Whole seen info.dtype.name.toList :=
    whole_of_no_comma (by cases info.dtype <;> decide)
  have afterName : AllClosed (seen ++ info.dtype.name.toList) :=
    closed.append_iff.2 (allClosed_dtype _)
  have afterDimensions := afterName.append_iff.2 (allClosed_dimensions info.rank.toNat)
  rw [List.append_assoc] at afterDimensions
  exact (named.append (whole_dimensions afterName _)).append (whole_orderNote closes afterDimensions _)

theorem splitCounted_separated (closes : Directive.balanced 0 order = true)
    (even : order.count '[' = order.count ']') {first : List Char} {more : List (List Char)}
    (each : ∀ entry ∈ first :: more, ∃ argument, IsEntryOf order argument entry)
    (closed : AllClosed seen) (entry : List Char) :
    splitCounted seen entry (first ++ more.flatMap fun cs => ',' :: cs) = (entry ++ first) :: more := by
  obtain ⟨⟨argument, isEntry⟩, others⟩ := List.forall_mem_cons.1 each
  have behind := closed.append_iff.2 (isEntry.allClosed closes even)
  induction more generalizing seen entry first argument with
  | nil => rw [List.flatMap_nil, isEntry.whole closes closed, splitCounted]
  | cons next more ih =>
      obtain ⟨⟨argument', isNext⟩, later⟩ := List.forall_mem_cons.1 others
      have separated : AllClosed (seen ++ first ++ [',']) := behind.append_iff.2 ⟨rfl, rfl⟩
      rw [List.flatMap_cons, isEntry.whole closes closed, List.cons_append, splitCounted,
        if_pos ⟨rfl, behind⟩, ih others separated [] later argument' isNext
          (separated.append_iff.2 (isNext.allClosed closes even)), List.nil_append]

end Counting

section Types

variable {order : List Char} {types : List String}

theorem toList_types (first : String) (more : List String) :
    (Text.joinWith "," (first :: more)).toList =
      first.toList ++ (more.map String.toList).flatMap fun cs => ',' :: cs := by
  rw [Grammar.toList_joinWith, List.flatMap_map]
  rfl

theorem entries_joined (closes : Directive.balanced 0 order = true)
    (each : ∀ text ∈ types, ∃ argument, IsEntryOf order argument text.toList) :
    entries (Text.joinWith "," types).toList = types.map String.toList := by
  cases types with
  | nil => rfl
  | cons first more =>
      obtain ⟨argument, isEntry⟩ := each first (List.mem_cons_self ..)
      have others : ∀ cs ∈ more.map String.toList, Passes .outside cs .outside := by
        intro cs member
        obtain ⟨text, among, rfl⟩ := List.mem_map.1 member
        obtain ⟨other, isOther⟩ := each text (List.mem_cons_of_mem _ among)
        exact isOther.passes closes
      have filled : (Text.joinWith "," (first :: more)).toList.isEmpty = false := by
        simp [toList_types, isEntry.ne_nil]
      rw [entries, filled, toList_types]
      exact splitEntries_separated (isEntry.passes closes) others []

/-- Counting parentheses and brackets each by themselves gives the same entries, if the order has as
many closing brackets as opening ones. -/
theorem countedEntries_joined (closes : Directive.balanced 0 order = true)
    (even : order.count '[' = order.count ']')
    (each : ∀ text ∈ types, ∃ argument, IsEntryOf order argument text.toList) :
    countedEntries (Text.joinWith "," types).toList = types.map String.toList := by
  cases types with
  | nil => rfl
  | cons first more =>
      have all : ∀ entry ∈ first.toList :: more.map String.toList,
          ∃ argument, IsEntryOf order argument entry := by
        rw [← List.map_cons]
        exact List.forall_mem_map.2 each
      obtain ⟨argument, isEntry⟩ := each first (List.mem_cons_self ..)
      have filled : (Text.joinWith "," (first :: more)).toList.isEmpty = false := by
        simp [toList_types, isEntry.ne_nil]
      rw [countedEntries, filled, toList_types]
      exact splitCounted_separated closes even all ⟨rfl, rfl⟩ []

theorem nests_joined (closes : Directive.balanced 0 order = true)
    (each : ∀ text ∈ types, ∃ argument, IsEntryOf order argument text.toList) (rest : List Char) :
    Directive.nests 1 ((Text.joinWith "," types).toList ++ rest) = Directive.nests 1 rest := by
  have others (more : List String) (all : ∀ text ∈ more, text ∈ types) :
      Directive.nests 1 ((more.flatMap fun next => ",".toList ++ next.toList) ++ rest) =
        Directive.nests 1 rest := by
    induction more with
    | nil => rfl
    | cons next more ih =>
        obtain ⟨argument, isEntry⟩ := each next (all next (List.mem_cons_self ..))
        have comma (cs : List Char) : Directive.nests 1 (",".toList ++ cs) = Directive.nests 1 cs :=
          Directive.nests_flat (by simp)
        rw [List.flatMap_cons, List.append_assoc, List.append_assoc, comma, isEntry.nests closes]
        exact ih fun text member => all text (List.mem_cons_of_mem _ member)
  cases types with
  | nil => rfl
  | cons first more =>
      obtain ⟨argument, isEntry⟩ := each first (List.mem_cons_self ..)
      rw [Grammar.toList_joinWith, List.append_assoc, isEntry.nests closes]
      exact others more fun text member => List.mem_cons_of_mem _ member

theorem isClause_call (closes : Directive.balanced 0 order = true)
    (each : ∀ text ∈ types, ∃ argument, IsEntryOf order argument text.toList) {name : String}
    (plain : ∀ c ∈ name.toList, Directive.isPlain c = true) :
    Directive.isClause (name ++ "(" ++ Text.joinWith "," types ++ ")") = true := by
  have chars : (name ++ "(" ++ Text.joinWith "," types ++ ")").toList =
      name.toList ++ '(' :: ((Text.joinWith "," types).toList ++ [')']) := by
    simp
  have inner : Directive.nests 0 ('(' :: ((Text.joinWith "," types).toList ++ [')'])) = true := by
    rw [Directive.nests]
    have closing : Directive.nests 1 [')'] = true := by decide
    simp [Directive.depthAfter, nests_joined closes each, closing]
  rw [Directive.isClause, chars, Directive.nests_plain plain, inner]
  simp

end Types

end Header

end NumericPython

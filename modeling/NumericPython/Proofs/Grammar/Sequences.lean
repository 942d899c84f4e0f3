import NumericPython.Proofs.Grammar.Chains
import NumericPython.Proofs.Grammar.Spelling

set_option autoImplicit false

namespace NumericPython

namespace Grammar

open Lowering Printing

variable {alphabet : Alphabet} {ends : Char → Bool} {rule : List Token → RawTree → Prop}
  {start : Nat} {text : List Char}

def Worded (alphabet : Alphabet) (ends : Char → Bool) (rule : List Token → RawTree → Prop)
    (reads : Source → RawTree → Prop) (text : List Char) : Prop :=
  ∀ start, ∃ tokens tree, (∃ c cs, text = c :: cs ∧ opensWord c = true) ∧
    Segment alphabet ends start text tokens ∧ rule tokens tree ∧
    ∀ source, (∀ token ∈ tokens, token.Holds source) → reads source tree

theorem Worded.map {rule' : List Token → RawTree → Prop} {reads reads' : Source → RawTree → Prop}
    (worded : Worded alphabet ends rule reads text) (f : RawTree → RawTree)
    (rules : ∀ tokens tree, rule tokens tree → rule' tokens (f tree))
    (readings : ∀ source tree, reads source tree → reads' source (f tree)) :
    Worded alphabet ends rule' reads' text := by
  intro start
  obtain ⟨tokens, tree, head, segment, derived, read⟩ := worded start
  exact ⟨tokens, f tree, head, segment, rules _ _ derived,
    fun source holds => readings _ _ (read source holds)⟩

theorem Worded.imp {rule' : List Token → RawTree → Prop} {reads : Source → RawTree → Prop}
    (worded : Worded alphabet ends rule reads text)
    (rules : ∀ tokens tree, rule tokens tree → rule' tokens tree) :
    Worded alphabet ends rule' reads text :=
  worded.map id rules fun _ _ reads => reads

theorem Spelled.worded {phrase : Phrase} {e : Expr} (spelled : Spelled alphabet phrase e text) :
    Worded alphabet isEnd (Derives phrase) (fun source tree => phrase.Reads source tree e) text := by
  intro start
  obtain ⟨tokens, tree, spells⟩ := spelled start
  exact ⟨tokens, tree, spells.head, spells.segment, spells.derives, spells.reads⟩

section Sequences

variable {α : Type} {reads : α → Source → RawTree → Prop} {mark : String} {gap : Nat}

theorem segment_spaces {tokens : List Token} (n : Nat)
    (segment : Segment alphabet ends (start + n) text tokens) :
    Segment alphabet ends start (spaces n ++ text) tokens := by
  induction n generalizing start with
  | zero => simpa [spaces] using segment
  | succ n ih =>
      intro after others behind lexes
      have later : Segment alphabet ends (start + 1) (spaces n ++ text) tokens :=
        ih (by rwa [Nat.add_assoc, Nat.add_comm 1])
      refine .space (later after others behind ?_)
      have size : Text.byteSize (spaces (n + 1) ++ text) =
          1 + Text.byteSize (spaces n ++ text) := rfl
      rwa [size, ← Nat.add_assoc] at lexes

/-- The text at byte `start` is a sequence of items with a mark between neighbours. -/
structure Sequence (alphabet : Alphabet) (ends : Char → Bool)
    (rule : List Token → RawTree → Prop) (reads : α → Source → RawTree → Prop) (mark : String)
    (xs : List α) (start : Nat) (text : List Char) (chain : Chain (Part × α)) : Prop where
  head : ∃ c cs, text = c :: cs ∧ opensWord c = true
  segment : Segment alphabet ends start text ((chain.map Prod.fst).map Part.tokens).tokens
  series : (chain.map Prod.fst).IsSeries mark rule
  reads : ∀ source,
    (∀ token ∈ ((chain.map Prod.fst).map Part.tokens).tokens, token.Holds source) →
    ∀ item ∈ chain.items, reads item.2 source item.1.tree
  values : chain.items.map Prod.snd = xs

theorem Sequence.one {x : α} {tokens : List Token} {tree : RawTree}
    (head : ∃ c cs, text = c :: cs ∧ opensWord c = true)
    (segment : Segment alphabet ends start text tokens) (derived : rule tokens tree)
    (read : ∀ source, (∀ token ∈ tokens, token.Holds source) → reads x source tree) :
    Sequence alphabet ends rule reads mark [x] start text ⟨(⟨tokens, tree⟩, x), []⟩ where
  head := head
  segment := by simpa using segment
  series := .one derived
  reads := by
    intro source holds item member
    rw [List.mem_singleton.1 member]
    exact read source (by simpa using holds)
  values := rfl

theorem Sequence.cons {x : α} {xs : List α} {tokens : List Token} {tree : RawTree}
    {text' : List Char} {chain : Chain (Part × α)} (known : mark.toList ∈ marks)
    (admitted : ∀ c ∈ mark.toList.head?, ends c = true)
    (head : ∃ c cs, text = c :: cs ∧ opensWord c = true)
    (segment : Segment alphabet ends start text tokens) (derived : rule tokens tree)
    (read : ∀ source, (∀ token ∈ tokens, token.Holds source) → reads x source tree)
    (later : Sequence alphabet ends rule reads mark xs
      (start + Text.byteSize text + Text.byteSize mark.toList + gap) text' chain) :
    Sequence alphabet ends rule reads mark (x :: xs) start
      (text ++ (mark.toList ++ (spaces gap ++ text')))
      (.cons (⟨tokens, tree⟩, x) ⟨.mark, mark.toList, start + Text.byteSize text⟩ chain) where
  head := opens_append head _
  segment := by
    obtain ⟨d, ds, same, leads⟩ := later.head
    obtain ⟨c, cs, spelling, _⟩ := mark_spelling known
    -- Behind the mark stands a blank or the next item, and neither goes on with the mark.
    have behind : ∃ c cs, spaces gap ++ text' = c :: cs ∧ (!isMarkTail c) = true := by
      cases gap with
      | zero => exact ⟨d, ds, by rw [same]; rfl, by simp [isMarkTail_of_opens leads]⟩
      | succ n => exact ⟨' ', _, rfl, rfl⟩
    have whole := segment.append ((segment_mark known).append
      (segment_spaces gap later.segment) behind)
      ⟨c, cs ++ (spaces gap ++ text'), by rw [spelling]; rfl, admitted c (by rw [spelling]; rfl)⟩
    simpa using whole
  series := Chain.IsSeries.cons_iff.2 ⟨derived, isMark_mk _ _, later.series⟩
  reads := by
    intro source holds item member
    rw [Chain.map_cons, Chain.map_cons, Chain.tokens_cons] at holds
    rcases List.mem_cons.1 member with rfl | member
    · exact read source fun token inside => holds token (by simp [inside])
    · exact later.reads source
        (fun token inside => holds token (List.mem_append_right _ (.tail _ inside))) item member
  values := by rw [Chain.items_cons, List.map_cons, later.values]

theorem exists_sequence (known : mark.toList ∈ marks)
    (admitted : ∀ c ∈ mark.toList.head?, ends c = true) {glue : String}
    (glued : glue.toList = mark.toList ++ spaces gap) {x : α} {xs : List α} {first : String}
    {texts : List String} (worded : List.Forall₂
      (fun x text => Worded alphabet ends rule (reads x) (String.toList text)) (x :: xs)
      (first :: texts)) (start : Nat) :
    ∃ chain, Sequence alphabet ends rule reads mark (x :: xs) start
      (Text.joinWith glue (first :: texts)).toList chain := by
  induction xs generalizing x first texts start with
  | nil =>
      obtain ⟨here, ⟨⟩⟩ := List.forall₂_cons.1 worded
      obtain ⟨tokens, tree, head, segment, derived, read⟩ := here start
      exact ⟨_, .one head segment derived read⟩
  | cons y xs ih =>
      rcases texts with _ | ⟨second, texts⟩
      · cases (List.forall₂_cons.1 worded).2
      · obtain ⟨here, later⟩ := List.forall₂_cons.1 worded
        obtain ⟨tokens, tree, head, segment, derived, read⟩ := here start
        obtain ⟨chain, sequence⟩ := ih later
          (start + Text.byteSize first.toList + Text.byteSize mark.toList + gap)
        have text : (Text.joinWith glue (first :: second :: texts)).toList = first.toList ++
            (mark.toList ++ (spaces gap ++ (Text.joinWith glue (second :: texts)).toList)) := by
          rw [Text.joinWith_cons_cons]
          simp [glued]
        rw [text]
        exact ⟨_, .cons known admitted head segment derived read sequence⟩

theorem Sequence.some_more {x y : α} {xs : List α} {chain : Chain (Part × α)}
    (sequence : Sequence alphabet ends rule reads mark (x :: y :: xs) start text chain) :
    (chain.map Prod.fst).more ≠ [] := by
  intro empty
  have none_more : chain.more = [] := by simpa [Chain.map] using empty
  have values := sequence.values
  simp [Chain.items, none_more] at values

theorem exists_commaSequence {reads : α → Source → RawTree → Prop} {x : α} {xs : List α}
    {first : String} {texts : List String} (worded : List.Forall₂
      (fun x text => Worded alphabet isEnd rule (reads x) (String.toList text)) (x :: xs)
      (first :: texts)) (start : Nat) :
    ∃ chain, Sequence alphabet isEnd rule reads "," (x :: xs) start
      (commaSeparated (first :: texts)).toList chain :=
  @exists_sequence _ _ _ _ _ "," 1 (by decide) (by rintro _ ⟨⟩; rfl) ", " rfl _ _ _ _ worded start

end Sequences

end Grammar

end NumericPython

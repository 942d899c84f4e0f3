import NumericPython.Proofs.Grammar.Sequences

set_option autoImplicit false

namespace NumericPython

namespace Grammar

structure SpelledPart extends Part where
  expr : Expr

namespace SpelledPart

def reading (part : SpelledPart) : RawTree × Expr :=
  (part.tree, part.expr)

end SpelledPart

open Lowering Printing

variable {alphabet : Alphabet} {phrase : Phrase} {start : Nat} {text : List Char}

structure Series (alphabet : Alphabet) (phrase : Phrase) (es : List Expr) (start : Nat)
    (text : List Char) (chain : Chain SpelledPart) : Prop where
  head : ∃ c cs, text = c :: cs ∧ opensWord c = true
  segment : Segment alphabet isEnd start text (chain.map fun part => part.tokens).tokens
  separates : ∀ comma ∈ chain.separators, comma.isMark "," = true
  derives : ∀ part ∈ chain.items, Derives phrase part.tokens part.tree
  reads : ∀ source, (∀ token ∈ (chain.map fun part => part.tokens).tokens, token.Holds source) →
    ∀ part ∈ chain.items, phrase.Reads source part.tree part.expr
  exprs : chain.items.map SpelledPart.expr = es

theorem Series.of_sequence {es : List Expr} {chain : Chain (Part × Expr)}
    (sequence : Sequence alphabet isEnd (Derives phrase)
      (fun e source tree => phrase.Reads source tree e) "," es start text chain) :
    Series alphabet phrase es start text (chain.map fun item => ⟨item.1, item.2⟩) where
  head := sequence.head
  segment := by simpa using sequence.segment
  separates := by simpa using sequence.series.separates
  derives := by
    intro part member
    rw [Chain.items_map] at member
    obtain ⟨item, inside, rfl⟩ := List.mem_map.1 member
    exact sequence.series.items item.1
      (by rw [Chain.items_map]; exact List.mem_map_of_mem inside)
  reads := by
    intro source holds part member
    rw [Chain.items_map] at member
    obtain ⟨item, inside, rfl⟩ := List.mem_map.1 member
    exact sequence.reads source (by simpa using holds) item inside
  exprs := by
    rw [Chain.items_map, List.map_map]
    exact sequence.values

theorem exists_series {e : Expr} {es : List Expr} {first : String} {texts : List String}
    (spelled : List.Forall₂ (fun e text => Spelled alphabet phrase e (String.toList text))
      (e :: es) (first :: texts)) (start : Nat) :
    ∃ chain, Series alphabet phrase (e :: es) start (commaSeparated (first :: texts)).toList chain := by
  obtain ⟨chain, sequence⟩ :=
    exists_commaSequence (spelled.imp fun _ _ spelled => spelled.worded) start
  exact ⟨_, .of_sequence sequence⟩

structure Bracket (alphabet : Alphabet) (es : List Expr) (start : Nat) (text : List Char)
    (opening closing : Token) (items : Option (Chain SpelledPart)) : Prop where
  opens : opening.isMark "(" = true
  closes : closing.isMark ")" = true
  segment : Segment alphabet isEnd start text
    (opening :: (itemTokens (items.map (·.map SpelledPart.toPart)) ++ [closing]))
  separates : ∀ chain ∈ items, ∀ comma ∈ chain.separators, comma.isMark "," = true
  derives : ∀ chain ∈ items, ∀ part ∈ chain.items, Derives (.at .or) part.tokens part.tree
  reads : ∀ source,
    (∀ token ∈ itemTokens (items.map (·.map SpelledPart.toPart)), token.Holds source) →
    ∀ chain ∈ items, ∀ part ∈ chain.items, Reads source part.tree part.expr
  exprs : (items.map fun chain => chain.items.map SpelledPart.expr).getD [] = es

theorem exists_bracket {es : List Expr} {texts : List String}
    (spelled : List.Forall₂ (fun e text => Spelled alphabet (.at .or) e (String.toList text)) es texts)
    (start : Nat) :
    ∃ opening closing items, Bracket alphabet es start
      ("(".toList ++ ((commaSeparated texts).toList ++ [')'])) opening closing items := by
  rcases es with _ | ⟨e, es⟩
  · obtain rfl := List.forall₂_nil_left_iff.1 spelled
    refine ⟨⟨.mark, "(".toList, start⟩, ⟨.mark, [')'], start + Text.byteSize "(".toList⟩, none,
      ⟨rfl, rfl, ?_, by rintro _ ⟨⟩, by rintro _ ⟨⟩, by rintro _ _ _ ⟨⟩, rfl⟩⟩
    refine segment_open _ (by decide) (by rintro c ⟨⟩; rfl) ((segment_mark (by decide)).imp ?_)
    intro c ends
    simp [isMarkTail_of_isEnd ends]
  · rcases texts with _ | ⟨first, texts⟩
    · cases spelled
    · obtain ⟨chain, series⟩ := exists_series spelled (start + Text.byteSize "(".toList)
      have words : itemTokens ((some chain).map (·.map SpelledPart.toPart)) =
          (chain.map fun part => part.tokens).tokens := by
        simp [itemTokens]
      refine ⟨⟨.mark, "(".toList, start⟩, ⟨.mark, [')'], start + Text.byteSize "(".toList +
        Text.byteSize (commaSeparated (first :: texts)).toList⟩, some chain,
        ⟨rfl, rfl, ?_, ?_, ?_, ?_, series.exprs⟩⟩
      · rw [words]
        exact series.segment.between series.head (by decide) (by decide) (by decide)
      · rintro _ ⟨⟩
        exact series.separates
      · rintro _ ⟨⟩
        exact series.derives
      · rintro source holds _ ⟨⟩
        rw [words] at holds
        exact series.reads source holds

variable {es : List Expr} {opening closing : Token} {items : Option (Chain SpelledPart)}

namespace Bracket

theorem rule (bracket : Bracket alphabet es start text opening closing items) :
    (∀ chain ∈ items.map (·.map SpelledPart.toPart), ∀ comma ∈ chain.separators,
      comma.isMark "," = true) ∧
    ∀ chain ∈ items.map (·.map SpelledPart.toPart), ∀ part ∈ chain.items,
      Derives (.at .or) part.tokens part.tree := by
  constructor
  · intro chain member
    obtain ⟨spelled, found, rfl⟩ := Option.mem_map.1 member
    simpa using bracket.separates spelled found
  · intro chain member part inside
    obtain ⟨spelled, found, rfl⟩ := Option.mem_map.1 member
    rw [Chain.items_map] at inside
    obtain ⟨part, inner, rfl⟩ := List.mem_map.1 inside
    exact bracket.derives spelled found part inner

theorem lowered (bracket : Bracket alphabet es start text opening closing items) {source : Source}
    (holds : ∀ token ∈ itemTokens (items.map (·.map SpelledPart.toPart)), token.Holds source) :
    (∀ chain ∈ items.map (·.map SpelledPart.reading), ∀ comma ∈ chain.separators,
      comma.isMark "," = true) ∧
    (∀ chain ∈ items.map (·.map SpelledPart.reading), ∀ item ∈ chain.items,
      Reads source item.1 item.2) ∧
    itemExprs (items.map (·.map SpelledPart.reading)) = es := by
  refine ⟨?_, ?_, ?_⟩
  · intro chain member
    obtain ⟨spelled, found, rfl⟩ := Option.mem_map.1 member
    simpa using bracket.separates spelled found
  · intro chain member item inside
    obtain ⟨spelled, found, rfl⟩ := Option.mem_map.1 member
    rw [Chain.items_map] at inside
    obtain ⟨part, inner, rfl⟩ := List.mem_map.1 inside
    exact bracket.reads source holds spelled found part inner
  · rw [← bracket.exprs]
    cases items with
    | none => rfl
    | some chain => simp [itemExprs, SpelledPart.reading]

theorem trees :
    items.map (fun chain => (chain.map SpelledPart.toPart).map Part.tree) =
      items.map (fun chain => (chain.map SpelledPart.reading).map Prod.fst) := by
  cases items with
  | none => rfl
  | some chain => simp [SpelledPart.reading]

end Bracket

theorem toList_parentheses (texts : List String) :
    ("(" ++ commaSeparated texts ++ ")").toList =
      "(".toList ++ ((commaSeparated texts).toList ++ [')']) := by
  simp

theorem spelled_tuple {texts : List String}
    (spelled : List.Forall₂ (fun e text => Spelled alphabet (.at .or) e (String.toList text)) es texts)
    (notOne : es.length ≠ 1) :
    Spelled alphabet (.at .atom) (.tuple es) ("(" ++ commaSeparated texts ++ ")").toList := by
  rw [toList_parentheses]
  intro start
  obtain ⟨opening, closing, items, bracket⟩ := exists_bracket spelled start
  obtain ⟨separates, derives⟩ := bracket.rule
  have some_more : ∀ chain ∈ items.map (·.map SpelledPart.toPart), chain.more ≠ [] := by
    intro chain member none_more
    obtain ⟨part, found, rfl⟩ := Option.mem_map.1 member
    cases found
    have count := congrArg List.length bracket.exprs
    have none_more : part.more = [] := by simpa [Chain.map] using none_more
    simp [Chain.items, none_more] at count
    omega
  refine ⟨_, _, ⟨'(', _, rfl, rfl⟩, bracket.segment,
    .tuple bracket.opens bracket.closes some_more separates derives, fun source holds => ?_⟩
  obtain ⟨separates', reads, exprs⟩ := bracket.lowered
    fun token member => holds token (by simp [member])
  have tuple := reads_tuple bracket.opens bracket.closes separates' reads
  rw [exprs] at tuple
  simp only [Option.map_map, Function.comp_def, Bracket.trees] at tuple ⊢
  exact tuple

theorem spelled_singleton {e : Expr} {text : String}
    (spelled : Spelled alphabet (.at .or) e text.toList) :
    Spelled alphabet (.at .atom) (.tuple [e]) ("(" ++ text ++ ",)").toList := by
  intro start
  obtain ⟨tokens, tree, spells⟩ := spelled (start + Text.byteSize "(".toList)
  have textEq : ("(" ++ text ++ ",)").toList =
      "(".toList ++ (text.toList ++ (",".toList ++ [')'])) := by
    simp
  rw [textEq]
  refine ⟨_, _, ⟨'(', _, rfl, rfl⟩, spells.segment.singleton spells.head,
    @Derives.singleton _ _ _ ⟨tokens, tree⟩ rfl rfl rfl spells.derives, fun source holds => ?_⟩
  exact reads_singleton rfl rfl rfl
    (spells.reads source fun token member => holds token (by simp [member]))

theorem spelled_tupleText {texts : List String}
    (spelled : List.Forall₂ (fun e text => Spelled alphabet (.at .or) e (String.toList text))
      es texts) : Spelled alphabet (.at .atom) (.tuple es) (tupleText texts).toList := by
  by_cases one : es.length = 1
  · obtain ⟨e, rfl⟩ := List.length_eq_one_iff.1 one
    rcases texts with _ | ⟨text, texts⟩
    · cases spelled
    · obtain ⟨here, later⟩ := List.forall₂_cons.1 spelled
      cases later
      exact spelled_singleton here
  · have other := spelled_tuple spelled one
    have count := spelled.length_eq
    rcases texts with _ | ⟨text, _ | ⟨text', texts⟩⟩
    · exact other
    · exact absurd count one
    · exact other

theorem spelled_callNode {callee : Name} (isCallee : IsCallee alphabet callee) {texts : List String}
    (spelled : List.Forall₂ (fun e text => Spelled alphabet (.at .or) e (String.toList text))
      es texts) (start : Nat) :
    ∃ tokens tree, (∃ c cs, (callText callee.text texts).toList = c :: cs ∧ opensWord c = true) ∧
      Segment alphabet isEnd start (callText callee.text texts).toList tokens ∧
      Derives (.at .atom) tokens tree ∧
      ∀ source, (∀ token ∈ tokens, token.Holds source) → ReadsCall source tree callee es := by
  have text : (callText callee.text texts).toList =
      callee.text.toList ++ ("(".toList ++ ((commaSeparated texts).toList ++ [')'])) := by
    simp [callText]
  rw [text]
  obtain ⟨tokens, tree, head, segment, before, readsCallee⟩ := spelled_callee isCallee start
  obtain ⟨opening, closing, items, bracket⟩ :=
    exists_bracket spelled (start + Text.byteSize callee.text.toList)
  obtain ⟨separates, derives⟩ := bracket.rule
  refine ⟨_, _, opens_append head _,
    segment.append bracket.segment ⟨'(', _, rfl, by decide⟩,
    @Derives.call ⟨tokens, tree⟩ _ _ _ bracket.opens bracket.closes before separates derives,
    fun source holds => ?_⟩
  obtain ⟨separates', reads, exprs⟩ := bracket.lowered
    fun token member => holds token (by simp [member])
  have call := readsCall_node bracket.opens bracket.closes
    (readsCallee source fun token member => holds token (by simp [member])) separates' reads
  rw [exprs] at call
  simp only [Option.map_map, Function.comp_def, Bracket.trees] at call ⊢
  exact call

theorem spelled_callExpr {callee : Name} (isCallee : IsCallee alphabet callee) {texts : List String}
    (spelled : List.Forall₂ (fun e text => Spelled alphabet (.at .or) e (String.toList text))
      es texts) :
    Spelled alphabet (.at .atom) (callExpr callee es) (callText callee.text texts).toList := by
  intro start
  obtain ⟨tokens, tree, head, segment, derives, reads⟩ := spelled_callNode isCallee spelled start
  exact ⟨tokens, tree, head, segment, derives, fun source holds => (reads source holds).reads⟩

theorem spells_indexed {base index : Expr} {more : List Expr} {baseText first : String}
    {texts : List String} (spelledBase : Spelled alphabet (.at .atom) base baseText.toList)
    (spelled : List.Forall₂ (fun e text => Spelled alphabet .index e (String.toList text))
      (index :: more) (first :: texts)) (start : Nat) :
    ∃ tokens tree, Spells alphabet (.at .atom) (.indexed base index more) start
      (baseText ++ "[" ++ commaSeparated (first :: texts) ++ "]").toList tokens tree ∧
        tree.kind = "subscript" := by
  have text : (baseText ++ "[" ++ commaSeparated (first :: texts) ++ "]").toList =
      baseText.toList ++ ("[".toList ++ ((commaSeparated (first :: texts)).toList ++ [']'])) := by
    simp
  rw [text]
  obtain ⟨tokens, tree, spells⟩ := spelledBase start
  obtain ⟨chain, series⟩ := exists_series spelled
    (start + Text.byteSize baseText.toList + Text.byteSize "[".toList)
  have words : ((chain.map SpelledPart.toPart).map Part.tokens).tokens =
      (chain.map fun part => part.tokens).tokens := by
    simp
  have segment := series.segment.between series.head (by decide)
    (show [']'] ∈ marks by decide) (by decide)
  rw [← words] at segment
  refine ⟨_, _, ⟨opens_append spells.head _,
    spells.segment.append segment ⟨'[', _, rfl, by decide⟩,
    @Derives.subscript ⟨tokens, tree⟩ _ _ _ rfl rfl spells.derives (by simpa using series.separates)
      (by
        intro part member
        rw [Chain.items_map] at member
        obtain ⟨spelled, inside, rfl⟩ := List.mem_map.1 member
        exact series.derives spelled inside), fun source holds => ?_⟩, rfl⟩
  have indexed := @reads_subscript source
    ⟨.mark, "[".toList, start + Text.byteSize baseText.toList⟩
    ⟨.mark, [']'], start + Text.byteSize baseText.toList + Text.byteSize "[".toList +
      Text.byteSize (commaSeparated (first :: texts)).toList⟩ tree base index more
    (chain.map SpelledPart.reading) rfl rfl
    (spells.reads source fun token member => holds token (by simp [member]))
    (by simpa using series.separates)
    (by
      intro item member
      rw [Chain.items_map] at member
      obtain ⟨spelled, inside, rfl⟩ := List.mem_map.1 member
      rw [words] at holds
      exact series.reads source (fun token member => holds token (by simp [member])) spelled inside)
    (by
      rw [Chain.items_map, List.map_map]
      exact series.exprs)
  simp only [Chain.map_map] at indexed ⊢
  exact indexed

section Slices

def SpelledOptional (alphabet : Alphabet) (e : Option Expr) (text : List Char) : Prop :=
  match e with
  | some e => Spelled alphabet (.at .or) e text
  | none => text = []

theorem exists_optional {e : Option Expr} (spelled : SpelledOptional alphabet e text)
    (start : Nat) : ∃ part : Option SpelledPart,
      (∀ c ∈ text.head?, opensWord c = true) ∧
      Segment alphabet isEnd start text (Part.optionalTokens (part.map SpelledPart.toPart)) ∧
      (∀ rule ∈ part.map SpelledPart.toPart, Derives (.at .or) rule.tokens rule.tree) ∧
      (∀ source, (∀ token ∈ Part.optionalTokens (part.map SpelledPart.toPart), token.Holds source) →
        ∀ item ∈ part.map SpelledPart.reading, Reads source item.1 item.2) ∧
      part.map SpelledPart.expr = e := by
  cases e with
  | none =>
      cases spelled
      refine ⟨none, by rintro c ⟨⟩, ?_, by rintro _ ⟨⟩, by rintro _ _ _ ⟨⟩, rfl⟩
      intro after others _ lexes
      exact lexes
  | some e =>
      obtain ⟨tokens, tree, spells⟩ := spelled start
      refine ⟨some ⟨⟨tokens, tree⟩, e⟩, ?_, spells.segment, ?_, ?_, rfl⟩
      · obtain ⟨c, cs, rfl, leads⟩ := spells.head
        rintro d ⟨⟩
        exact leads
      · rintro _ ⟨⟩
        exact spells.derives
      · rintro source holds _ ⟨⟩
        exact spells.reads source holds

theorem segment_colon {start : Nat} {tokens : List Token}
    (head : ∀ c ∈ text.head?, opensWord c = true)
    (segment : Segment alphabet isEnd (start + Text.byteSize ":".toList) text tokens) :
    Segment alphabet isEnd start (":".toList ++ text) (⟨.mark, ":".toList, start⟩ :: tokens) :=
  segment_open _ (by decide) (fun c first => isMarkTail_of_opens (head c first)) segment

theorem Segment.optional {start : Nat} {tokens tokens' : List Token} {text' : List Char}
    (first : Segment alphabet isEnd start text tokens)
    (second : Segment alphabet isEnd (start + Text.byteSize text) (":".toList ++ text') tokens') :
    Segment alphabet isEnd start (text ++ (":".toList ++ text')) (tokens ++ tokens') :=
  first.append second ⟨':', text', rfl, by decide⟩

theorem spelled_slice {startExpr stopExpr : Option Expr} {startText stopText : List Char}
    (spelledStart : SpelledOptional alphabet startExpr startText)
    (spelledStop : SpelledOptional alphabet stopExpr stopText) :
    Spelled alphabet .index (.slice startExpr stopExpr none)
      (startText ++ (":".toList ++ stopText)) := by
  intro start
  obtain ⟨first, head, segment, derives, reads, rfl⟩ := exists_optional spelledStart start
  obtain ⟨second, head', segment', derives', reads', rfl⟩ := exists_optional spelledStop
    (start + Text.byteSize startText + Text.byteSize ":".toList)
  refine ⟨_, _, ?_, ?_, @Derives.slice _ _ ⟨.mark, ":".toList, start + Text.byteSize startText⟩ none
    rfl (by rintro _ ⟨⟩) derives derives' (by rintro _ ⟨⟩), fun source holds => ?_⟩
  · cases startText with
    | nil => exact ⟨':', _, rfl, rfl⟩
    | cons c cs => exact ⟨c, _, rfl, head c rfl⟩
  · simpa using segment.optional (segment_colon head' segment')
  · have slice := @readsIndex_slice source (first.map SpelledPart.reading)
      (second.map SpelledPart.reading) ⟨.mark, ":".toList, start + Text.byteSize startText⟩ none rfl
      (holds _ (by simp)) (by rintro _ ⟨⟩)
      (reads source fun token member => holds token (by simp [member]))
      (reads' source fun token member => holds token (by simp [member])) (by rintro _ ⟨⟩)
    simp only [Option.map_map, Function.comp_def, SpelledPart.reading, Option.map_none,
      Option.bind_none] at slice ⊢
    exact slice

theorem spelled_stepped {startExpr stopExpr : Option Expr} {step : Expr}
    {startText stopText stepText : List Char}
    (spelledStart : SpelledOptional alphabet startExpr startText)
    (spelledStop : SpelledOptional alphabet stopExpr stopText)
    (spelledStep : Spelled alphabet (.at .or) step stepText) :
    Spelled alphabet .index (.slice startExpr stopExpr (some step))
      (startText ++ (":".toList ++ (stopText ++ (":".toList ++ stepText)))) := by
  intro start
  obtain ⟨first, head, segment, derives, reads, rfl⟩ := exists_optional spelledStart start
  obtain ⟨second, head', segment', derives', reads', rfl⟩ := exists_optional spelledStop
    (start + Text.byteSize startText + Text.byteSize ":".toList)
  obtain ⟨third, head'', segment'', derives'', reads'', some_step⟩ :=
    @exists_optional _ _ (some step) spelledStep
      (start + Text.byteSize startText + Text.byteSize ":".toList + Text.byteSize stopText +
        Text.byteSize ":".toList)
  -- the first character, the words, the derivation, the reading
  refine ⟨_, _, ?_, ?_, @Derives.slice _ _ ⟨.mark, ":".toList, start + Text.byteSize startText⟩
    (some (⟨.mark, ":".toList, start + Text.byteSize startText + Text.byteSize ":".toList +
      Text.byteSize stopText⟩, third.map SpelledPart.toPart))
    rfl (by rintro _ ⟨⟩; rfl) derives derives' (by rintro _ ⟨⟩; exact derives''),
    fun source holds => ?_⟩
  · cases startText with
    | nil => exact ⟨':', _, rfl, rfl⟩
    | cons c cs => exact ⟨c, _, rfl, head c rfl⟩
  · have inner := segment'.optional (segment_colon head'' segment'')
    refine segment.optional (segment_colon ?_ inner)
    cases stopText with
    | nil =>
        rintro c ⟨⟩
        rfl
    | cons c cs => exact head'
  · have slice := @readsIndex_slice source (first.map SpelledPart.reading)
      (second.map SpelledPart.reading) ⟨.mark, ":".toList, start + Text.byteSize startText⟩
      (some (⟨.mark, ":".toList, start + Text.byteSize startText + Text.byteSize ":".toList +
        Text.byteSize stopText⟩, third.map SpelledPart.reading)) rfl
      (holds _ (by simp)) (by rintro _ ⟨⟩; exact ⟨rfl, holds _ (by simp)⟩)
      (reads source fun token member => holds token (by simp [member]))
      (reads' source fun token member => holds token (by simp [member]))
      (by rintro _ ⟨⟩; exact reads'' source fun token member => holds token (by simp [member]))
    have value : third.map (fun part => part.expr) = some step := some_step
    simp only [Option.map_map, Function.comp_def, SpelledPart.reading, Option.map_some,
      Option.bind_some, value] at slice ⊢
    exact slice

end Slices

end Grammar

end NumericPython

import NumericPython.Proofs.Printing.Levels

set_option autoImplicit false

namespace NumericPython

namespace Line

def isBlank : Line → Bool
  | blank => true
  | text _ _ => false

structure Block where
  level : Nat
  header : String
  lines : List Line

/-- The blocks in the order of their headers. Blank lines alone make no block. -/
def blocks : List Line → List Block
  | [] => []
  | blank :: rest => blocks rest
  | text level header :: rest =>
    let under := rest.takeWhile (isUnder level)
    if under.all isBlank then blocks rest else ⟨level, header, under⟩ :: blocks rest

/-- Nothing at the front of `rest` belongs to a block whose header is on `level`. -/
def EndsBlock (level : Nat) (rest : List Line) : Prop :=
  ∀ line ∈ rest.takeWhile (isUnder level), line.isBlank = true

variable {level : Nat} {lines rest : List Line}

theorem takeWhile_blank : (blank :: rest).takeWhile (isUnder level) =
    blank :: rest.takeWhile (isUnder level) :=
  List.takeWhile_cons_of_pos rfl

theorem endsBlock_nil : EndsBlock level [] := by
  simp [EndsBlock]

theorem endsBlock_text (content : String) : EndsBlock level (text level content :: rest) := by
  simp [EndsBlock, isUnder]

theorem endsBlock_blank_iff : EndsBlock level (blank :: rest) ↔ EndsBlock level rest := by
  simp [EndsBlock, takeWhile_blank, isBlank]

theorem EndsBlock.deeper (ends : EndsBlock level rest) : EndsBlock (level + 1) rest := by
  -- What is under the deeper level is under the other one too.
  have shorter : rest.takeWhile (isUnder (level + 1)) <+: rest.takeWhile (isUnder level) := by
    induction rest with
    | nil => simp
    | cons line rest ih =>
        cases line with
        | blank =>
            rw [takeWhile_blank, takeWhile_blank, List.cons_prefix_cons]
            exact ⟨rfl, ih (endsBlock_blank_iff.1 ends)⟩
        | text inner content =>
            have outside : ¬ level < inner := by
              intro inside
              have first := ends (text inner content) (by simp [isUnder, inside])
              cases first
            have deeper : ¬ level + 1 < inner := by omega
            simp [isUnder, outside, deeper]
  intro line member
  exact ends line (shorter.mem member)

theorem blocks_text (header : String) (ends : EndsBlock level rest) :
    blocks (text level header :: rest) = blocks rest := by
  have none : (rest.takeWhile (isUnder level)).all isBlank = true := List.all_eq_true.2 ends
  simp [blocks, none]

theorem blocks_header (header : String) (under : ∀ line ∈ lines, line.isUnder level = true)
    (filled : lines.all isBlank = false) :
    blocks (text level header :: (lines ++ rest)) =
      ⟨level, header, lines ++ rest.takeWhile (isUnder level)⟩ :: blocks (lines ++ rest) := by
  simp [blocks, List.takeWhile_append_of_pos under, filled]

/-- The lines of a piece of text on `level`: whatever the text goes on with on that level, the blocks
of the piece come first, and each of them carries one of the `bodies`. -/
structure HasBlocks {α : Type} (carries : Block → α → Prop) (level : Nat) (lines : List Line)
    (bodies : List α) : Prop where
  ends : ∀ {rest : List Line}, EndsBlock level rest → EndsBlock level (lines ++ rest)
  found : ∀ {rest : List Line}, EndsBlock level rest →
    ∃ found, blocks (lines ++ rest) = found ++ blocks rest ∧ List.Forall₂ carries found bodies

namespace HasBlocks

variable {α : Type} {carries : Block → α → Prop} {others : List Line} {bodies more : List α}

theorem nil : HasBlocks carries level [] [] where
  ends ends := ends
  found _ := ⟨[], rfl, .nil⟩

theorem text (content : String) : HasBlocks carries level [text level content] [] where
  ends _ := endsBlock_text content
  found ends := ⟨[], blocks_text content ends, .nil⟩

theorem blank : HasBlocks carries level [blank] [] where
  ends := endsBlock_blank_iff.2
  found _ := ⟨[], rfl, .nil⟩

theorem append (first : HasBlocks carries level lines bodies)
    (second : HasBlocks carries level others more) :
    HasBlocks carries level (lines ++ others) (bodies ++ more) where
  ends ends := by
    rw [List.append_assoc]
    exact first.ends (second.ends ends)
  found {rest} ends := by
    obtain ⟨later, secondBlocks, secondCarried⟩ := second.found ends
    obtain ⟨earlier, firstBlocks, firstCarried⟩ := first.found (second.ends ends)
    refine ⟨earlier ++ later, ?_, List.rel_append firstCarried secondCarried⟩
    rw [List.append_assoc, firstBlocks, secondBlocks, List.append_assoc]

theorem texts (contents : List String) :
    HasBlocks carries level (contents.map (.text level)) [] := by
  induction contents with
  | nil => exact nil
  | cons content rest ih => exact (text content).append ih

theorem under {header : String} {body : α} (inner : HasBlocks carries (level + 1) lines bodies)
    (deeper : ∀ line ∈ lines, line.isUnder level = true) (filled : lines.all isBlank = false)
    (carried : ∀ blanks : List Line, (∀ line ∈ blanks, line.isBlank = true) →
      carries ⟨level, header, lines ++ blanks⟩ body) :
    HasBlocks carries level (.text level header :: lines) (body :: bodies) where
  ends _ := endsBlock_text header
  found {rest} ends := by
    obtain ⟨found, innerBlocks, innerCarried⟩ := inner.found ends.deeper
    refine ⟨⟨level, header, lines ++ rest.takeWhile (isUnder level)⟩ :: found, ?_,
      .cons (carried _ ends) innerCarried⟩
    rw [List.cons_append, blocks_header header deeper filled, innerBlocks, List.cons_append]

theorem separated {groups : List (List Line)} (first : HasBlocks carries level lines bodies)
    (later : HasBlocks carries level (Line.separated groups) more) :
    HasBlocks carries level (Line.separated (lines :: groups)) (bodies ++ more) := by
  cases groups with
  | nil =>
      have alone := first.append later
      rwa [Line.separated, List.append_nil] at alone
  | cons next rest => exact first.append (blank.append later)

theorem blocks_forall₂ (laid : HasBlocks carries level lines bodies) :
    List.Forall₂ carries (blocks lines) bodies := by
  -- At the end of the text nothing follows.
  obtain ⟨found, split, carried⟩ := laid.found endsBlock_nil
  rw [List.append_nil, blocks, List.append_nil] at split
  rwa [split]

end HasBlocks

end Line

end NumericPython

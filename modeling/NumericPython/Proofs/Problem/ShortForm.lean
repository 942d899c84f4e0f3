import NumericPython.Problem.Find
import NumericPython.Proofs.Text.OneLine

set_option autoImplicit false

namespace NumericPython.Problem

open Text

theorem oneLine_toString (n : Nat) : OneLine (toString n) := by
  have digits : (toString n).toList = Nat.toDigits 10 n := by simp [Nat.repr]
  rw [OneLine, digits]
  intro feed
  cases Nat.isDigit_of_mem_toDigits (by decide) (by decide) feed

theorem oneLine_firstLine (cs : List Char) : OneLine (String.ofList (firstLine cs)) := by
  rw [OneLine, String.toList_ofList, firstLine]
  have line : '\n' ∉ cs.takeWhile (· != '\n') := by
    intro feed
    have passed := List.all_eq_true.1 (@List.all_takeWhile _ (· != '\n') cs) _ feed
    cases passed
  split
  · exact fun feed => line ((List.dropLast_sublist _).subset feed)
  · exact line

theorem oneLine_firstWord {cs word : List Char} (found : firstWord? cs = some word) :
    '\n' ∉ word := by
  unfold firstWord? at found
  split at found
  · cases found
  · cases found
    intro feed
    have passed := List.all_eq_true.1 List.all_takeWhile _ feed
    cases passed

theorem oneLine_foundAt (source : Source) (offset : Nat) : OneLine (foundAt source offset) := by
  simp only [foundAt]
  split
  next word found =>
    split at found
    · simpa [OneLine] using oneLine_firstWord found
    · cases found
  next => decide

theorem oneLine_code (cause : Cause) : OneLine cause.code := by
  cases cause <;> simp only [Cause.code] <;> decide

theorem oneLine_unclosed {opening : Char} (bracket : opening ∈ ['(', '[', '\x7b'])
    (openedAt offset length : Nat) : OneLine (unclosed opening openedAt offset length).message := by
  simp only [List.mem_cons, List.not_mem_nil, or_false] at bracket
  have sign : OneLine opening.toString := by
    rcases bracket with rfl | rfl | rfl <;> decide
  have text : (unclosed opening openedAt offset length).message =
      "`" ++ opening.toString ++ "` is never closed" := rfl
  rw [text, oneLine_append, oneLine_append]
  exact ⟨⟨by decide, sign⟩, by decide⟩

theorem mem_of_bracketOf? {name : String} {opening : Char} (found : bracketOf? name = some opening) :
    opening ∈ ['(', '[', '\x7b'] := by
  unfold bracketOf? at found
  grind

theorem mem_of_openingOf? {name : String} {opening : Char} (found : openingOf? name = some opening) :
    opening ∈ ['(', '[', '\x7b'] := by
  unfold openingOf? at found
  grind

theorem oneLine_constructOf? {name construct hint : String}
    (found : constructOf? name = some (construct, hint)) : OneLine construct := by
  unfold constructOf? at found
  split at found
  · cases found
    decide
  · split at found
    · cases found
      decide
    · split at found
      · cases found
        decide
      · split at found
        · cases found
          decide
        · cases found

theorem oneLine_ofError (source : Source) (parent : Option RawTree) (tree : RawTree) :
    OneLine (ofError source parent tree).message := by
  have unexpected (cs : List Char) :
      OneLine ("unexpected `" ++ String.ofList (firstLine cs) ++ "`") := by
    simp only [oneLine_append]
    exact ⟨⟨by decide, oneLine_firstLine cs⟩, by decide⟩
  simp only [ofError]
  split
  · exact unexpected _
  · split
    next opening bracket =>
      split
      · exact oneLine_unclosed (mem_of_bracketOf? bracket) _ _ _
      · exact unexpected _
    next =>
      split
      next construct hint found =>
        have malformed : OneLine ("malformed " ++ construct) := by
          rw [oneLine_append]
          exact ⟨by decide, oneLine_constructOf? found⟩
        exact malformed
      next => exact unexpected _

-- The report of a missing token names the token by its kind.
theorem oneLine_ofMissing (source : Source) (parent : Option RawTree) {tree : RawTree}
    (kind : OneLine tree.kind) : OneLine (ofMissing source parent tree).message := by
  have missing : OneLine
      ("expected `" ++ tree.kind ++ "`, found `" ++ foundAt source tree.start ++ "`") := by
    simp only [oneLine_append]
    exact ⟨⟨⟨⟨by decide, kind⟩, by decide⟩, oneLine_foundAt source _⟩, by decide⟩
  simp only [ofMissing]
  split
  next opening around bracket =>
    split
    · exact oneLine_unclosed (mem_of_openingOf? bracket) _ _ _
    · exact missing
  next => exact missing

theorem oneLine_ofNode? {source : Source} {parent : Option RawTree} {tree : RawTree}
    {problem : Problem} (reported : ofNode? source parent tree = some problem)
    (kind : OneLine tree.kind) : OneLine problem.message := by
  unfold ofNode? at reported
  split at reported
  · cases reported
    exact oneLine_ofError source parent tree
  · split at reported
    · cases reported
      exact oneLine_ofMissing source parent kind
    · cases reported

theorem isLine_short {file : String} {problem : Problem} (name : OneLine file)
    (message : OneLine problem.message) (text : List Char) :
    IsLine (problem.short file text) := by
  have place (line column : Nat) :
      OneLine (file ++ ":" ++ toString line ++ ":" ++ toString column ++ ": ") := by
    simp only [oneLine_append]
    exact ⟨⟨⟨⟨⟨name, by decide⟩, oneLine_toString line⟩, by decide⟩, oneLine_toString column⟩,
      by decide⟩
  have content (front : String) (plain : OneLine front) :
      OneLine (front ++ "error[" ++ problem.cause.code ++ "]: " ++ problem.message) := by
    simp only [oneLine_append]
    exact ⟨⟨⟨⟨plain, by decide⟩, oneLine_code _⟩, by decide⟩, message⟩
  simp only [short]
  split
  · exact ⟨_, content _ (place _ _), rfl⟩
  · exact ⟨_, content _ (by decide), rfl⟩

end NumericPython.Problem

set_option autoImplicit false

namespace NumericPython.Text

def OneLine (text : String) : Prop :=
  '\n' ∉ text.toList

instance (text : String) : Decidable (OneLine text) :=
  inferInstanceAs (Decidable (_ ∉ _))

@[simp] theorem oneLine_append (first second : String) :
    OneLine (first ++ second) ↔ OneLine first ∧ OneLine second := by
  simp [OneLine]

def FillsLine (text : String) : Prop :=
  text ≠ "" ∧ OneLine text

instance (text : String) : Decidable (FillsLine text) :=
  inferInstanceAs (Decidable (_ ∧ _))

theorem FillsLine.append {first second : String} (fills : FillsLine first)
    (plain : OneLine second) : FillsLine (first ++ second) := by
  refine ⟨?_, by simp [fills.2, plain]⟩
  have nonempty := fills.1
  simp [nonempty]

theorem FillsLine.prepend {first second : String} (plain : OneLine first)
    (fills : FillsLine second) : FillsLine (first ++ second) := by
  refine ⟨?_, by simp [fills.2, plain]⟩
  have nonempty := fills.1
  simp [nonempty]

def IsLine (text : String) : Prop :=
  ∃ content, OneLine content ∧ text = content ++ "\n"

end NumericPython.Text

import NumericPython.Proofs.Printing.StaticHeader

set_option autoImplicit false

namespace NumericPython

namespace Parameter

def isDefaulted : Parameter → Bool
  | plain _ => false
  | valued _ _ => true

structure Legal (parameters : List Parameter) : Prop where
  distinct : (parameters.map name).Nodup
  ordered : parameters.Pairwise fun earlier later =>
    earlier.isDefaulted = true → later.isDefaulted = true

theorem legal_iff (parameters : List Parameter) :
    Legal parameters ↔ (parameters.map name).Nodup ∧ parameters.Pairwise fun earlier later =>
      earlier.isDefaulted = true → later.isDefaulted = true :=
  ⟨fun legal => ⟨legal.distinct, legal.ordered⟩, fun both => ⟨both.1, both.2⟩⟩

instance (parameters : List Parameter) : Decidable (Legal parameters) :=
  decidable_of_iff _ (legal_iff parameters).symm

theorem legal_append_plain (parameters : List Parameter) (argument : Argument) :
    Legal (parameters ++ [plain argument]) ↔
      Legal parameters ∧ argument.name ∉ parameters.map name ∧
        ∀ parameter ∈ parameters, parameter.isDefaulted = false := by
  have names : ((parameters ++ [plain argument]).map name).Nodup ↔
      (parameters.map name).Nodup ∧ argument.name ∉ parameters.map name := by
    rw [List.map_append, List.map_singleton, List.nodup_append_comm, List.singleton_append,
      List.nodup_cons, and_comm]
    rfl
  have defaults : (parameters ++ [plain argument]).Pairwise (fun earlier later =>
      earlier.isDefaulted = true → later.isDefaulted = true) ↔
      parameters.Pairwise (fun earlier later =>
        earlier.isDefaulted = true → later.isDefaulted = true) ∧
        ∀ parameter ∈ parameters, parameter.isDefaulted = false := by
    simp [List.pairwise_append, isDefaulted]
  rw [legal_iff, legal_iff, names, defaults]
  exact and_and_and_comm

end Parameter

namespace ForeignFunction

def output? (function : ForeignFunction) : Option Symbol :=
  match function.inner.results with
  | [result] => if result.isArray then some result else none
  | _ => none

theorem output?_eq_some_iff {function : ForeignFunction} {result : Symbol} :
    function.output? = some result ↔
      function.inner.results = [result] ∧ result.isArray = true := by
  unfold output?
  rcases function.inner.results with _ | ⟨only, _ | ⟨next, rest⟩⟩
  · simp
  · by_cases array : only.isArray = true
    · simp only [array, if_true, Option.some.injEq, List.cons.injEq, and_true]
      constructor
      · intro same
        exact ⟨same, same ▸ array⟩
      · exact And.left
    · simp only [array, List.cons.injEq, and_true]
      constructor
      · nofun
      · intro both
        exact absurd (both.1 ▸ both.2) array
  · simp

theorem wrapperParameters_eq (function : ForeignFunction) :
    function.wrapperParameters = function.inner.arguments ++
      (function.output?.map fun result => .plain ⟨result.name, result.info⟩).toList := by
  unfold wrapperParameters output?
  rcases function.inner.results with _ | ⟨only, _ | ⟨next, rest⟩⟩
  · simp
  · by_cases array : only.isArray = true <;> simp [array]
  · simp

theorem legal_wrapperParameters_iff (function : ForeignFunction) :
    Parameter.Legal function.wrapperParameters ↔
      Parameter.Legal function.inner.arguments ∧ ∀ result ∈ function.output?,
        result.name ∉ function.inner.arguments.map Parameter.name ∧
          ∀ parameter ∈ function.inner.arguments, parameter.isDefaulted = false := by
  rw [wrapperParameters_eq]
  cases function.output? with
  | none => simp
  | some result => simpa using Parameter.legal_append_plain function.inner.arguments _

end ForeignFunction

open Printing

/-- The wrapper of a function is printed with the function's parameters, followed by the only result
if that is an array. The list is legal exactly when the function's own list is and such a result
neither has the name of a parameter nor comes behind a default. -/
theorem wrapper_parameters_legal_iff (settings : Settings) (function : ForeignFunction)
    {text : String} (printed : (Node.foreignFunction function).print settings = .ok text) :
    ∃ header shown body,
      text = Text.joinWith "\n" (("from " ++ function.moduleName ++ " import " ++ function.name) ::
        header ::
        ("def " ++ callText (function.wrapperName settings.wrapperPrefix) shown ++ ":") :: body) ∧
      List.Forall₂ (fun parameter text => parameterText parameter = .ok text)
        function.wrapperParameters shown ∧
      function.wrapperParameters = function.inner.arguments ++
        (function.output?.map fun result => .plain ⟨result.name, result.info⟩).toList ∧
      (∀ result, function.output? = some result ↔
        function.inner.results = [result] ∧ result.isArray = true) ∧
      (Parameter.Legal function.wrapperParameters ↔
        Parameter.Legal function.inner.arguments ∧ ∀ result ∈ function.output?,
          result.name ∉ function.inner.arguments.map Parameter.name ∧
            ∀ parameter ∈ function.inner.arguments, parameter.isDefaulted = false) := by
  obtain ⟨header, shown, body, _, parametersWritten, rows⟩ := wrapper_rows printed
  exact ⟨header, shown, body, rows, parametersWritten, function.wrapperParameters_eq,
    fun _ => ForeignFunction.output?_eq_some_iff, function.legal_wrapperParameters_iff⟩

def inPlaceFunction : ForeignFunction where
  inner :=
    { FunctionDef.plain "f" [.plain ⟨"x", some ⟨.float, 1⟩⟩] [] with
        results := [⟨"x", some ⟨.float, 1⟩⟩] }
  moduleName := "grids"

theorem output_parameter_illegal :
    ((Node.foreignFunction inPlaceFunction).print {} = .ok ("from grids import f\n" ++
        "#$ header procedure static f2py_f(float[:],float[:])\n" ++
        "def f2py_f(x, x):\n    x = f(x)") ∧
      Parameter.Legal inPlaceFunction.inner.arguments ∧
      ¬ Parameter.Legal inPlaceFunction.wrapperParameters) ∧
    (Node.foreignFunction gridFunction).print {} = .ok ("from grids import f\n" ++
        "#$ header procedure static f2py_f(int,float[:],float[:,:](order=F))\n" ++
        "def f2py_f(n, x=None, y):\n    y = f(n, x)") ∧
      Parameter.Legal gridFunction.inner.arguments ∧
      ¬ Parameter.Legal gridFunction.wrapperParameters := by
  constructor
  · refine ⟨rfl, by decide, fun isLegal => ?_⟩
    obtain ⟨_, _, _, _, _, _, _, legal⟩ := wrapper_parameters_legal_iff {} inPlaceFunction rfl
    exact absurd ((legal.1 isLegal).2 _ rfl).1 (by decide)
  · refine ⟨rfl, by decide, fun isLegal => ?_⟩
    obtain ⟨_, _, _, _, _, _, _, legal⟩ := wrapper_parameters_legal_iff {} gridFunction rfl
    exact absurd ((legal.1 isLegal).2 _ rfl).2 (by decide)

end NumericPython

/-
Registries of named functions. The built-in ones are `sin cos tan sqrt
abs`, each of one argument; outside its domain a built-in function gives
NaN. A registry without a single function stands for the built-in one
wherever a registry is optional.

Main fact: a call with the right number of arguments is an application
of the routine (`call_eq_routine`).
-/
import Reckoner.NameMap
import Reckoner.OperatorTable

namespace Reckoner

/-- A function: how many arguments it takes and what it computes. -/
structure FunctionSpec where
  arity : Nat
  routine : Routine

/-- Functions by name. -/
abbrev Registry := NameMap FunctionSpec

namespace Registry

-- =========================================================== the registry

def builtin : Registry :=
  ⟨[("sin", ⟨1, .unary Float.sin⟩), ("cos", ⟨1, .unary Float.cos⟩),
    ("tan", ⟨1, .unary Float.tan⟩), ("sqrt", ⟨1, .unary Float.sqrt⟩),
    ("abs", ⟨1, .unary Float.abs⟩)]⟩

/-- The registry that is meant where a registry is optional: an empty
one stands for the built-in one. -/
def orBuiltin (registry : Registry) : Registry :=
  if registry.isEmpty then builtin else registry

/-- The function of a name that is expected to be there. -/
def lookup (registry : Registry) (name : String) :
    Except Breakdown FunctionSpec :=
  match registry.find? name with
  | some spec => .ok spec
  | none => .error (.absentFunction name)

-- ================================================================== calls

/-- Applies the function of a name. An unknown name and a wrong number of
arguments are faults at the position of the call; the expression is for
the caller to fill in. -/
def call (registry : Registry) (name : String) (args : List Float)
    (position : Option Int) : Except Failure Float :=
  match registry.find? name with
  | none => .error (.diagnosed ⟨.unknownFunction name, position, none⟩)
  | some spec =>
      if args.length ≠ spec.arity then
        .error (.diagnosed
          ⟨.wrongArity name spec.arity args.length, position, none⟩)
      else (spec.routine args).mapError .broken

-- ============================================================== the facts

/-- A call with as many arguments as the function takes is an
application of its routine. -/
theorem call_eq_routine {registry : Registry} {name : String}
    {spec : FunctionSpec} {args : List Float} {position : Option Int}
    (hspec : registry.find? name = some spec)
    (hargs : args.length = spec.arity) :
    registry.call name args position
      = (spec.routine args).mapError .broken := by
  simp [call, hspec, hargs]

end Registry

end Reckoner

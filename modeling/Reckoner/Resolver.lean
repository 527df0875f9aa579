/-
Resolvers: where the values of unbound variables come from.

A resolver is asked for one name at a time and answers with a value or
fails. It acts in a monad of the caller's choice: a fixed map needs no
effects, a log of what was asked needs a state, a prompt needs a terminal.
The evaluation asks for a name only while the name is unbound.
-/
import Reckoner.Failure
import Reckoner.NameMap
import Reckoner.Number.Decimal

namespace Reckoner

/-- A source of values for variables. -/
structure Resolver (m : Type → Type) where
  ask : String → m (Except Failure Value)

namespace Resolver

variable {m : Type → Type} [Monad m]

-- ======================================================== without effects

/-- Answers from a fixed map and knows no other variable. -/
def ofMap (values : NameMap Value) : Resolver m where
  ask name := pure <|
    match values.find? name with
    | some value => .ok value
    | none => .error (.diagnosed ⟨.unknownVariable name, none, none⟩)

/-- Answers every name by a function of the name. -/
def ofFunction (f : String → Value) : Resolver m where
  ask name := pure (.ok (f name))

-- ============================================================== in a state

/-- Notes the names that a resolver is asked for, in order. -/
def logged (resolver : Resolver m) : Resolver (StateT (List String) m) where
  ask name := do
    modify (· ++ [name])
    resolver.ask name

end Resolver

end Reckoner

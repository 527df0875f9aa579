/-
Calculators: settings, functions and the variables bound so far.

A calculation scans the expression, converts its tokens to postfix and
evaluates those. What it binds stays bound for later calculations, also
when it fails, so a resolver is asked for a name at most once until the
variables are cleared.

Main fact: an expression that does not scan or convert leaves the
variables alone and asks for none (`evaluate_of_toPostfix_error`).
-/
import Reckoner.Evaluation
import Reckoner.Settings
import Reckoner.Token.Scan

namespace Reckoner

/-- A calculator and what it remembers. -/
structure Calculator where
  settings : Settings := {}
  functions : Registry := Registry.builtin
  bindings : Bindings := .empty

namespace Calculator

-- ========================================================== the variables

/-- A calculator with the given settings and functions, on which
variables are bound in turn. -/
def new (settings : Settings) (functions : Registry)
    (initial : List (String × Float)) : Calculator :=
  ⟨settings, functions.orBuiltin, .ofList initial⟩

def bind (c : Calculator) (name : String) (x : Float) : Calculator :=
  { c with bindings := c.bindings.insert name x }

def clear (c : Calculator) : Calculator := { c with bindings := .empty }

-- ======================================================== the calculations

/-- What a calculation of an expression depends on. -/
def context (c : Calculator) (expression : String) : Context where
  operators := c.settings.operators
  functions := c.functions
  source := expression
  limits := c.settings.limits

/-- The postfix form of an expression. -/
def toPostfix (c : Calculator) (expression : String) :
    Except Failure (List Token) :=
  match Token.scan c.functions c.settings.limits expression with
  | .error d => .error (.diagnosed d)
  | .ok tokens => Reckoner.toPostfix (c.context expression).toGrammar tokens

variable {m : Type → Type} [Monad m]

/-- The value of an expression and the calculator afterwards. -/
def evaluate (c : Calculator) (resolver : Resolver m) (expression : String) :
    m (Except Failure Float × Calculator) :=
  match c.toPostfix expression with
  | .error failure => pure (.error failure, c)
  | .ok tokens => do
      let (outcome, bindings) ←
        evaluatePostfix (c.context expression) resolver tokens c.bindings
      pure (outcome, { c with bindings })

/-- An outcome in which a diagnosis is a result like a value, with the
expression filled in where it has none. -/
def verdict (expression : String) :
    Except Failure Float → Except Breakdown (Except Diagnostic Float)
  | .ok x => .ok (.ok x)
  | .error (.diagnosed d) => .ok (.error (d.orExpression expression))
  | .error (.broken breakdown) => .error breakdown

/-- The value of an expression or the diagnosis of its fault, and the
calculator afterwards. -/
def tryEvaluate (c : Calculator) (resolver : Resolver m)
    (expression : String) :
    m (Except Breakdown (Except Diagnostic Float) × Calculator) := do
  let (outcome, c) ← c.evaluate resolver expression
  pure (verdict expression outcome, c)

-- ============================================================== the facts

/-- An expression that has no postfix form leaves the calculator as it
is, and nobody is asked for anything. -/
theorem evaluate_of_toPostfix_error {c : Calculator} {resolver : Resolver m}
    {expression : String} {failure : Failure}
    (h : c.toPostfix expression = .error failure) :
    c.evaluate resolver expression = pure (.error failure, c) := by
  simp [evaluate, h]

end Calculator

end Reckoner

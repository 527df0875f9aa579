/-
Everything that can go wrong with an expression.

A `Fault` is the cause of a failure, with what its message needs; the
wording, the kind and the stage of a fault are functions of it. A
`Diagnostic` is a fault with the place where it was found. A `Breakdown`
is a failure that is no fault of the expression: a lookup that finds
nothing, an operation applied outside its domain, a resolver that gives
up for reasons of its own. Breakdowns are kept apart so that their
absence can be stated.
-/
import Reckoner.Operator
import Reckoner.Limits
import Reckoner.Value

namespace Reckoner

-- ============================================================== the kinds

inductive FaultKind where
  | invalidCharacter
  | malformedNumber
  | unbalancedParens
  | unknownToken
  | invalidCall
  | missingOperand
  | missingFunctionArgument
  | divisionByZero
  | malformedExpression
  | unresolvedVariable
  | limitExceeded
  deriving DecidableEq, Repr

/-- The stages of a calculation, of which each has its own faults; the
limits count as a stage that the others call upon. -/
inductive Stage where
  | lexing
  | conversion
  | evaluation
  | limits
  deriving DecidableEq, Repr

-- ============================================================= the faults

inductive Fault where
  -- lexing
  | invalidCharacter (c : Char)
  | malformedLiteral (text : String)
  -- conversion
  | callWithoutParens (function : String)
  | unclosedParen
  | unopenedParen
  | argumentCount (function : String) (expected got : Nat)
  | unknownToken (text : String)
  -- evaluation
  | unexpectedToken (text : String)
  | malformedNumber (text : String)
  | missingArgument (function : String)
  | unknownFunction (function : String)
  | wrongArity (function : String) (expected got : Nat)
  | unknownOperator (text : String)
  | missingOperand (operator : Operator)
  | divisionByZero
  | valuesLeft (count : Nat)
  -- variables
  | unusableValue (name : String) (value : Value)
  | unknownVariable (name : String)
  | invalidAnswer (name answer : String)
  | endOfInput
  | reported (kind : FaultKind) (message : String)
  -- limits
  | limitExceeded (resource : Resource) (limit actual : Int)
  deriving DecidableEq, Repr

namespace Fault

def message : Fault → String
  | .invalidCharacter c => s!"Invalid character: '{c}'"
  | .malformedLiteral text => s!"Malformed number: '{text}'"
  | .callWithoutParens function => s!"Expected '(' after function '{function}'"
  | .unclosedParen => "Unbalanced parentheses: '(' is never closed"
  | .unopenedParen => "Unbalanced parentheses: unexpected ')'"
  | .argumentCount function expected got =>
      s!"{function}: expected {expected} argument(s), got {got}"
  | .unknownToken text => s!"Unknown token: {text}"
  | .unexpectedToken text => s!"Unexpected token in postfix input: {text}"
  | .malformedNumber text => s!"Malformed number: '{text}'"
  | .missingArgument function => s!"Missing argument for function: {function}"
  | .unknownFunction function => s!"Unknown function: {function}"
  | .wrongArity function expected got =>
      s!"{function}: expected {expected} argument(s), got {got}"
  | .unknownOperator text => s!"Unknown operator: {text}"
  | .missingOperand operator =>
      s!"Missing operand for operator: {operator.symbol}"
  | .divisionByZero => "Division by zero"
  | .valuesLeft count =>
      s!"Malformed expression: {count} value(s) left after evaluation"
  | .unusableValue name value =>
      s!"Variable {name} resolved to a non-finite or non-numeric value: "
        ++ value.shown
  | .unknownVariable name => s!"Unknown variable: {name}"
  | .invalidAnswer name answer =>
      s!"Invalid value for variable {name}: '{answer}'"
  | .endOfInput => "No value supplied: end of input"
  | .reported _ message => message
  | .limitExceeded resource limit actual =>
      s!"Limit exceeded: {resource.limitName} "
        ++ s!"(limit: {limit}, actual: {actual})"

def kind : Fault → FaultKind
  | .invalidCharacter _ => .invalidCharacter
  | .malformedLiteral _ => .malformedNumber
  | .callWithoutParens _ => .invalidCall
  | .unclosedParen => .unbalancedParens
  | .unopenedParen => .unbalancedParens
  | .argumentCount .. => .invalidCall
  | .unknownToken _ => .unknownToken
  | .unexpectedToken _ => .unknownToken
  | .malformedNumber _ => .malformedNumber
  | .missingArgument _ => .missingFunctionArgument
  | .unknownFunction _ => .unknownToken
  | .wrongArity .. => .missingFunctionArgument
  | .unknownOperator _ => .unknownToken
  | .missingOperand _ => .missingOperand
  | .divisionByZero => .divisionByZero
  | .valuesLeft _ => .malformedExpression
  | .unusableValue .. => .unresolvedVariable
  | .unknownVariable _ => .unresolvedVariable
  | .invalidAnswer .. => .unresolvedVariable
  | .endOfInput => .unresolvedVariable
  | .reported kind _ => kind
  | .limitExceeded .. => .limitExceeded

/-- The stage that finds a fault. What resolvers report counts as found
by the evaluation that asked. -/
def stage : Fault → Stage
  | .invalidCharacter _ | .malformedLiteral _ => .lexing
  | .callWithoutParens _ | .unclosedParen | .unopenedParen | .argumentCount ..
  | .unknownToken _ => .conversion
  | .limitExceeded .. => .limits
  | _ => .evaluation

end Fault

-- ======================================================== the diagnostics

/-- A fault with the offset of the offending character and the whole
expression, as far as they are known. -/
structure Diagnostic where
  fault : Fault
  position : Option Int := none
  expression : Option String := none
  deriving DecidableEq, Repr

namespace Diagnostic

/-- A message as it is shown: alone, or followed by the expression and a
caret under the given position. The caret of a negative position stands
at the margin. -/
def inContext (message : String) (position : Option Int)
    (expression : Option String) : String :=
  match expression, position with
  | some expression, some position =>
      let indent := String.ofList (List.replicate position.toNat ' ')
      message ++ "\n  " ++ expression ++ "\n  " ++ indent ++ "^"
  | _, _ => message

def shown (d : Diagnostic) : String :=
  inContext d.fault.message d.position d.expression

/-- The diagnostic with the expression filled in where it has none. -/
def orExpression (d : Diagnostic) (expression : String) : Diagnostic :=
  { d with expression := d.expression.or (some expression) }

end Diagnostic

-- ========================================================= the breakdowns

/-- Failures that are no fault of the expression. -/
inductive Breakdown where
  /-- An operator was looked up that its table does not have. -/
  | absentOperator (operator : Operator)
  /-- A function was looked up that its registry does not have. -/
  | absentFunction (function : String)
  /-- Something was taken from an empty stack. -/
  | emptyStack
  /-- A routine was applied to a number of arguments it does not take. -/
  | argumentCount
  /-- A number was divided by zero. -/
  | zeroDivisor
  /-- An integer has no nearest double. -/
  | integerTooLarge
  /-- The variable at an index is to be bound to nothing. -/
  | absentAssignment (index : Nat)
  /-- A resolver gave up with a message of its own. -/
  | refused (message : String)
  deriving DecidableEq, Repr

/-- A calculation fails by a diagnosed fault or by a breakdown.

Failures are values: an evaluation that gives one a place or an expression
changes nothing that others hold. A resolver that keeps an error, finds it
changed by one evaluation and raises it again in the next has no counterpart
here. -/
inductive Failure where
  | diagnosed (d : Diagnostic)
  | broken (b : Breakdown)
  deriving DecidableEq, Repr

/-- The failure of a fault at a known place. -/
def Failure.at (fault : Fault) (position : Int) (expression : String) :
    Failure :=
  .diagnosed ⟨fault, some position, some expression⟩

end Reckoner

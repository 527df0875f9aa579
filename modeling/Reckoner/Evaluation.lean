/-
Evaluating postfix tokens on a stack of operands.

Numbers and variables are pushed; functions and operators take their
arguments from the top of the stack and push their result. A variable
that is bound has its value; any other is asked of the resolver, and a
finite answer is bound, so no name is asked for twice. The bindings
outlive a failure: what was bound before it stays bound.

The stack is held against its limit after every token. What is left at
the end must be one value.

Main facts: a bound variable is never asked for (`variableValue_bound`),
and running two lists of tokens one after the other is running their
concatenation (`run_append`).
-/
import Reckoner.Limits.Check
import Reckoner.Postfix
import Reckoner.Resolver

namespace Reckoner

-- ============================================================ the context

/-- What an evaluation depends on beside tokens, bindings and
resolver. -/
structure Context extends Grammar where
  limits : Limits

/-- The context that is meant where tables and registries are optional. -/
def Context.orStandard (ctx : Context) : Context :=
  { ctx with
    operators := ctx.operators.orStandard,
    functions := ctx.functions.orBuiltin }

namespace Evaluation

/-- The stack of operands, the last one pushed first. -/
abbrev Stack := List Float

-- ============================================================= the values

/-- The value of a number token: the one it carries or, if it carries
none, the one that its text spells. -/
def numberValue (ctx : Context) (token : Token) : Except Failure Float :=
  match token.number.or (Decimal.read? token.text) with
  | some x => .ok x
  | none =>
      .error (.at (.malformedNumber token.text) token.position ctx.source)

/-- The finite double that an answer stands for: of a float itself, of an
integer the nearest one. Nothing else stands for a number, and an integer
beyond all doubles breaks the evaluation down. -/
def finiteValue : Value → Except Breakdown (Option Float)
  | .float x => .ok (if x.isFinite then some x else none)
  | .int n =>
      match Binary64.ofInt? n with
      | some x => .ok (some x)
      | none => .error .integerTooLarge
  | .text _ | .bool _ | .none => .ok none

/-- What a resolver's answer for a token comes to. A diagnosis without a
position gets that of the token. -/
def accept (ctx : Context) (token : Token) :
    Except Failure Value → Except Failure Float
  | .ok value =>
      match finiteValue value with
      | .ok (some x) => .ok x
      | .ok none =>
          .error (.at (.unusableValue token.text value) token.position
            ctx.source)
      | .error breakdown => .error (.broken breakdown)
  | .error (.diagnosed d) =>
      if d.position.isNone then .error (.at d.fault token.position ctx.source)
      else .error (.diagnosed d)
  | .error (.broken breakdown) => .error (.broken breakdown)

variable {m : Type → Type} [Monad m]

/-- The value of a variable and the bindings afterwards. -/
def variableValue (ctx : Context) (resolver : Resolver m) (token : Token)
    (bindings : Bindings) : m (Except Failure Float × Bindings) :=
  match bindings.find? token.text with
  | some x => pure (.ok x, bindings)
  | none => do
      let answer ← resolver.ask token.text
      pure <|
        match accept ctx token answer with
        | .ok x => (.ok x, bindings.insert token.text x)
        | .error failure => (.error failure, bindings)

-- ======================================================== the applications

/-- How many arguments a function takes from the stack; an unknown one,
which the call itself reports, counts as taking one. -/
def arityOf (functions : Registry) (name : String) : Nat :=
  match functions.find? name with
  | some spec => spec.arity
  | none => 1

/-- A report with the expression of the evaluation in place of any
other. -/
def inExpression (ctx : Context) : Failure → Failure
  | .diagnosed d => .diagnosed { d with expression := some ctx.source }
  | .broken breakdown => .broken breakdown

/-- Applies a function to the top of the stack. -/
def applyFunction (ctx : Context) (token : Token) (stack : Stack) :
    Except Failure Stack :=
  let arity := arityOf ctx.functions token.text
  if stack.length < arity then
    .error (.at (.missingArgument token.text) token.position ctx.source)
  else
    match ctx.functions.call token.text (stack.take arity).reverse
        (some token.position) with
    | .ok x => .ok (x :: stack.drop arity)
    | .error failure => .error (inExpression ctx failure)

/-- Applies an operator of the table to the top of the stack: one of
arity one to one operand, any other to two. -/
def applyOperator (ctx : Context) (token : Token) (stack : Stack) :
    Except Failure Stack :=
  match token.operator.bind fun op => (ctx.operators.find? op).map (op, ·) with
  | none =>
      .error (.at (.unknownOperator token.text) token.position ctx.source)
  | some (op, spec) =>
      if stack.length < spec.arity then
        .error (.at (.missingOperand op) token.position ctx.source)
      else if spec.arity = 1 then
        match stack with
        | x :: rest => push rest (spec.routine [x])
        | [] => .error (.broken .emptyStack)
      else
        match stack with
        | b :: a :: rest =>
            if op = .divide ∧ b == 0 then
              .error (.at .divisionByZero token.position ctx.source)
            else push rest (spec.routine [a, b])
        | _ => .error (.broken .emptyStack)
where
  /-- Pushes a result unless there is none. -/
  push (rest : Stack) : Except Breakdown Float → Except Failure Stack
    | .ok x => .ok (x :: rest)
    | .error breakdown => .error (.broken breakdown)

-- ================================================================ the run

/-- What a token makes of the stack, without the check of its depth. -/
def step (ctx : Context) (resolver : Resolver m) (token : Token)
    (stack : Stack) (bindings : Bindings) :
    m (Except Failure Stack × Bindings) :=
  match token.kind with
  | .number => pure ((numberValue ctx token).map (· :: stack), bindings)
  | .identifier => do
      let (value, bindings) ← variableValue ctx resolver token bindings
      pure (value.map (· :: stack), bindings)
  | .function => pure (applyFunction ctx token stack, bindings)
  | .operator => pure (applyOperator ctx token stack, bindings)
  | .leftParen | .rightParen | .comma =>
      pure (.error (.at (.unexpectedToken token.text) token.position
        ctx.source), bindings)

/-- A stack, if it is not too deep. -/
def checkDepth (ctx : Context) (token : Token) (stack : Stack) :
    Except Failure Stack :=
  match ctx.limits.check .stackDepth stack.length (some token.position) with
  | .ok () => .ok stack
  | .error d => .error (.diagnosed d)

/-- What a list of tokens makes of the stack, up to the first failure. -/
def run (ctx : Context) (resolver : Resolver m) :
    List Token → Stack → Bindings → m (Except Failure Stack × Bindings)
  | [], stack, bindings => pure (.ok stack, bindings)
  | token :: rest, stack, bindings => do
      let (outcome, bindings) ← step ctx resolver token stack bindings
      match outcome.bind (checkDepth ctx token) with
      | .ok stack => run ctx resolver rest stack bindings
      | .error failure => pure (.error failure, bindings)

/-- The one value that is left on the stack. -/
def result (ctx : Context) : Stack → Except Failure Float
  | [x] => .ok x
  | stack =>
      .error (.diagnosed ⟨.valuesLeft stack.length, none, some ctx.source⟩)

end Evaluation

/-- The value of postfix tokens and the bindings afterwards. An empty
table or registry stands for the usual one. -/
def evaluatePostfix {m : Type → Type} [Monad m] (ctx : Context)
    (resolver : Resolver m) (tokens : List Token) (bindings : Bindings) :
    m (Except Failure Float × Bindings) := do
  let ctx := ctx.orStandard
  let (outcome, bindings) ← Evaluation.run ctx resolver tokens [] bindings
  pure (outcome.bind (Evaluation.result ctx), bindings)

namespace Evaluation

-- ============================================================== the facts

variable {m : Type → Type} [Monad m]

/-- A bound variable has its value and nobody is asked. -/
theorem variableValue_bound {ctx : Context} {resolver : Resolver m}
    {token : Token} {bindings : Bindings} {x : Float}
    (h : bindings.find? token.text = some x) :
    variableValue ctx resolver token bindings = pure (.ok x, bindings) := by
  simp [variableValue, h]

/-- Running two lists of tokens one after the other is running both at
once. -/
theorem run_append [LawfulMonad m] (ctx : Context) (resolver : Resolver m)
    (first second : List Token) (stack : Stack) (bindings : Bindings) :
    run ctx resolver (first ++ second) stack bindings = (do
      let (outcome, bindings) ← run ctx resolver first stack bindings
      match outcome with
      | .ok stack => run ctx resolver second stack bindings
      | .error failure => pure (.error failure, bindings)) := by
  induction first generalizing stack bindings with
  | nil => simp [run]
  | cons token rest ih =>
      simp only [List.cons_append, run, bind_assoc]
      congr
      funext after
      cases after.1.bind (checkDepth ctx token) with
      | ok stack => exact ih stack after.2
      | error failure => simp

end Evaluation

end Reckoner

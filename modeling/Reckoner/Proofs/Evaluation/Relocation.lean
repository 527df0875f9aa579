/-
Moving tokens through the evaluation.

The machine looks at positions only to report them, and it takes no
position from elsewhere as long as the resolver reports none of its own
(`Resolver.Unplaced`): then a diagnosis gets the position of the token
that was asked for. So a step of a moved token makes the same stack, the
same bindings and the same questions, and a failure is moved with the
token (`Relocation.step_token`); the same follows of runs.
-/
import Reckoner.Proofs.Evaluation.Calculation
import Reckoner.Proofs.Postfix.Relocation

namespace Reckoner

/-- A resolver reports faults without saying where. -/
def Resolver.Unplaced {σ : Type} (resolver : Resolver (StateM σ)) : Prop :=
  ∀ name world d, ((resolver.ask name).run world).1 = .error (.diagnosed d) →
    d.position = none

namespace Relocation

open Evaluation

variable (r : Relocation)

def context (ctx : Context) : Context := { ctx with source := r.source }

/-- An outcome in which a failure is moved. -/
def outcome {α : Type} : Except Failure α → Except Failure α :=
  recast r.failure id

/-- What a calculation comes to, with a failure moved and all else as it
was. -/
def ending {α β σ : Type} (after : (Except Failure α × β) × σ) :
    (Except Failure α × β) × σ :=
  ((r.outcome after.1.1, after.1.2), after.2)

variable (ctx : Context) (token : Token)

-- ============================================================= the values

/-- A numeral is worth the same anywhere, or is malformed at its new place.
-/
theorem numberValue_token :
    numberValue (r.context ctx) (r.token token)
      = r.outcome (numberValue ctx token) := by
  rw [numberValue, numberValue, token_number, token_text]
  cases token.number.or (Decimal.read? token.text) <;> rfl

/-- An answer comes to the same; a fault that was not placed is placed at
the token. -/
theorem accept_token {answer : Except Failure Value}
    (h : ∀ d, answer = .error (.diagnosed d) → d.position = none) :
    accept (r.context ctx) (r.token token) answer
      = r.outcome (accept ctx token answer) := by
  cases answer with
  | ok value =>
      simp only [accept]
      cases finiteValue value with
      | error breakdown => rfl
      | ok found => cases found <;> rfl
  | error failure =>
      cases failure with
      | broken breakdown => rfl
      | diagnosed d =>
          obtain ⟨fault, position, expression⟩ := d
          obtain rfl : position = none := h _ rfl
          rfl

-- ======================================================= the applications

/-- A function is called with values; only its complaints have a place. -/
theorem call_position (registry : Registry) (name : String) (args : List Float)
    (position : Int) :
    registry.call name args (some (r.position position))
      = r.outcome (registry.call name args (some position)) := by
  unfold Registry.call
  cases registry.find? name with
  | none => rfl
  | some spec =>
      dsimp only
      by_cases hcount : args.length ≠ spec.arity
      · rw [if_pos hcount, if_pos hcount]
        rfl
      · rw [if_neg hcount, if_neg hcount]
        cases spec.routine args <;> rfl

private theorem inExpression_failure (failure : Failure) :
    inExpression (r.context ctx) (r.failure failure)
      = r.failure (inExpression ctx failure) := by
  cases failure <;> rfl

/-- A function takes its arguments from a stack of numbers, and those have no
places to move. -/
theorem applyFunction_token (stack : Stack) :
    applyFunction (r.context ctx) (r.token token) stack
      = r.outcome (applyFunction ctx token stack) := by
  have hfunctions : (r.context ctx).functions = ctx.functions := rfl
  simp only [applyFunction, hfunctions, token_text, token_position,
    call_position]
  by_cases hlength : stack.length < arityOf ctx.functions token.text
  · rw [if_pos hlength, if_pos hlength]
    rfl
  · rw [if_neg hlength, if_neg hlength]
    cases ctx.functions.call token.text
      (stack.take (arityOf ctx.functions token.text)).reverse
        (some token.position) with
    | ok x => rfl
    | error failure =>
        exact congrArg Except.error (r.inExpression_failure ctx failure)

private theorem push_outcome (rest : Stack) (value : Except Breakdown Float) :
    applyOperator.push rest value
      = r.outcome (applyOperator.push rest value) := by
  cases value <;> rfl

/-- An operator that is moved comes to what it came to, or lacks its operand
at the new place. -/
theorem applyOperator_token (stack : Stack) :
    applyOperator (r.context ctx) (r.token token) stack
      = r.outcome (applyOperator ctx token stack) := by
  have htable : (r.context ctx).operators = ctx.operators := rfl
  simp only [applyOperator, htable, token_operator]
  cases token.operator.bind fun op => (ctx.operators.find? op).map (op, ·) with
  | none => rfl
  | some entry =>
      obtain ⟨op, spec⟩ := entry
      dsimp only
      by_cases hlength : stack.length < spec.arity
      · rw [if_pos hlength, if_pos hlength]
        rfl
      · rw [if_neg hlength, if_neg hlength]
        by_cases hunary : spec.arity = 1
        · rw [if_pos hunary, if_pos hunary]
          cases stack with
          | nil => rfl
          | cons x rest => exact r.push_outcome rest _
        · rw [if_neg hunary, if_neg hunary]
          match stack with
          | [] | [_] => rfl
          | b :: a :: rest =>
              dsimp only
              by_cases hzero : op = .divide ∧ (b == 0) = true
              · rw [if_pos hzero, if_pos hzero]
                rfl
              · rw [if_neg hzero, if_neg hzero]
                exact r.push_outcome rest _

/-- A stack that is too deep is so at the new place of the token. -/
theorem checkDepth_token (stack : Stack) :
    checkDepth (r.context ctx) (r.token token) stack
      = r.outcome (checkDepth ctx token stack) := by
  have hlimits : (r.context ctx).limits = ctx.limits := rfl
  rw [checkDepth, checkDepth, token_position, hlimits, check_position]
  cases ctx.limits.check .stackDepth stack.length (some token.position) <;> rfl

-- =============================================================== the runs

variable {σ : Type} {resolver : Resolver (StateM σ)}
variable (hunplaced : resolver.Unplaced)
include hunplaced

/-- A variable is looked up, asked for and accepted under its name. The
failures of a resolver have no place of their own, so the evaluation gives
them the one that the variable was moved to. -/
theorem variableValue_token (bindings : Bindings) (world : σ) :
    (variableValue (r.context ctx) resolver (r.token token) bindings).run world
      = r.ending ((variableValue ctx resolver token bindings).run world) := by
  unfold variableValue
  rw [token_text]
  cases bindings.find? token.text with
  | some x => rfl
  | none =>
      have hplace := hunplaced token.text world
      dsimp only
      rw [runWorld_bind, runWorld_bind]
      generalize (resolver.ask token.text).run world = asked at hplace
      obtain ⟨answer, world'⟩ := asked
      dsimp only at hplace ⊢
      rw [r.accept_token ctx token hplace]
      cases accept ctx token answer <;> rfl

/-- A step of a moved token is that of the token, with a failure moved. -/
theorem step_context (stack : Stack) (bindings : Bindings) (world : σ) :
    (Evaluation.step (r.context ctx) resolver (r.token token) stack
      bindings).run world
      = r.ending ((Evaluation.step ctx resolver token stack bindings).run
        world) := by
  unfold Evaluation.step
  rw [token_kind]
  cases token.kind with
  | number =>
      dsimp only
      rw [numberValue_token]
      cases numberValue ctx token <;> rfl
  | identifier =>
      dsimp only
      rw [runWorld_bind, runWorld_bind,
        r.variableValue_token ctx token hunplaced]
      generalize (variableValue ctx resolver token bindings).run world = after
      obtain ⟨⟨value, bindings'⟩, world'⟩ := after
      cases value <;> rfl
  | function =>
      dsimp only
      rw [applyFunction_token]
      rfl
  | operator =>
      dsimp only
      rw [applyOperator_token]
      rfl
  | leftParen | rightParen | comma => rfl

/-- By induction on the tokens: each step is made on the same stack, bindings
and world. -/
theorem run_context (tokens : List Token) (stack : Stack) (bindings : Bindings)
    (world : σ) :
    (run (r.context ctx) resolver (tokens.map r.token) stack
      bindings).run world
      = r.ending ((run ctx resolver tokens stack bindings).run world) := by
  induction tokens generalizing stack bindings world with
  | nil => rfl
  | cons token rest ih =>
      rw [List.map_cons, run, run, runWorld_bind, runWorld_bind,
        r.step_context ctx token hunplaced]
      generalize (Evaluation.step ctx resolver token stack bindings).run world
        = after
      obtain ⟨⟨outcome, bindings'⟩, world'⟩ := after
      have hchecked :
          (r.outcome outcome).bind (checkDepth (r.context ctx) (r.token token))
          = r.outcome (outcome.bind (checkDepth ctx token)) :=
        recast_bind (r.checkDepth_token ctx token)
      dsimp only [ending]
      rw [hchecked]
      cases outcome.bind (checkDepth ctx token) with
      | error failure => rfl
      | ok stack' => exact ih stack' bindings' world'

/-- The evaluation of moved tokens is that of the tokens, with a failure
moved. -/
theorem evaluatePostfix_context (tokens : List Token) (bindings : Bindings)
    (world : σ) :
    (evaluatePostfix (r.context ctx) resolver (tokens.map r.token)
      bindings).run world
      = r.ending ((evaluatePostfix ctx resolver tokens bindings).run
        world) := by
  have hstandard : (r.context ctx).orStandard = r.context ctx.orStandard := rfl
  rw [evaluatePostfix, evaluatePostfix, runWorld_bind, runWorld_bind,
    hstandard, r.run_context ctx.orStandard hunplaced]
  generalize (run ctx.orStandard resolver tokens [] bindings).run world = after
  obtain ⟨⟨outcome, bindings'⟩, world'⟩ := after
  have hresult : (r.outcome outcome).bind (result (r.context ctx.orStandard))
      = r.outcome (outcome.bind (result ctx.orStandard)) := by
    refine recast_bind fun stack => ?_
    match stack with
    | [] | [_] | _ :: _ :: _ => rfl
  show ((_, _), _) = _
  dsimp only [ending]
  rw [hresult]
  rfl

end Relocation

end Reckoner

/-
Expressions as trees: what infix text says once its grouping is settled.

A tree keeps the infix tokens it was read from. Its postorder is the
postfix form that a reader of the tree would write down; its meaning is
the plain recursion: the left operand, the right operand, the operator;
the arguments of a call from left to right and then the function. A
name that is not bound is asked of the resolver and its answer is bound.
The first failure ends the calculation, the bindings made so far stay.

Nothing here knows of stacks, of precedence or of limits. The conversion
is held against `postorder`, the evaluation against `evaluate`.

Main fact: trees are built up from their parts, the arguments of a call
included (`Expression.induct`).
-/
import Reckoner.Calculator

namespace Reckoner

-- ======================================================= operator tokens

namespace Token

/-- The operator that an operator token means: the one it carries or, if
it carries none, the one its text stands for. -/
def meant? (token : Token) : Option Operator :=
  if token.kind = .operator then
    token.operator.or (Operator.ofText? token.text)
  else none

/-- A binary operator token as it stands in a postfix form, where it
always carries its operator. -/
def carrying (token : Token) (op : Operator) : Token :=
  if token.operator.isNone then
    { token with number := none, operator := some op }
  else token

/-- A unary minus sign as it stands in a postfix form. -/
def negating (minus : Token) : Token :=
  ⟨.operator, minus.text, minus.position, none, some .negate⟩

/-- Only operator tokens mean an operator. -/
theorem kind_of_meant? {token : Token} {op : Operator}
    (h : token.meant? = some op) : token.kind = .operator := by
  unfold meant? at h
  split at h
  · assumption
  · cases h

/-- An operator token carries in a postfix form what it means. -/
theorem operator_carrying {token : Token} {op : Operator}
    (h : token.meant? = some op) : (token.carrying op).operator = some op := by
  unfold meant? at h
  split at h
  case isFalse => cases h
  case isTrue =>
    unfold carrying
    cases hop : token.operator with
    | none => rfl
    | some op' =>
        rw [hop] at h
        simpa [hop] using h

theorem kind_carrying (token : Token) (op : Operator) :
    (token.carrying op).kind = token.kind := by
  unfold carrying
  split <;> rfl

end Token

-- ============================================================== the trees

/-- An expression whose grouping is settled. -/
inductive Expression where
  | number (token : Token)
  | identifier (token : Token)
  | negation (minus : Token) (body : Expression)
  | binary (op : Operator) (token : Token) (left right : Expression)
  | call (function : Token) (arguments : List Expression)

namespace Expression

/-- What holds of an expression if it holds of its parts holds of every
expression. -/
@[induction_eliminator]
theorem induct {motive : Expression → Prop}
    (number : ∀ token, motive (.number token))
    (identifier : ∀ token, motive (.identifier token))
    (negation : ∀ minus body, motive body → motive (.negation minus body))
    (binary : ∀ op token left right, motive left → motive right →
      motive (.binary op token left right))
    (call : ∀ function arguments, (∀ e ∈ arguments, motive e) →
      motive (.call function arguments)) :
    ∀ e, motive e
  | .number token => number token
  | .identifier token => identifier token
  | .negation minus body =>
      negation minus body (induct number identifier negation binary call body)
  | .binary op token left right =>
      binary op token left right
        (induct number identifier negation binary call left)
        (induct number identifier negation binary call right)
  | .call function arguments =>
      call function arguments fun e _ =>
        induct number identifier negation binary call e

mutual

/-- The postfix form of an expression: operands before operators. -/
def postorder : Expression → List Token
  | .number token => [token]
  | .identifier token => [token]
  | .negation minus body => postorder body ++ [minus.negating]
  | .binary op token left right =>
      postorder left ++ postorder right ++ [token.carrying op]
  | .call function arguments => postorderAll arguments ++ [function]

/-- The postfix forms of expressions one after the other. -/
def postorderAll : List Expression → List Token
  | [] => []
  | e :: rest => postorder e ++ postorderAll rest

end

end Expression

-- ============================================================ the meaning

/-- A calculation in the bindings of a calculator, which it may extend
and which outlive its failure. -/
abbrev Calculation (m : Type → Type) := ExceptT Failure (StateT Bindings m)

namespace Expression

variable {m : Type → Type} [Monad m]

/-- The value of a variable: the one it is bound to or, after asking, the
accepted answer, which is bound. -/
def lookUp (ctx : Context) (resolver : Resolver m) (token : Token) :
    Calculation m Float := do
  match (← get).find? token.text with
  | some x => return x
  | none =>
      let answer ← resolver.ask token.text
      let x ← Evaluation.accept ctx token answer
      modify (·.insert token.text x)
      return x

/-- A binary operator applied to its operands. Only division by a zero
is a fault. -/
def combine (ctx : Context) (op : Operator) (token : Token) (x y : Float) :
    Except Failure Float :=
  if op = .divide ∧ y == 0 then
    .error (.at .divisionByZero token.position ctx.source)
  else (op.routine [x, y]).mapError .broken

/-- A function of the registry applied to its arguments. -/
def apply (ctx : Context) (function : Token) (args : List Float) :
    Except Failure Float :=
  match ctx.functions.find? function.text with
  | some spec => (spec.routine args).mapError .broken
  | none =>
      .error (.at (.unknownFunction function.text) function.position
        ctx.source)

mutual

/-- The value of an expression. -/
def evaluate (ctx : Context) (resolver : Resolver m) :
    Expression → Calculation m Float
  | .number token => Evaluation.numberValue ctx token
  | .identifier token => lookUp ctx resolver token
  | .negation _ body => do
      let x ← evaluate ctx resolver body
      return -x
  | .binary op token left right => do
      let x ← evaluate ctx resolver left
      let y ← evaluate ctx resolver right
      combine ctx op token x y
  | .call function arguments => do
      let args ← evaluateAll ctx resolver arguments
      apply ctx function args

/-- The values of expressions, from the first to the last. -/
def evaluateAll (ctx : Context) (resolver : Resolver m) :
    List Expression → Calculation m (List Float)
  | [] => return []
  | e :: rest => do
      let x ← evaluate ctx resolver e
      let xs ← evaluateAll ctx resolver rest
      return x :: xs

end

end Expression

end Reckoner

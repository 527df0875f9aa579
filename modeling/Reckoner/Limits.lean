/-
The three resource limits of an evaluation: how long an expression may
be, how many tokens it may have and how deep the stack of operands may
grow. A limit is an integer and may be zero or negative; it is exceeded
by anything greater.
-/
namespace Reckoner

/-- The resources that are limited. -/
inductive Resource where
  | expressionLength
  | tokens
  | stackDepth
  deriving DecidableEq, Repr

/-- The name under which a limit is configured and reported. -/
def Resource.limitName : Resource → String
  | .expressionLength => "max_expression_length"
  | .tokens => "max_tokens"
  | .stackDepth => "max_stack_depth"

/-- One limit for each resource. -/
structure Limits where
  maxExpressionLength : Int := 4096
  maxTokens : Int := 1024
  maxStackDepth : Int := 256
  deriving DecidableEq, Repr

/-- The limit on a resource. -/
def Limits.of (limits : Limits) : Resource → Int
  | .expressionLength => limits.maxExpressionLength
  | .tokens => limits.maxTokens
  | .stackDepth => limits.maxStackDepth

/-- Limits that are nowhere lower. -/
def Limits.le (limits limits' : Limits) : Prop :=
  ∀ resource, limits.of resource ≤ limits'.of resource

end Reckoner

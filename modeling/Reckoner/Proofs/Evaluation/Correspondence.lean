/-
One calculation in two monads.

A calculation does nothing with the monad it acts in but ask the resolver,
sequence and return. So whatever relation holds between what two resolvers
do when they are asked, and is kept by sequencing (`Correspondence`), holds
between the calculations with the one resolver and with the other: it is
carried through a step and a run of the stack machine (`rel_step`,
`rel_run`) to a whole calculation (`rel_tryEvaluate`).
-/
import Reckoner.Calculator

namespace Reckoner

/-- A relation between the actions of two monads that holds of results and
is kept by acting one after the other. -/
structure Correspondence (m m' : Type → Type) [Monad m] [Monad m'] where
  rel : {α : Type} → m α → m' α → Prop
  pure {α : Type} (a : α) : rel (Pure.pure a) (Pure.pure a)
  bind {α β : Type} {act : m α} {act' : m' α} {next : α → m β}
    {next' : α → m' β} :
    rel act act' → (∀ a, rel (next a) (next' a)) →
      rel (act >>= next) (act' >>= next')

/-- Resolvers whose actions correspond, whatever they are asked for. -/
def Correspondence.Resolvers {m m' : Type → Type} [Monad m] [Monad m']
    (r : Correspondence m m') (resolver : Resolver m)
    (resolver' : Resolver m') : Prop :=
  ∀ name, r.rel (resolver.ask name) (resolver'.ask name)

namespace Correspondence

open Evaluation

variable {m m' : Type → Type} [Monad m] [Monad m'] (r : Correspondence m m')
variable {resolver : Resolver m} {resolver' : Resolver m'}

/-- The resolvers are asked at one place only. -/
theorem rel_variableValue (hask : r.Resolvers resolver resolver')
    (ctx : Context) (token : Token) (bindings : Bindings) :
    r.rel (variableValue ctx resolver token bindings)
      (variableValue ctx resolver' token bindings) := by
  unfold variableValue
  cases bindings.find? token.text with
  | some x => exact r.pure _
  | none => exact r.bind (hask token.text) fun _ => r.pure _

private theorem rel_step (hask : r.Resolvers resolver resolver')
    (ctx : Context) (token : Token) (stack : Stack) (bindings : Bindings) :
    r.rel (step ctx resolver token stack bindings)
      (step ctx resolver' token stack bindings) := by
  unfold step
  cases token.kind with
  | identifier =>
      exact r.bind (r.rel_variableValue hask ctx token bindings)
        fun _ => r.pure _
  | _ => exact r.pure _

/-- The relation is carried through a run by induction on its tokens: both
sides go on from the same stack and bindings. -/
theorem rel_run (hask : r.Resolvers resolver resolver') (ctx : Context)
    (tokens : List Token) (stack : Stack) (bindings : Bindings) :
    r.rel (run ctx resolver tokens stack bindings)
      (run ctx resolver' tokens stack bindings) := by
  induction tokens generalizing stack bindings with
  | nil => exact r.pure _
  | cons token rest ih =>
      refine r.bind (r.rel_step hask ctx token stack bindings) ?_
      intro (outcome, bindings')
      simp only
      cases outcome.bind (checkDepth ctx token) with
      | error failure => exact r.pure _
      | ok stack' => exact ih stack' bindings'

/-- The rest of an evaluation asks nobody. -/
theorem rel_evaluate (hask : r.Resolvers resolver resolver') (c : Calculator)
    (expression : String) :
    r.rel (c.evaluate resolver expression)
      (c.evaluate resolver' expression) := by
  unfold Calculator.evaluate
  cases c.toPostfix expression with
  | error failure => exact r.pure _
  | ok tokens =>
      refine r.bind (r.bind (r.rel_run hask _ tokens [] c.bindings) ?_) ?_
      · exact fun _ => r.pure _
      · exact fun _ => r.pure _

theorem rel_tryEvaluate (hask : r.Resolvers resolver resolver')
    (c : Calculator) (expression : String) :
    r.rel (c.tryEvaluate resolver expression)
      (c.tryEvaluate resolver' expression) :=
  r.bind (r.rel_evaluate hask c expression) fun _ => r.pure _

end Correspondence

end Reckoner

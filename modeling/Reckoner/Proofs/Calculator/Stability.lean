/-
A value that was given once is given again.

Evaluations only add to what a calculator has bound (`grown_evaluate`),
however they end; only a bind or a clear takes something away or changes
it. And the value of a text depends on nothing but the calculator's
settings and functions and on the variables of the text, which are all
bound once a value was given (`evaluate_again`). So through any session
without binds and clears the value stays, and nobody is asked for
anything to find it again (`evaluate_after_run`).
-/
import Reckoner.Proofs.Calculator.Session
import Reckoner.Proofs.Evaluation.Growth

namespace Reckoner

open Evaluation

-- ========================================================= one evaluation

namespace Calculator

/-- A calculator that differs from another in nothing but further
bindings. -/
def Grown (c later : Calculator) : Prop :=
  later = { c with bindings := later.bindings }
    ∧ c.bindings.Extends later.bindings

theorem Grown.refl (c : Calculator) : Grown c c := ⟨rfl, .refl _⟩

theorem Grown.trans {c later latest : Calculator} (h : Grown c later)
    (h' : Grown later latest) : Grown c latest := by
  refine ⟨?_, h.2.trans h'.2⟩
  rw [h'.1, h.1]

variable {σ : Type} (resolver : Resolver (StateM σ))

/-- An evaluation changes nothing of a calculator but its bindings, and to
those it only adds. -/
theorem grown_evaluate (c : Calculator) (text : String) (world : σ) :
    Grown c ((c.evaluate resolver text).run world).1.2 := by
  unfold evaluate
  cases c.toPostfix text with
  | error failure => exact .refl c
  | ok tokens =>
      exact ⟨rfl, extends_evaluatePostfix _ resolver tokens c.bindings world⟩

/-- What was evaluated to a value is evaluated to it again by a calculator
that has grown since, and nobody is asked. -/
theorem evaluate_again {m : Type → Type} [Monad m] [LawfulMonad m]
    {c c' later : Calculator} {text : String} {world world' : σ} {x : Float}
    (other : Resolver m)
    (h : (c.evaluate resolver text).run world = ((.ok x, c'), world'))
    (hlater : Grown c' later) :
    later.evaluate other text = pure (.ok x, later) := by
  have hgrown : Grown c c' := by
    have hgrown := c.grown_evaluate resolver text world
    rwa [h] at hgrown
  rw [(hgrown.trans hlater).1]
  have hform :
      ({ c with bindings := later.bindings } : Calculator).toPostfix text
      = c.toPostfix text := rfl
  unfold evaluate at h ⊢
  rw [hform]
  cases htokens : c.toPostfix text with
  | error failure =>
      rw [htokens] at h
      cases h
  | ok tokens =>
      simp only [htokens, runWorld_bind] at h
      generalize hrun : (evaluatePostfix (c.context text) resolver tokens
        c.bindings).run
        world = after at h
      obtain ⟨⟨outcome, bindings⟩, world''⟩ := after
      obtain rfl : outcome = .ok x := congrArg (·.1.1) h
      obtain rfl : { c with bindings } = c' := congrArg (·.1.2) h
      have hagain := evaluatePostfix_again other hrun hlater.2
      dsimp only [context] at hagain ⊢
      rw [hagain, pure_bind]

end Calculator

-- =========================================================== the sessions

/-- Whether an action forgets a binding or may change one. -/
def Action.rebinds : Action → Bool
  | .bind .. | .clear => true
  | .evaluate _ | .tryEvaluate _ | .copy | .edit _ => false

namespace Session

open Calculator

variable {σ : Type} (resolver : Resolver (StateM σ))

/-- An action that does not rebind only adds to the bindings. -/
theorem grown_perform (s : Session) {action : Action}
    (h : action.rebinds = false) (world : σ) :
    Grown s.calculator
      ((s.perform resolver action).run world).1.calculator := by
  cases action with
  | evaluate text => exact s.calculator.grown_evaluate resolver text world
  | tryEvaluate text => exact s.calculator.grown_evaluate resolver text world
  | bind name x => cases h
  | clear => cases h
  | copy => exact .refl _
  | edit change => exact .refl _

/-- So do any number of them. -/
theorem grown_run (s : Session) {actions : List Action}
    (h : ∀ action ∈ actions, action.rebinds = false) (world : σ) :
    Grown s.calculator ((s.run resolver actions).run world).1.calculator := by
  induction actions generalizing s world with
  | nil => exact .refl _
  | cons action rest ih =>
      rw [run, runWorld_bind]
      have hfirst := s.grown_perform resolver (h action (by simp)) world
      exact hfirst.trans (ih _ (fun next hnext => h next (by simp [hnext])) _)

/-- If a text was given a value, then after any session without binds and
clears, whatever was evaluated in it and however that ended, the text is
given the same value, the bindings are left as they are and no resolver is
asked for anything, were it another one than before. -/
theorem evaluate_after_run {m : Type → Type} [Monad m] [LawfulMonad m]
    {s : Session} {text : String} {world world' : σ} {x : Float}
    {c : Calculator}
    (h : (s.calculator.evaluate resolver text).run world
      = ((.ok x, c), world'))
    {actions : List Action}
    (hactions : ∀ action ∈ actions, action.rebinds = false)
    (other : Resolver m) :
    let later :=
      ((({ s with calculator := c } : Session).run resolver actions).run
      world').1.calculator
    later.evaluate other text = pure (.ok x, later) :=
  Calculator.evaluate_again resolver other h
    (grown_run resolver { s with calculator := c } hactions world')

/-- A resolver that counts its answers gives `x` and `y` the values one and
two. After evaluations that fail half way, one with a further variable
bound, and one that would have had other answers, `x-y` is what it was. -/
theorem evaluate_after_run_failures :
    let resolver : Resolver (StateM Nat) :=
      ⟨fun _ asked => (.ok (.int asked), asked + 1)⟩
    let s : Session := {calculator := {}}
    let actions : List Action :=
      [.evaluate "z/0", .tryEvaluate "x+", .evaluate "y^2)",
        .tryEvaluate "u*x-v"]
    let first := (s.calculator.evaluate resolver "x-y").run 1
    let later :=
      ((({ s with calculator := first.1.2 } : Session).run resolver
        actions).run
      first.2).1.calculator
    first = ((.ok (-1.0), first.1.2), first.2)
      ∧ (∀ action ∈ actions, action.rebinds = false)
      ∧ later.evaluate resolver "x-y" = pure (.ok (-1.0), later) := by
  intro resolver s actions first later
  have hvalue : first.1.1 = .ok (-1.0) := eq_ok_of_toOption (by decide +kernel)
  have hfirst : first = ((.ok (-1.0), first.1.2), first.2) := by
    rw [← hvalue]
    rfl
  have hactions : ∀ action ∈ actions, action.rebinds = false := by
    simp [actions, Action.rebinds]
  exact ⟨hfirst, hactions,
    evaluate_after_run resolver hfirst hactions resolver⟩

end Session

end Reckoner

/-
The stack machine as a calculation.

The meaning of an expression is a `Calculation`, the run of the stack
machine a function of the bindings; both are the same kind of thing, seen
at once from inside and from outside. `Calculation.start` is the view
from outside: what a calculation does when it is started on given
bindings. Two calculations that do the same from every start are equal
(`Calculation.ext`), and each way of building one is an equation about
`start`.

With that each token of a postfix form is a calculation on the stack
(`stepping`), and a postfix form without the check of the depth is their
sequence (`working`). The check is put aside here because it is not a
part of the meaning: a run whose stack stays within its limit
(`Shallow`) is the sequence and nothing else (`run_eq_working`).

What one look-up of a variable does, and what a run that succeeds
consists of, is said here once (`variableValue_cases`, `run_cons_eq_ok`).
-/
import Reckoner.Proofs.Expression
import Reckoner.Proofs.Foreseen

namespace Reckoner

-- ======================================================== from the outside

namespace Calculation

variable {m : Type → Type} {α β : Type}

/-- What a calculation comes to from given bindings, and the bindings
afterwards. -/
def start (x : Calculation m α) (bindings : Bindings) :
    m (Except Failure α × Bindings) :=
  x.run.run bindings

/-- A calculation is what it does to each bindings it is started on. -/
theorem ext {x y : Calculation m α}
    (h : ∀ bindings, x.start bindings = y.start bindings) : x = y :=
  funext h

variable [Monad m]

theorem start_pure (a : α) (bindings : Bindings) :
    (pure a : Calculation m α).start bindings = pure (.ok a, bindings) := rfl

theorem start_except (outcome : Except Failure α) (bindings : Bindings) :
    (liftM outcome : Calculation m α).start bindings
      = pure (outcome, bindings) := rfl

/-- What follows is started on the bindings that were left, or not at
all. -/
theorem start_bind (x : Calculation m α) (f : α → Calculation m β)
    (bindings : Bindings) :
    (x >>= f).start bindings = (do
      let (outcome, bindings) ← x.start bindings
      match outcome with
      | .ok a => (f a).start bindings
      | .error failure => pure (.error failure, bindings)) := by
  show StateT.bind _ _ _ = _
  simp only [StateT.bind, start]
  congr 1
  funext ⟨outcome, bindings⟩
  cases outcome <;> rfl

variable [LawfulMonad m]

theorem start_get (bindings : Bindings) :
    (get : Calculation m Bindings).start bindings
      = pure (.ok bindings, bindings) := by
  simp [start, get, getThe, MonadStateOf.get, liftM, monadLift,
    MonadLift.monadLift, ExceptT.lift, ExceptT.mk, ExceptT.run, StateT.get,
    StateT.run, StateT.map, Functor.map]

theorem start_modify (f : Bindings → Bindings) (bindings : Bindings) :
    (modify f : Calculation m PUnit).start bindings
      = pure (.ok ⟨⟩, f bindings) := by
  show (modifyGet fun bindings =>
    (⟨⟩, f bindings) : Calculation m PUnit).start _ = _
  simp [start, modifyGet, MonadStateOf.modifyGet, monadLift,
    MonadLift.monadLift, ExceptT.lift, ExceptT.mk, ExceptT.run,
    StateT.modifyGet, StateT.run, StateT.map, Functor.map]

theorem start_lift (x : m α) (bindings : Bindings) :
    (liftM x : Calculation m α).start bindings
      = (do let a ← x; pure (.ok a, bindings)) := by
  simp [start, liftM, monadLift, MonadLift.monadLift, ExceptT.lift, ExceptT.mk,
    ExceptT.run, StateT.lift, StateT.run, StateT.map, Functor.map]

end Calculation

-- a resolver that acts on a state of the world

/-- What follows finds the world as it was left. -/
theorem runWorld_bind {σ α β : Type} (x : StateM σ α) (f : α → StateM σ β)
    (world : σ) :
    (x >>= f).run world = (f (x.run world).1).run (x.run world).2 := rfl

open Calculation

namespace Evaluation

-- ============================================================== the machine

section Machine

variable {m : Type → Type} [Monad m] (ctx : Context) (resolver : Resolver m)

/-- What a token makes of the stack, as a calculation. -/
def stepping (token : Token) (stack : Stack) : Calculation m Stack :=
  fun bindings => step ctx resolver token stack bindings

/-- What tokens make of the stack, were it not limited. -/
def working : List Token → Stack → Calculation m Stack
  | [], stack => pure stack
  | token :: rest, stack => do
      let stack ← stepping ctx resolver token stack
      working rest stack

theorem start_stepping (token : Token) (stack : Stack) (bindings : Bindings) :
    (stepping ctx resolver token stack).start bindings
      = step ctx resolver token stack bindings := rfl

variable [LawfulMonad m]

/-- Work on two lists of tokens is work on one after the other. -/
theorem working_append (first second : List Token) (stack : Stack) :
    working ctx resolver (first ++ second) stack = (do
      let stack ← working ctx resolver first stack
      working ctx resolver second stack) := by
  induction first generalizing stack with
  | nil => simp [working]
  | cons token rest ih => simp [working, ih]

theorem working_singleton (token : Token) (stack : Stack) :
    working ctx resolver [token] stack
      = stepping ctx resolver token stack := by
  simp [working]

end Machine

-- ============================================================ the variables

section Variables

variable {σ : Type} {ctx : Context} {resolver : Resolver (StateM σ)}
  {token : Token}
variable {bindings : Bindings} {answer : Except Failure Value}
  {world world' : σ}

/-- An unbound variable is asked for, and an accepted answer is bound. -/
theorem variableValue_accepted {x : Float}
    (hunbound : bindings.find? token.text = none)
    (hask : (resolver.ask token.text).run world = (answer, world'))
    (haccept : accept ctx token answer = .ok x) :
    (variableValue ctx resolver token bindings).run world
      = ((.ok x, bindings.insert token.text x), world') := by
  simp only [variableValue, hunbound, runWorld_bind, hask, haccept]
  rfl

/-- A refused answer leaves the bindings as they were. -/
theorem variableValue_refused {failure : Failure}
    (hunbound : bindings.find? token.text = none)
    (hask : (resolver.ask token.text).run world = (answer, world'))
    (haccept : accept ctx token answer = .error failure) :
    (variableValue ctx resolver token bindings).run world
      = ((.error failure, bindings), world') := by
  simp only [variableValue, hunbound, runWorld_bind, hask, haccept]
  rfl

variable (ctx resolver token bindings world)

/-- What looking a variable up does: a bound one has its value, an accepted
answer is bound, and a refused one changes nothing. -/
theorem variableValue_cases :
    (∃ x, bindings.find? token.text = some x
      ∧ (variableValue ctx resolver token bindings).run world
        = ((.ok x, bindings), world))
    ∨ bindings.find? token.text = none
      ∧ ∃ answer world', (resolver.ask token.text).run world = (answer, world')
        ∧ ((∃ x, accept ctx token answer = .ok x
            ∧ (variableValue ctx resolver token bindings).run world
              = ((.ok x, bindings.insert token.text x), world'))
          ∨ ∃ failure, accept ctx token answer = .error failure
            ∧ (variableValue ctx resolver token bindings).run world
              = ((.error failure, bindings), world')) := by
  cases hfind : bindings.find? token.text with
  | some x =>
      refine Or.inl ⟨x, rfl, ?_⟩
      rw [variableValue_bound hfind]
      rfl
  | none =>
      generalize hask : (resolver.ask token.text).run world = asked
      obtain ⟨answer, world'⟩ := asked
      refine Or.inr ⟨rfl, answer, world', rfl, ?_⟩
      cases haccept : accept ctx token answer with
      | ok x =>
          exact Or.inl ⟨x, rfl, variableValue_accepted hfind hask haccept⟩
      | error failure =>
          exact Or.inr ⟨failure, rfl, variableValue_refused hfind hask haccept⟩

end Variables

-- ================================================================ the limit

variable {σ : Type}

/-- Whether the stack stays within its limit after every token of a run,
for as long as the run goes on. -/
def Shallow (ctx : Context) (resolver : Resolver (StateM σ)) :
    List Token → Stack → Bindings → σ → Prop
  | [], _, _, _ => True
  | token :: rest, stack, bindings, world =>
      match (step ctx resolver token stack bindings).run world with
      | ((.ok stack, bindings), world) =>
          stack.length ≤ ctx.limits.of .stackDepth
            ∧ Shallow ctx resolver rest stack bindings world
      | ((.error _, _), _) => True

/-- A check that a stack passes changes nothing. -/
theorem checkDepth_eq_ok {ctx : Context} {token : Token} {stack : Stack}
    (h : stack.length ≤ ctx.limits.of .stackDepth) :
    checkDepth ctx token stack = .ok stack := by
  rw [checkDepth, Limits.check_eq_ok_iff.mpr h]

/-- A stack that passes the check is the one that was checked. -/
theorem checkDepth_eq_ok_iff {ctx : Context} {token : Token}
    {stack stack' : Stack} :
    checkDepth ctx token stack = .ok stack'
      ↔ stack = stack' ∧ stack.length ≤ ctx.limits.of .stackDepth := by
  unfold checkDepth
  cases hcheck : ctx.limits.check .stackDepth stack.length
    (some token.position) with
  | ok passed =>
      have hdepth := Limits.check_eq_ok_iff.mp hcheck
      simp [hdepth]
  | error d =>
      have hdeep : ¬ (stack.length : Int) ≤ ctx.limits.of .stackDepth :=
        fun h => by
        rw [Limits.check_eq_ok_iff.mpr h] at hcheck
        cases hcheck
      simp [hdeep]

/-- A run that succeeds is a step that succeeds, a stack within the limit
and a run of the rest that succeeds. -/
theorem run_cons_eq_ok {ctx : Context} {resolver : Resolver (StateM σ)}
    {token : Token} {rest : List Token} {stack after : Stack}
    {bindings bindings' : Bindings} {world world' : σ}
    (h : (run ctx resolver (token :: rest) stack bindings).run world
      = ((.ok after, bindings'), world')) :
    ∃ middle between world'',
      (step ctx resolver token stack bindings).run world
          = ((.ok middle, between), world'')
        ∧ middle.length ≤ ctx.limits.of .stackDepth
        ∧ (run ctx resolver rest middle between).run world''
          = ((.ok after, bindings'), world') := by
  rw [run, runWorld_bind] at h
  generalize (step ctx resolver token stack bindings).run world = result at h ⊢
  obtain ⟨⟨outcome, between⟩, world''⟩ := result
  cases outcome with
  | error failure => cases h
  | ok middle =>
      simp only [Except.bind] at h
      cases hdepth : checkDepth ctx token middle with
      | error failure =>
          rw [hdepth] at h
          cases h
      | ok middle' =>
          rw [hdepth] at h
          obtain ⟨rfl, hle⟩ := checkDepth_eq_ok_iff.mp hdepth
          exact ⟨middle, between, world'', rfl, hle, h⟩

/-- A run within the limit is the sequence of its steps. -/
theorem run_eq_working {ctx : Context} {resolver : Resolver (StateM σ)}
    {tokens : List Token} {stack : Stack} {bindings : Bindings} {world : σ}
    (h : Shallow ctx resolver tokens stack bindings world) :
    (run ctx resolver tokens stack bindings).run world
      = ((working ctx resolver tokens stack).start bindings).run world := by
  induction tokens generalizing stack bindings world with
  | nil => rfl
  | cons token rest ih =>
      rw [run, working, start_bind, runWorld_bind, runWorld_bind,
        start_stepping]
      rw [Shallow] at h
      generalize hstep : (step ctx resolver token stack bindings).run world
        = after at h ⊢
      obtain ⟨⟨outcome, bindings⟩, world⟩ := after
      cases outcome with
      | error failure => rfl
      | ok stack =>
          obtain ⟨hdepth, hrest⟩ := h
          have hcheck :
              (Except.ok stack).bind (checkDepth ctx token) = .ok stack :=
            checkDepth_eq_ok hdepth
          dsimp only
          rw [hcheck]
          exact ih hrest

end Evaluation

-- ============================================================ the calculator

namespace Calculator

variable {σ : Type}

/-- A calculation whose text has no postfix form fails as its conversion. -/
theorem run_evaluate_of_toPostfix_error {c : Calculator}
    {resolver : Resolver (StateM σ)} {text : String} {failure : Failure}
    (h : c.toPostfix text = .error failure)
    (world : σ) :
    (c.evaluate resolver text).run world = ((.error failure, c), world) := by
  rw [evaluate_of_toPostfix_error h]
  rfl

/-- A calculation whose text has a postfix form is the evaluation of that. -/
theorem run_evaluate_of_toPostfix {c : Calculator}
    {resolver : Resolver (StateM σ)} {text : String} {tokens : List Token}
    (h : c.toPostfix text = .ok tokens)
    (world : σ) :
    let after :=
      (evaluatePostfix (c.context text) resolver tokens c.bindings).run world
    (c.evaluate resolver text).run world
      = ((after.1.1, { c with bindings := after.1.2 }), after.2) := by
  rw [evaluate, h]
  rfl

end Calculator

end Reckoner

/-
Calculators that share a resolver do not disturb each other or
themselves.

A calculator remembers the answers that it was given. If a resolver
answers a name always in the same way, then remembering cannot be told
from asking: a remembered answer is the one that would be given again, and
an answer that was refused was never remembered. So what an evaluation
comes to is determined by the expression (`determined_run`), from whatever
remembered answers it starts, and it leaves remembered answers behind,
also where it fails half way. By induction the replies to any sequence of
queries, spread over any number of calculators, are those of calculators
that were never used before (`replies_eq_fresh`).
-/
import Reckoner.Proofs.Calculator.Session
import Reckoner.Proofs.Evaluation.Growth

namespace Reckoner

open Evaluation

-- ============================================================ the queries

/-- What may be asked of a calculator. -/
inductive Query where
  | evaluate (text : String)
  | tryEvaluate (text : String)
  | clear

/-- What is seen of it. -/
inductive Reply where
  | outcome (outcome : Except Failure Float)
  | verdict (verdict : Except Breakdown (Except Diagnostic Float))
  | cleared

namespace Calculator

variable {m : Type → Type} [Monad m]

def serve (c : Calculator) (resolver : Resolver m) :
    Query → m (Reply × Calculator)
  | .evaluate text => do
      let (outcome, c) ← c.evaluate resolver text
      pure (.outcome outcome, c)
  | .tryEvaluate text => do
      let (verdict, c) ← c.tryEvaluate resolver text
      pure (.verdict verdict, c)
  | .clear => pure (.cleared, c.clear)

/-- Queries to several calculators in the order in which they come in,
each with the calculator that it is meant for. -/
def serveAll {ι : Type} [DecidableEq ι] (resolver : Resolver m) :
    (ι → Calculator) → List (ι × Query) → m (List Reply × (ι → Calculator))
  | calculators, [] => pure ([], calculators)
  | calculators, (i, query) :: rest => do
      let (reply, c) ← (calculators i).serve resolver query
      let (replies, calculators) ←
        serveAll resolver (fun j => if j = i then c else calculators j) rest
      pure (reply :: replies, calculators)

end Calculator

-- ======================================================== the remembering

/-- All that is bound is what was answered. -/
def Recalls (answer : String → Except Failure Value) (bindings : Bindings) :
    Prop :=
  ∀ name x, bindings.find? name = some x →
    Event.accepted? (answer name) = some x

/-- What is computed on bindings comes to the same from whatever answers
they recall, and leaves bindings that recall answers. -/
def Determined {σ α : Type} (answer : String → Except Failure Value)
    (x : Bindings → StateM σ (Except Failure α × Bindings)) : Prop :=
  ∃ outcome, ∀ bindings, Recalls answer bindings → ∀ world,
    ∃ bindings' world', (x bindings).run world = ((outcome, bindings'), world')
      ∧ Recalls answer bindings'

section Remembering

variable {σ α β : Type} {answer : String → Except Failure Value}
variable {resolver : Resolver (StateM σ)}

private theorem recalls_empty : Recalls answer .empty := by
  intro name x h
  cases h

theorem Recalls.insert {bindings : Bindings} (h : Recalls answer bindings)
    {name : String} {x : Float} (hx : Event.accepted? (answer name) = some x) :
    Recalls answer (bindings.insert name x) := by
  intro other y hy
  rw [NameMap.find?_insert] at hy
  split at hy
  · next heq =>
      cases hy
      rw [heq, hx]
  · exact h other y hy

private theorem determined_pure (outcome : Except Failure α) :
    Determined answer fun bindings =>
      (pure (outcome, bindings) : StateM σ _) :=
  ⟨outcome, fun bindings h world => ⟨bindings, world, rfl, h⟩⟩

/-- What follows on a determined outcome is determined if each outcome is
followed by something determined. -/
theorem Determined.bind {x : Bindings → StateM σ (Except Failure α × Bindings)}
    {f : Except Failure α → Bindings → StateM σ (Except Failure β × Bindings)}
    (hx : Determined answer x)
    (hf : ∀ outcome, Determined answer (f outcome)) :
    Determined answer (fun bindings => do
      let (outcome, bindings) ← x bindings
      f outcome bindings) := by
  obtain ⟨outcome, hx⟩ := hx
  obtain ⟨outcome', hf⟩ := hf outcome
  refine ⟨outcome', fun bindings h world => ?_⟩
  obtain ⟨between, world', hrun, hbetween⟩ := hx bindings h world
  obtain ⟨bindings', world'', hrun', hafter⟩ := hf between hbetween world'
  refine ⟨bindings', world'', ?_, hafter⟩
  rw [runWorld_bind, hrun]
  exact hrun'

variable (hanswer : ∀ name world,
  ((resolver.ask name).run world).1 = answer name)
variable (ctx : Context)

include hanswer

/-- A variable comes to what the answer for its name comes to, remembered
or not. -/
theorem determined_variableValue (token : Token) :
    Determined answer (variableValue ctx resolver token) := by
  refine ⟨accept ctx token (answer token.text), fun bindings h world => ?_⟩
  obtain ⟨x, hbound, hrun⟩ | ⟨hfree, given, world', hask, hrun⟩ :=
    variableValue_cases ctx resolver token bindings world
  · have haccept : accept ctx token (answer token.text) = .ok x :=
      accept_eq_ok_iff.mpr (h _ x hbound)
    exact ⟨bindings, world, by rw [hrun, haccept], h⟩
  · obtain rfl : given = answer token.text := by rw [← hanswer _ world, hask]
    obtain ⟨x, haccept, hrun⟩ | ⟨failure, haccept, hrun⟩ := hrun
    · exact ⟨_, world', by rw [hrun, haccept],
        h.insert (accept_eq_ok_iff.mp haccept)⟩
    · exact ⟨bindings, world', by rw [hrun, haccept], h⟩

private theorem determined_step (token : Token) (stack : Stack) :
    Determined answer (step ctx resolver token stack) := by
  unfold step
  cases token.kind with
  | identifier =>
      exact (determined_variableValue hanswer ctx token).bind
        fun _ => determined_pure _
  | _ => exact determined_pure _

/-- The outcome of a run is determined by its tokens. -/
theorem determined_run (tokens : List Token) (stack : Stack) :
    Determined answer (run ctx resolver tokens stack) := by
  induction tokens generalizing stack with
  | nil => exact determined_pure _
  | cons token rest ih =>
      obtain ⟨outcome, hstep⟩ := determined_step hanswer ctx token stack
      cases hchecked : outcome.bind (checkDepth ctx token) with
      | error failure =>
          refine ⟨.error failure, fun bindings h world => ?_⟩
          obtain ⟨bindings', world', hrun, hafter⟩ := hstep bindings h world
          refine ⟨bindings', world', ?_, hafter⟩
          rw [run, runWorld_bind, hrun]
          dsimp only
          rw [hchecked]
          rfl
      | ok stack' =>
          obtain ⟨outcome', hrest⟩ := ih stack'
          refine ⟨outcome', fun bindings h world => ?_⟩
          obtain ⟨between, world', hrun, hbetween⟩ := hstep bindings h world
          obtain ⟨bindings', world'', hrun', hafter⟩ :=
            hrest between hbetween world'
          refine ⟨bindings', world'', ?_, hafter⟩
          rw [run, runWorld_bind, hrun]
          dsimp only
          rw [hchecked]
          exact hrun'

private theorem determined_evaluatePostfix (tokens : List Token) :
    Determined answer (evaluatePostfix ctx resolver tokens) :=
  (determined_run hanswer ctx.orStandard tokens []).bind fun outcome =>
    determined_pure (outcome.bind (result ctx.orStandard))

end Remembering

-- ======================================================== the calculators

namespace Calculator

section Queries

variable {σ : Type} {answer : String → Except Failure Value}
variable {resolver : Resolver (StateM σ)}
variable (hanswer : ∀ name world,
  ((resolver.ask name).run world).1 = answer name)

include hanswer

/-- The outcome of an evaluation is determined by the text, the settings
and the functions. -/
theorem determined_evaluate (c : Calculator) (text : String) :
    ∃ outcome, ∀ bindings, Recalls answer bindings →
      ∀ world, ∃ bindings' world',
      (({ c with bindings } : Calculator).evaluate resolver text).run world
          = ((outcome, { c with bindings := bindings' }), world')
        ∧ Recalls answer bindings' := by
  have hform : ∀ bindings, ({ c with bindings } : Calculator).toPostfix text
      = c.toPostfix text := fun _ => rfl
  simp only [evaluate, hform]
  cases c.toPostfix text with
  | error failure =>
      exact ⟨_, fun bindings h world => ⟨bindings, world, rfl, h⟩⟩
  | ok tokens =>
      obtain ⟨outcome, hvalue⟩ :=
        determined_evaluatePostfix hanswer (c.context text) tokens
      refine ⟨outcome, fun bindings h world => ?_⟩
      obtain ⟨bindings', world', hrun, hafter⟩ := hvalue bindings h world
      refine ⟨bindings', world', ?_, hafter⟩
      dsimp only
      rw [runWorld_bind]
      dsimp only [context] at hrun ⊢
      rw [hrun]
      rfl

/-- And so is the reply to any query. -/
theorem determined_serve (c : Calculator) (query : Query) :
    ∃ reply, ∀ bindings, Recalls answer bindings → ∀ world, ∃ bindings' world',
      (({ c with bindings } : Calculator).serve resolver query).run world
          = ((reply, { c with bindings := bindings' }), world')
        ∧ Recalls answer bindings' := by
  cases query with
  | clear =>
      exact ⟨.cleared, fun _ _ world => ⟨.empty, world, rfl, recalls_empty⟩⟩
  | evaluate text =>
      obtain ⟨outcome, hvalue⟩ := c.determined_evaluate hanswer text
      refine ⟨.outcome outcome, fun bindings h world => ?_⟩
      obtain ⟨bindings', world', hrun, hafter⟩ := hvalue bindings h world
      refine ⟨bindings', world', ?_, hafter⟩
      rw [serve, runWorld_bind, hrun]
      rfl
  | tryEvaluate text =>
      obtain ⟨outcome, hvalue⟩ := c.determined_evaluate hanswer text
      refine ⟨.verdict (verdict text outcome), fun bindings h world => ?_⟩
      obtain ⟨bindings', world', hrun, hafter⟩ := hvalue bindings h world
      refine ⟨bindings', world', ?_, hafter⟩
      rw [serve, runWorld_bind, tryEvaluate, runWorld_bind, hrun]
      rfl

/-- The replies of calculators that recall answers are those of one that
was never used, whatever the state of the world. -/
theorem replies_of_serveAll {ι : Type} [DecidableEq ι] (c : Calculator)
    {calculators : ι → Calculator}
    (h : ∀ i, calculators i = { c with bindings := (calculators i).bindings }
      ∧ Recalls answer (calculators i).bindings)
    (queries : List (ι × Query)) (world fresh : σ) :
    ((serveAll resolver calculators queries).run world).1.1
      = queries.map fun query =>
        ((c.clear.serve resolver query.2).run fresh).1.1 := by
  induction queries generalizing calculators world with
  | nil => rfl
  | cons first rest ih =>
      obtain ⟨i, query⟩ := first
      obtain ⟨reply, hreply⟩ := c.determined_serve hanswer query
      obtain ⟨_, _, hfresh, -⟩ := hreply .empty recalls_empty fresh
      have hfirst : ((c.clear.serve resolver query).run fresh).1.1 = reply :=
        congrArg (·.1.1) hfresh
      obtain ⟨bindings', world', hused, hafter⟩ := hreply _ (h i).2 world
      rw [← (h i).1] at hused
      rw [serveAll, runWorld_bind, hused, List.map_cons, hfirst]
      -- the calculator that was used recalls answers as before
      refine congrArg (reply :: ·) (ih (fun j => ?_) world')
      split
      · exact ⟨rfl, hafter⟩
      · exact h j

end Queries

/-- Any number of calculators with the same settings and functions and
without variables share a resolver that answers a name always in the same
way. Whatever is asked of them, in whatever order, each evaluation comes
to what it comes to on a calculator that was never used. -/
theorem replies_eq_fresh {σ ι : Type} [DecidableEq ι]
    {resolver : Resolver (StateM σ)} {answer : String → Except Failure Value}
    (hanswer : ∀ name world, ((resolver.ask name).run world).1 = answer name)
    (settings : Settings) (functions : Registry) (queries : List (ι × Query))
    (world fresh : σ) :
    ((serveAll resolver (fun _ => .new settings functions []) queries).run
      world).1.1
      = queries.map fun query =>
          (((new settings functions []).serve resolver query.2).run
            fresh).1.1 :=
  replies_of_serveAll hanswer (new settings functions [])
    (fun _ => ⟨rfl, recalls_empty⟩) queries world fresh

/-- Two calculators and a resolver that counts its questions and knows `x`
and `y` alone. The first evaluation fails when `x` is already bound, the
second finds `x` unbound on the other calculator, the third finds it
bound, and after the clear it is asked for once more. -/
theorem replies_eq_fresh_partial_failure :
    let answer : String → Except Failure Value := fun name =>
      if name = "x" then .ok (.float 2.5) else if name = "y" then .ok (.int 3)
      else .error (.diagnosed ⟨.unknownVariable name, none, none⟩)
    let resolver : Resolver (StateM Nat) :=
      ⟨fun name asked => (answer name, asked + 1)⟩
    let queries : List (Bool × Query) :=
      [(true, .evaluate "x+u*y"), (false, .tryEvaluate "x-y"),
        (true, .tryEvaluate "x-y"), (true, .clear),
        (true, .evaluate "abs(x)/0")]
    (∀ name world, ((resolver.ask name).run world).1 = answer name)
      ∧ ((serveAll resolver (fun _ => .new {} .builtin []) queries).run 0).1.1
        = queries.map fun query =>
            (((new {} .builtin []).serve resolver query.2).run 7).1.1 := by
  intro answer resolver queries
  have hanswer :
      ∀ name world, ((resolver.ask name).run world).1 = answer name :=
    fun _ _ => rfl
  exact ⟨hanswer, replies_eq_fresh hanswer {} .builtin queries 0 7⟩

end Calculator

end Reckoner

/-
Bindings only grow.

An evaluation touches the bindings in one place: an accepted answer is
bound to the name that was asked for, and nobody is asked for a name that
is bound. So whatever is bound before a step is bound to the same after
it, whether the step succeeds or fails, and the same holds of runs
(`extends_run`).

A run that succeeds leaves a trace of all that it depended on: each of its
variables is bound in the end. On any bindings that keep those it does the
same again and asks nobody, whoever the resolver is and whatever its
effects (`run_again`).
-/
import Reckoner.Proofs.Evaluation.Calculation

namespace Reckoner

-- ========================================================== the extension

/-- All that is bound by one map is bound to the same by the other. -/
def NameMap.Extends {α : Type} (map larger : NameMap α) : Prop :=
  ∀ name x, map.find? name = some x → larger.find? name = some x

namespace NameMap

variable {α : Type} {map larger largest : NameMap α}

theorem Extends.refl (map : NameMap α) : map.Extends map := fun _ _ h => h

theorem Extends.trans (h : map.Extends larger) (h' : larger.Extends largest) :
    map.Extends largest := fun name x hx => h' name x (h name x hx)

/-- A name that was free may be bound. -/
theorem extends_insert {name : String} (h : map.find? name = none) (x : α) :
    map.Extends (map.insert name x) := by
  intro other y hy
  have hne : other ≠ name := by
    rintro rfl
    rw [h] at hy
    cases hy
  rw [find?_insert, if_neg hne, hy]

end NameMap

namespace Evaluation

variable {σ : Type} (ctx : Context) (resolver : Resolver (StateM σ))

-- ============================================================= the growth

private theorem extends_variableValue (token : Token) (bindings : Bindings)
    (world : σ) :
    bindings.Extends ((variableValue ctx resolver token bindings).run
      world).1.2 := by
  obtain ⟨x, -, hrun⟩
      | ⟨hfree, answer, world', -, ⟨x, -, hrun⟩ | ⟨failure, -, hrun⟩⟩ :=
    variableValue_cases ctx resolver token bindings world
  · rw [hrun]
    exact .refl _
  · rw [hrun]
    exact NameMap.extends_insert hfree x
  · rw [hrun]
    exact .refl _

/-- No step forgets or changes what is bound. -/
theorem extends_step (token : Token) (stack : Stack) (bindings : Bindings)
    (world : σ) :
    bindings.Extends ((step ctx resolver token stack bindings).run
      world).1.2 := by
  unfold step
  cases token.kind with
  | identifier => exact extends_variableValue ctx resolver token bindings world
  | _ => exact .refl _

/-- And no run. -/
theorem extends_run (tokens : List Token) (stack : Stack) (bindings : Bindings)
    (world : σ) :
    bindings.Extends ((run ctx resolver tokens stack bindings).run
      world).1.2 := by
  induction tokens generalizing stack bindings world with
  | nil => exact .refl _
  | cons token rest ih =>
      have hstep := extends_step ctx resolver token stack bindings world
      rw [run, runWorld_bind]
      generalize (step ctx resolver token stack bindings).run world = after
        at hstep
      obtain ⟨⟨outcome, bindings'⟩, world'⟩ := after
      dsimp only at hstep ⊢
      cases outcome.bind (checkDepth ctx token) with
      | ok stack' => exact hstep.trans (ih stack' bindings' world')
      | error failure => exact hstep

/-- Bindings only grow in an evaluation. -/
theorem extends_evaluatePostfix (tokens : List Token) (bindings : Bindings)
    (world : σ) :
    bindings.Extends
      ((evaluatePostfix ctx resolver tokens bindings).run world).1.2 :=
  extends_run ctx.orStandard resolver tokens [] bindings world

-- ========================================================= the repetition

variable {ctx : Context} {resolver : Resolver (StateM σ)}
variable {bindings bindings' later : Bindings} {world world' : σ}
variable {m : Type → Type} [Monad m]

/-- A variable whose value was found is bound afterwards. -/
theorem find?_of_variableValue {token : Token} {x : Float}
    (h : (variableValue ctx resolver token bindings).run world
      = ((.ok x, bindings'), world')) :
    bindings'.find? token.text = some x := by
  obtain ⟨y, hbound, hrun⟩
      | ⟨-, answer, after, -, ⟨y, -, hrun⟩ | ⟨failure, -, hrun⟩⟩ :=
    variableValue_cases ctx resolver token bindings world
  · rw [hrun] at h
    cases h
    exact hbound
  · rw [hrun] at h
    cases h
    rw [NameMap.find?_insert, if_pos rfl]
  · rw [hrun] at h
    cases h

variable [LawfulMonad m]

/-- A step that succeeded does the same again where its variable is still
bound. -/
theorem step_again {token : Token} {stack after : Stack} (other : Resolver m)
    (h : (step ctx resolver token stack bindings).run world
      = ((.ok after, bindings'), world'))
    (hlater : bindings'.Extends later) :
    step ctx other token stack later = pure (.ok after, later) := by
  unfold step at h ⊢
  cases hkind : token.kind with
  | identifier =>
      rw [hkind] at h
      dsimp only at h
      rw [runWorld_bind] at h
      generalize hvalue : (variableValue ctx resolver token bindings).run world
        = found at h
      obtain ⟨⟨outcome, bindings''⟩, world''⟩ := found
      cases outcome with
      | error failure => cases h
      | ok x =>
          cases h
          have hbound := hlater _ _ (find?_of_variableValue hvalue)
          dsimp only
          rw [variableValue_bound hbound, pure_bind]
          rfl
  | _ =>
      -- nothing else looks at the bindings or at the resolver
      rw [hkind] at h
      have houtcome := congrArg (·.1.1) h
      exact congrArg (fun outcome => pure (outcome, later)) houtcome

/-- A run that succeeded does the same again on bindings that keep those
it left. -/
theorem run_again {tokens : List Token} {stack after : Stack}
    (other : Resolver m)
    (h : (run ctx resolver tokens stack bindings).run world
      = ((.ok after, bindings'), world'))
    (hlater : bindings'.Extends later) :
    run ctx other tokens stack later = pure (.ok after, later) := by
  induction tokens generalizing stack bindings world with
  | nil =>
      cases h
      rfl
  | cons token rest ih =>
      obtain ⟨middle, between, world'', hstep, hdepth, hrest⟩ :=
        run_cons_eq_ok h
      have hkept : between.Extends bindings' := by
        have hextends := extends_run ctx resolver rest middle between world''
        rwa [hrest] at hextends
      rw [run, step_again other hstep (hkept.trans hlater), pure_bind]
      have hcheck :
          (Except.ok middle).bind (checkDepth ctx token) = .ok middle :=
        checkDepth_eq_ok hdepth
      dsimp only
      rw [hcheck]
      exact ih hrest

/-- With what it has found out once, an evaluation need not ask again. -/
theorem evaluatePostfix_again {tokens : List Token} {x : Float}
    (other : Resolver m)
    (h : (evaluatePostfix ctx resolver tokens bindings).run world
      = ((.ok x, bindings'), world'))
    (hlater : bindings'.Extends later) :
    evaluatePostfix ctx other tokens later = pure (.ok x, later) := by
  rw [evaluatePostfix, runWorld_bind] at h
  generalize hrun : (run ctx.orStandard resolver tokens [] bindings).run world
    = after at h
  obtain ⟨⟨outcome, bindings''⟩, world''⟩ := after
  cases outcome with
  | error failure => cases h
  | ok stack =>
      have hresult : result ctx.orStandard stack = .ok x := congrArg (·.1.1) h
      obtain rfl : bindings'' = bindings' := congrArg (·.1.2) h
      rw [evaluatePostfix, run_again other hrun hlater, pure_bind]
      dsimp only [Except.bind]
      rw [hresult]

end Evaluation

end Reckoner

/-
How a run ends that does not get through its tokens.

It stops at one of them: the run of those before succeeds, and either the
step of the token fails or the stack is then too deep (`stops_of_run`). A
step fails for a fault that it finds at its token, for a breakdown, or
because the resolver reports something in place of an answer
(`stepFailure_of_step`). No step finds a limit exceeded, and none finds
the values that are left over, so these two reports tell where they come
from.
-/
import Reckoner.Proofs.Evaluation.Calculation
import Reckoner.Proofs.Foreseen

namespace Reckoner

/-- Whether a fault is one that a token meets in the evaluation. -/
def Fault.isOfStep : Fault → Bool
  | .unexpectedToken _ | .malformedNumber _ | .missingArgument _
    | .unknownFunction _
  | .wrongArity .. | .unknownOperator _ | .missingOperand _ | .divisionByZero
  | .unusableValue .. => true
  | _ => false

namespace Evaluation

variable {σ : Type} {ctx : Context} {resolver : Resolver (StateM σ)}
  {token : Token}
variable {stack : Stack} {bindings bindings' : Bindings} {world world' : σ}

-- ================================================================ the steps

/-- What is found at a token: a fault of the kind that tokens meet, placed
there, or a breakdown. -/
def FoundAt (ctx : Context) (token : Token) (failure : Failure) : Prop :=
  (∃ fault, fault.isOfStep = true
    ∧ failure = .at fault token.position ctx.source)
    ∨ ∃ breakdown, failure = .broken breakdown

private theorem foundAt_fault {fault : Fault} (h : fault.isOfStep = true) :
    FoundAt ctx token (.at fault token.position ctx.source) :=
  .inl ⟨fault, h, rfl⟩

private theorem foundAt_broken (breakdown : Breakdown) :
    FoundAt ctx token (.broken breakdown) :=
  .inr ⟨breakdown, rfl⟩

/-- No token meets a limit. -/
theorem FoundAt.not_limitExceeded {d : Diagnostic}
    (h : FoundAt ctx token (.diagnosed d))
    (resource : Resource) (limit actual : Int) :
    d.fault ≠ .limitExceeded resource limit actual := by
  rintro hfault
  rcases h with ⟨fault, hown, heq⟩ | ⟨breakdown, heq⟩
  · obtain rfl : d = _ := Failure.diagnosed.inj heq
    obtain rfl : fault = _ := hfault
    cases hown
  · cases heq

private theorem lands_found_numberValue (ctx : Context) (token : Token) :
    Lands (FoundAt ctx token) (fun _ => True) (numberValue ctx token) := by
  unfold numberValue
  split
  · trivial
  · exact foundAt_fault rfl

/-- A call that fails finds a fault at its position, or its routine breaks
down. -/
theorem lands_call (ctx : Context) (functions : Registry) (name : String)
    (args : List Float) (position : Int) :
    Lands (fun failure => FoundAt ctx ⟨.function, name, position, none, none⟩
        (inExpression ctx failure)) (fun _ => True)
      (functions.call name args (some position)) := by
  unfold Registry.call
  split
  · exact .inl ⟨.unknownFunction name, rfl, rfl⟩
  · next spec _ =>
      split
      · exact .inl ⟨.wrongArity name spec.arity args.length, rfl, rfl⟩
      · cases spec.routine args with
        | ok x => trivial
        | error breakdown => exact foundAt_broken breakdown

/-- A function complains of itself, at its own place. -/
theorem lands_found_applyFunction (ctx : Context) (token : Token)
    (stack : Stack) :
    Lands (FoundAt ctx token) (fun _ => True)
      (applyFunction ctx token stack) := by
  unfold applyFunction
  dsimp only
  split
  · exact foundAt_fault rfl
  · generalize (stack.take (arityOf ctx.functions token.text)).reverse = args
    have hcall := lands_call ctx ctx.functions token.text args token.position
    cases houtcome : ctx.functions.call token.text args
      (some token.position) with
    | ok x => trivial
    | error failure =>
        rw [houtcome] at hcall
        exact hcall

private theorem lands_found_push (rest : Stack)
    (outcome : Except Breakdown Float) :
    Lands (FoundAt ctx token) (fun _ => True)
      (applyOperator.push rest outcome) := by
  cases outcome with
  | ok x => trivial
  | error breakdown => exact foundAt_broken breakdown

/-- So does an operator. -/
theorem lands_found_applyOperator (ctx : Context) (token : Token)
    (stack : Stack) :
    Lands (FoundAt ctx token) (fun _ => True)
      (applyOperator ctx token stack) := by
  unfold applyOperator
  split
  · exact foundAt_fault rfl
  · split
    · exact foundAt_fault rfl
    · split
      · split
        · exact lands_found_push _ _
        · exact foundAt_broken _
      · split
        · split
          · exact foundAt_fault rfl
          · exact lands_found_push _ _
        · exact foundAt_broken _

/-- Why a step fails: for something that it finds at its token, or for what
the resolver reports of a variable. -/
inductive StepFailure (ctx : Context) (resolver : Resolver (StateM σ))
    (token : Token) (world : σ) : Failure → σ → Prop where
  | found {failure : Failure} (h : FoundAt ctx token failure) (world' : σ) :
      StepFailure ctx resolver token world failure world'
  | reported {d : Diagnostic} {failure : Failure} {world' : σ}
      (hask : (resolver.ask token.text).run world
        = (.error (.diagnosed d), world'))
      (haccept : accept ctx token (.error (.diagnosed d)) = .error failure) :
      StepFailure ctx resolver token world failure world'

/-- What the resolver reports is passed on with its fault. -/
theorem fault_of_accept {d d' : Diagnostic}
    (h : accept ctx token (.error (.diagnosed d)) = .error (.diagnosed d')) :
    d.fault = d'.fault := by
  unfold accept at h
  dsimp only at h
  split at h <;> cases h <;> rfl

private theorem stepFailure_of_variableValue {failure : Failure}
    (h : (variableValue ctx resolver token bindings).run world
      = ((.error failure, bindings'), world')) :
    StepFailure ctx resolver token world failure world' := by
  obtain ⟨x, -, hrun⟩
      | ⟨-, answer, after, hask, ⟨x, -, hrun⟩ | ⟨failure', haccept, hrun⟩⟩ :=
    variableValue_cases ctx resolver token bindings world
  · rw [hrun] at h
    cases h
  · rw [hrun] at h
    cases h
  · rw [hrun] at h
    cases h
    match answer with
    | .error (.diagnosed d) => exact .reported hask haccept
    | .error (.broken breakdown) =>
        cases haccept
        exact .found (foundAt_broken breakdown) world'
    | .ok value =>
        unfold accept at haccept
        dsimp only at haccept
        split at haccept
        · cases haccept
        · cases haccept
          exact .found (.inl ⟨.unusableValue token.text value, rfl, rfl⟩)
            world'
        · cases haccept
          exact .found (foundAt_broken _) world'

/-- A step fails at its token, by what the resolver said, or by the depth of
the stack, and in no other way. -/
theorem stepFailure_of_step {failure : Failure}
    (h : (step ctx resolver token stack bindings).run world
      = ((.error failure, bindings'), world')) :
    StepFailure ctx resolver token world failure world' := by
  unfold step at h
  cases hkind : token.kind with
  | identifier =>
      rw [hkind] at h
      dsimp only at h
      rw [runWorld_bind] at h
      generalize hvalue : (variableValue ctx resolver token bindings).run world
        = found at h
      obtain ⟨⟨outcome, between⟩, after⟩ := found
      cases outcome with
      | ok x => cases h
      | error failure' =>
          cases h
          exact stepFailure_of_variableValue hvalue
  | number =>
      rw [hkind] at h
      have hlands : Lands (FoundAt ctx token) (fun _ => True)
          ((numberValue ctx token).map (· :: stack)) :=
        (lands_found_numberValue ctx token).map fun _ _ => trivial
      exact .found (hlands.of_error (congrArg (·.1.1) h)) world'
  | function =>
      rw [hkind] at h
      exact .found ((lands_found_applyFunction ctx token stack).of_error
        (congrArg (·.1.1) h)) world'
  | operator =>
      rw [hkind] at h
      exact .found ((lands_found_applyOperator ctx token stack).of_error
        (congrArg (·.1.1) h)) world'
  | leftParen | rightParen | comma =>
      rw [hkind] at h
      cases h
      exact .found (.inl ⟨.unexpectedToken token.text, rfl, rfl⟩) _

-- ================================================================= the runs

/-- How a run ends at a token: its step fails, or leaves too many values. -/
inductive Stop (ctx : Context) (resolver : Resolver (StateM σ)) (token : Token)
    (stack : Stack) (bindings : Bindings) (world : σ) :
    (Except Failure Stack × Bindings) × σ → Prop where
  | failed {failure : Failure} {bindings' : Bindings} {world' : σ}
      (hstep : (step ctx resolver token stack bindings).run world
        = ((.error failure, bindings'), world')) :
      Stop ctx resolver token stack bindings world
        ((.error failure, bindings'), world')
  | deep {after : Stack} {bindings' : Bindings} {world' : σ}
      (hstep : (step ctx resolver token stack bindings).run world
        = ((.ok after, bindings'), world'))
      (hdeep : ctx.limits.of .stackDepth < after.length) :
      Stop ctx resolver token stack bindings world
        ((.error (.diagnosed
          ⟨.limitExceeded .stackDepth (ctx.limits.of .stackDepth) after.length,
            some token.position, none⟩), bindings'), world')

private theorem checkDepth_eq_error
    (h : ctx.limits.of .stackDepth < stack.length) :
    checkDepth ctx token stack
      = .error (.diagnosed
        ⟨.limitExceeded .stackDepth (ctx.limits.of .stackDepth) stack.length,
          some token.position, none⟩) := by
  rw [checkDepth, Limits.check_eq_error h]

/-- A run gets through its tokens or stops at one of them, by induction on
the tokens. -/
theorem stops_of_run (ctx : Context) (resolver : Resolver (StateM σ))
    (tokens : List Token) (stack : Stack) (bindings : Bindings) (world : σ) :
    let after := (run ctx resolver tokens stack bindings).run world
    (∃ stack' bindings' world', after = ((.ok stack', bindings'), world'))
      ∨ ∃ before token rest middle between world',
        tokens = before ++ token :: rest
        ∧ (run ctx resolver before stack bindings).run world
          = ((.ok middle, between), world')
        ∧ Stop ctx resolver token middle between world' after := by
  induction tokens generalizing stack bindings world with
  | nil => exact .inl ⟨_, _, _, rfl⟩
  | cons token rest ih =>
      dsimp only
      rw [run, runWorld_bind]
      generalize hstep : (step ctx resolver token stack bindings).run world
        = after
      obtain ⟨⟨outcome, between⟩, world'⟩ := after
      cases outcome with
      | error failure =>
          exact .inr ⟨[], token, rest, stack, bindings, world, rfl, rfl,
            .failed hstep⟩
      | ok middle =>
          -- the depth is checked after the step, and a stack too deep is kept
          -- out of the rest
          by_cases hdepth : (middle.length : Int) ≤ ctx.limits.of .stackDepth
          · have hcheck : (Except.ok middle).bind (checkDepth ctx token)
                = .ok middle :=
              checkDepth_eq_ok hdepth
            dsimp only
            rw [hcheck]
            obtain hok | ⟨before, last, rest', stack', between', world'', rfl,
                hbefore, hstop⟩ :=
              ih middle between world'
            · exact .inl hok
            · refine .inr ⟨token :: before, last, rest', stack', between',
                world'', rfl, ?_, hstop⟩
              rw [run, runWorld_bind, hstep]
              dsimp only
              rw [hcheck]
              exact hbefore
          · have hdeep := Int.not_le.mp hdepth
            have hcheck : (Except.ok middle).bind (checkDepth ctx token) = _ :=
              checkDepth_eq_error hdeep
            dsimp only
            rw [hcheck]
            exact .inr ⟨[], token, rest, stack, bindings, world, rfl, rfl,
              .deep hstep hdeep⟩

/-- And it stops at a token that it cannot get past. -/
theorem run_of_stop {before : List Token} {middle : Stack} {between : Bindings}
    {after : (Except Failure Stack × Bindings) × σ}
    (hbefore : (run ctx resolver before stack bindings).run world
      = ((.ok middle, between), world'))
    (hstop : Stop ctx resolver token middle between world' after)
    (rest : List Token) :
    (run ctx resolver (before ++ token :: rest) stack bindings).run world
      = after := by
  rw [run_append, runWorld_bind, hbefore]
  dsimp only
  rw [run, runWorld_bind]
  cases hstop with
  | failed hstep =>
      rw [hstep]
      rfl
  | @deep last bindings' _ hstep hdeep =>
      have hcheck : (Except.ok last).bind (checkDepth ctx token) = _ :=
        checkDepth_eq_error hdeep
      rw [hstep]
      dsimp only
      rw [hcheck]
      rfl

end Evaluation

end Reckoner

/-
What becomes of an answer.

A resolver may answer anything. A number whose nearest double is finite
stands for that double: it is bound and pushed. Anything else is refused at
the variable, with the bindings as they were. One kind of answer falls
through: an integer so large that there is no finite double near it breaks
the evaluation down where it should be refused
(`Evaluation.Question.used_or_refused_iff`).

Nothing else breaks a calculation down, as long as the resolver does not
break down itself (`Resolver.Steady`) and the functions give a value. Of
ready tokens a step fails for something foreseen or for what it was
answered (`foreseen_or_answered_of_step`), and whatever was answered before
was accepted. So a verdict is missing exactly if the last answer was too
large an integer.
-/
import Mathlib.Algebra.Group.Int.Defs
import Mathlib.Control.Monad.Basic
import Reckoner.Proofs.Calculator.Inquiry
import Reckoner.Proofs.Calculator.Safety
import Reckoner.Proofs.Evaluation.Ending

namespace Reckoner

open Evaluation

-- ============================================================== the values

namespace Value

/-- The double nearest to a number; nothing else has one. -/
def nearest? : Value → Option Float
  | .float x => some x
  | .int n => some (Float.ofInt n)
  | .text _ | .bool _ | .none => .none

/-- A value is a number with a finite double nearest to it. -/
def StandsFor (value : Value) (x : Float) : Prop :=
  value.nearest? = some x ∧ x.isFinite = true

/-- A value is an integer with no finite double near it. -/
def TooLarge (value : Value) : Prop :=
  ∃ n, value = .int n ∧ (Float.ofInt n).isFinite = false

private theorem TooLarge.not_standsFor {value : Value} (h : value.TooLarge)
    (x : Float) :
    ¬ value.StandsFor x := by
  rintro ⟨hnearest, hfinite⟩
  obtain ⟨n, rfl, hinfinite⟩ := h
  obtain rfl : Float.ofInt n = x := Option.some.inj hnearest
  rw [hinfinite] at hfinite
  cases hfinite

end Value

section Values

variable {value : Value}

private theorem finiteValue_float (x : Float) :
    finiteValue (.float x)
      = .ok (if x.isFinite = true then some x else none) := rfl

private theorem finiteValue_int (n : Int) :
    finiteValue (.int n)
      = if (Float.ofInt n).isFinite = true
        then .ok (some (Float.ofInt n))
        else .error .integerTooLarge := by
  unfold finiteValue Binary64.ofInt?
  dsimp only
  by_cases h : (Float.ofInt n).isFinite = true
  · rw [if_pos h, if_pos h]
  · rw [if_neg h, if_neg h]

/-- A number is accepted as the double that it stands for. -/
theorem finiteValue_eq_some_iff {x : Float} :
    finiteValue value = .ok (some x) ↔ value.StandsFor x := by
  constructor
  · intro h
    cases value with
    | float y =>
        rw [finiteValue_float] at h
        split at h
        · next hfinite =>
            cases h
            exact ⟨rfl, hfinite⟩
        · cases h
    | int n =>
        rw [finiteValue_int] at h
        split at h
        · next hfinite =>
            cases h
            exact ⟨rfl, hfinite⟩
        · cases h
    | text | bool | none => cases h
  · rintro ⟨hnearest, hfinite⟩
    cases value with
    | float y =>
        cases hnearest
        rw [finiteValue_float, if_pos hfinite]
    | int n =>
        cases hnearest
        rw [finiteValue_int, if_pos hfinite]
    | text | bool | none => cases hnearest

/-- And what breaks down is an integer that is too large. -/
theorem finiteValue_eq_error_iff {breakdown : Breakdown} :
    finiteValue value = .error breakdown
      ↔ value.TooLarge ∧ breakdown = .integerTooLarge := by
  constructor
  · intro h
    cases value with
    | int n =>
        rw [finiteValue_int] at h
        split at h
        · cases h
        · next hinfinite =>
            cases h
            exact ⟨⟨n, rfl, Bool.eq_false_iff.mpr hinfinite⟩, rfl⟩
    | float | text | bool | none => cases h
  · rintro ⟨⟨n, rfl, hinfinite⟩, rfl⟩
    rw [finiteValue_int, if_neg (Bool.eq_false_iff.mp hinfinite)]

end Values

-- ============================================================ the question

namespace Evaluation

variable {σ : Type} {ctx : Context} {resolver : Resolver (StateM σ)}
variable {tokens : List Token} {bindings : Bindings} {world : σ}

/-- An evaluation comes to a variable that is not bound, so that it asks for
it. -/
structure Question (ctx : Context) (resolver : Resolver (StateM σ))
    (tokens : List Token) (bindings : Bindings) (world : σ) where
  before : List Token
  token : Token
  rest : List Token
  /-- The operands, the bindings and the world as they are then. -/
  stack : Stack
  between : Bindings
  present : σ
  split : tokens = before ++ token :: rest
  reached : (run ctx.orStandard resolver before [] bindings).run world
    = ((.ok stack, between), present)
  isVariable : token.kind = .identifier
  unbound : between.find? token.text = none

namespace Question

variable (q : Question ctx resolver tokens bindings world) {value : Value}
  {after : σ}

/-- The answer stands for a double, which is bound and pushed. -/
def Used (value : Value) (after : σ) : Prop :=
  ∃ x, value.StandsFor x
    ∧ (step ctx.orStandard resolver q.token q.stack q.between).run q.present
      = ((.ok (x :: q.stack), q.between.insert q.token.text x), after)

/-- The answer stands for no double, and the evaluation fails for that at the
variable, with the bindings as they were before the question. -/
def Refused (value : Value) (after : σ) : Prop :=
  (∀ x, ¬ value.StandsFor x)
    ∧ ∃ fault, fault.stage = .evaluation ∧ fault.kind = .unresolvedVariable
      ∧ (evaluatePostfix ctx resolver tokens bindings).run world
        = ((.error (.at fault q.token.position ctx.source), q.between), after)

/-- An evaluation ends where an answer is not accepted. -/
theorem evaluatePostfix_eq_error {answer : Except Failure Value}
    {failure : Failure}
    (hask : (resolver.ask q.token.text).run q.present = (answer, after))
    (haccept : accept ctx.orStandard q.token answer = .error failure) :
    (evaluatePostfix ctx resolver tokens bindings).run world
      = ((.error failure, q.between), after) := by
  have hvalue := variableValue_refused q.unbound hask haccept
  have hstep :
      (step ctx.orStandard resolver q.token q.stack q.between).run q.present
      = ((.error failure, q.between), after) := by
    rw [step, q.isVariable]
    dsimp only
    rw [runWorld_bind, hvalue]
    rfl
  have hrun := run_of_stop q.reached (.failed hstep) q.rest
  rw [← q.split] at hrun
  rw [evaluatePostfix, runWorld_bind, hrun]
  rfl

private theorem step_eq_ok {answer : Except Failure Value} {x : Float}
    (hask : (resolver.ask q.token.text).run q.present = (answer, after))
    (haccept : accept ctx.orStandard q.token answer = .ok x) :
    (step ctx.orStandard resolver q.token q.stack q.between).run q.present
      = ((.ok (x :: q.stack), q.between.insert q.token.text x), after) := by
  have hvalue := variableValue_accepted q.unbound hask haccept
  rw [step, q.isVariable]
  dsimp only
  rw [runWorld_bind, hvalue]
  rfl

private theorem broken_of_tooLarge
    (hask : (resolver.ask q.token.text).run q.present = (.ok value, after))
    (hlarge : value.TooLarge) :
    (evaluatePostfix ctx resolver tokens bindings).run world
      = ((.error (.broken .integerTooLarge), q.between), after) := by
  have haccept : accept ctx.orStandard q.token (.ok value)
      = .error (.broken .integerTooLarge) := by
    rw [accept, finiteValue_eq_error_iff.mpr ⟨hlarge, rfl⟩]
  exact q.evaluatePostfix_eq_error hask haccept

/-- An answer is used or refused, unless it is an integer that is too
large. -/
theorem used_or_refused_iff
    (hask : (resolver.ask q.token.text).run q.present = (.ok value, after)) :
    q.Used value after ∨ q.Refused value after ↔ ¬ value.TooLarge := by
  constructor
  · rintro (⟨x, hstands, -⟩ | ⟨-, fault, -, -, hrefused⟩) hlarge
    · exact hlarge.not_standsFor x hstands
    · rw [q.broken_of_tooLarge hask hlarge] at hrefused
      cases hrefused
  · intro hlarge
    cases hfinite : finiteValue value with
    | error breakdown =>
        exact absurd (finiteValue_eq_error_iff.mp hfinite).1 hlarge
    | ok found =>
        cases found with
        | some x =>
            have haccept :
                accept ctx.orStandard q.token (.ok value) = .ok x := by
              rw [accept, hfinite]
            exact .inl ⟨x, finiteValue_eq_some_iff.mp hfinite,
              q.step_eq_ok hask haccept⟩
        | none =>
            have haccept : accept ctx.orStandard q.token (.ok value)
                = .error (.at (.unusableValue q.token.text value)
                  q.token.position ctx.source) := by
              rw [accept, hfinite]
              rfl
            have hnot : ∀ x, ¬ value.StandsFor x := by
              intro x hstands
              rw [finiteValue_eq_some_iff.mpr hstands] at hfinite
              cases hfinite
            exact .inr ⟨hnot, _, rfl, rfl,
              q.evaluatePostfix_eq_error hask haccept⟩

end Question

end Evaluation

-- ========================================================== the breakdowns

/-- A resolver answers or reports, and does not break down itself. -/
def Resolver.Steady {σ : Type} (resolver : Resolver (StateM σ)) : Prop :=
  ∀ name world breakdown,
    ((resolver.ask name).run world).1 ≠ .error (.broken breakdown)

/-- A question was answered by an integer that is too large. -/
def History.AnsweredTooLarge (history : History) : Prop :=
  ∃ question ∈ history.questions, ∃ value : Value, question.2 = .ok value
    ∧ value.TooLarge

/-- An outcome is a breakdown for an answer too large, and for nothing
else. -/
structure BreaksByAnswer {α : Type} (history : History)
    (outcome : Except Failure α) :
    Prop where
  large : history.AnsweredTooLarge →
    outcome = .error (.broken .integerTooLarge)
  only : ∀ breakdown, outcome = .error (.broken breakdown) →
    history.AnsweredTooLarge

/-- Accepted answers are not too large. -/
theorem not_answeredTooLarge {history : History}
    (h : ∀ question ∈ history.questions, ∃ x,
      Event.accepted? question.2 = some x) :
    ¬ history.AnsweredTooLarge := by
  rintro ⟨question, hquestion, value, hvalue, hlarge⟩
  obtain ⟨x, hx⟩ := h question hquestion
  rw [hvalue, Event.accepted?,
    finiteValue_eq_error_iff.mpr ⟨hlarge, rfl⟩] at hx
  cases hx

private theorem breaksByAnswer_of_accepted {α : Type} {history : History}
    {outcome : Except Failure α}
    (h : ∀ question ∈ history.questions, ∃ x,
      Event.accepted? question.2 = some x)
    (hunbroken : ∀ breakdown, outcome ≠ .error (.broken breakdown)) :
    BreaksByAnswer history outcome :=
  ⟨fun hlarge => absurd hlarge (not_answeredTooLarge h),
    fun breakdown hbroken => absurd hbroken (hunbroken breakdown)⟩

theorem BreaksByAnswer.error {α β : Type} {history : History}
    {failure : Failure}
    (h : BreaksByAnswer (α := α) history (.error failure)) :
    BreaksByAnswer (α := β) history (.error failure) := by
  refine ⟨fun hlarge => ?_, fun breakdown hbroken => h.only breakdown ?_⟩
  · exact congrArg Except.error (Except.error.inj (h.large hlarge))
  · exact congrArg Except.error (Except.error.inj hbroken)

namespace Evaluation

variable {σ : Type} {ctx : Context} {resolver : Resolver (StateM σ)}
  {token : Token}
variable {grouping : Associativity} {bindings : Bindings}

/-- A step of a ready token fails for something foreseen, or for the answer
that it was given. -/
theorem foreseen_or_answered_of_step {stack : Stack} {bindings' : Bindings}
    {history history' : History} {world world' : σ} {failure : Failure}
    (htable : ctx.operators = .grouping grouping)
    (htotal : ctx.functions.Total) (hready : token.Ready ctx.functions)
    (h : (step ctx resolver.recorded token stack bindings).run (history, world)
      = ((.error failure, bindings'), (history', world'))) :
    (failure.IsForeseen ∧ history' = history)
      ∨ ∃ answer, ((resolver.ask token.text).run world).1 = answer
        ∧ history' = .asked token.text answer :: history
        ∧ accept ctx token answer = .error failure := by
  unfold step at h
  cases hkind : token.kind with
  | identifier =>
      rw [hkind] at h
      dsimp only at h
      rw [runWorld_bind] at h
      rcases variableValue_cases ctx resolver.recorded token bindings
          (history, world) with
        ⟨x, -, hvalue⟩ | ⟨-, answer, after, hask,
          ⟨x, -, hvalue⟩ | ⟨failure', haccept, hvalue⟩⟩
      · rw [hvalue] at h
        cases h
      · rw [hvalue] at h
        cases h
      · rw [hvalue] at h
        cases h
        -- the answer that was not accepted is the last that the history has
        rw [Resolver.recorded_ask] at hask
        obtain ⟨hanswer, hworlds⟩ := Prod.mk.inj hask
        cases hworlds
        exact .inr ⟨answer, hanswer, by rw [hanswer], haccept⟩
  | number =>
      rw [hkind] at h
      obtain ⟨x, hx⟩ := hready.number hkind
      simp only [numberValue, hx, Option.some_or] at h
      cases h
  | function =>
      rw [hkind] at h
      have hforeseen :=
        (lands_applyFunction htotal (hready.contains hkind) stack).of_error
        (congrArg (·.1.1) h)
      exact .inl ⟨hforeseen, (congrArg (·.2.1) h).symm⟩
  | operator =>
      rw [hkind] at h
      obtain ⟨op, hop⟩ := hready.operator hkind
      have hforeseen :=
        (lands_applyOperator htable hop stack).of_error (congrArg (·.1.1) h)
      exact .inl ⟨hforeseen, (congrArg (·.2.1) h).symm⟩
  | leftParen | rightParen | comma => simp [Token.Ready, hkind] at hready

/-- An answer that is not accepted breaks down exactly if it is too large. -/
theorem accept_eq_broken_iff {answer : Except Failure Value}
    {breakdown : Breakdown}
    (hsteady : ∀ breakdown, answer ≠ .error (.broken breakdown)) :
    accept ctx token answer = .error (.broken breakdown)
      ↔ ∃ value : Value, answer = .ok value ∧ value.TooLarge
        ∧ breakdown = .integerTooLarge := by
  match answer with
  | .error (.broken b) => exact absurd rfl (hsteady b)
  | .error (.diagnosed d) =>
      unfold accept
      dsimp only
      split <;> simp [Failure.at]
  | .ok value =>
      have hfinite : accept ctx token (.ok value) = .error (.broken breakdown)
          ↔ finiteValue value = .error breakdown := by
        unfold accept
        dsimp only
        split <;> simp_all [Failure.at]
      rw [hfinite, finiteValue_eq_error_iff]
      simp

/-- An answer that is not accepted is to blame for a breakdown if all
earlier ones were accepted. -/
theorem breaksByAnswer_of_answered {history : History}
    {answer : Except Failure Value} {failure : Failure}
    (hsteady : ∀ breakdown, answer ≠ .error (.broken breakdown))
    (hearlier : ∀ question ∈ history.questions, ∃ x,
      Event.accepted? question.2 = some x)
    (haccept : accept ctx token answer = .error failure) :
    BreaksByAnswer (α := Stack) (.asked token.text answer :: history)
      (.error failure) := by
  refine ⟨fun hlarge => ?_, fun breakdown hbroken => ?_⟩
  · obtain ⟨question, hquestion, value, hvalue, hlarge⟩ := hlarge
    rw [History.questions_asked] at hquestion
    rcases List.mem_append.mp hquestion with hbefore | hlast
    · exact absurd ⟨question, hbefore, value, hvalue, hlarge⟩
        (not_answeredTooLarge hearlier)
    · obtain rfl := List.mem_singleton.mp hlast
      rw [(accept_eq_broken_iff hsteady).mpr ⟨value, hvalue, hlarge, rfl⟩]
        at haccept
      cases haccept
      rfl
  · cases hbroken
    obtain ⟨value, hvalue, hlarge, -⟩ :=
      (accept_eq_broken_iff hsteady).mp haccept
    refine ⟨(token.text, answer), ?_, value, hvalue, hlarge⟩
    rw [History.questions_asked]
    exact List.mem_append_right _ (List.mem_singleton.mpr rfl)

/-- What a run was answered breaks it down if it is too large, and nothing
else does. Where the run stops it has accepted all earlier answers. -/
theorem breaksByAnswer_run (htable : ctx.operators = .grouping grouping)
    (htotal : ctx.functions.Total) (hsteady : resolver.Steady)
    {tokens : List Token}
    (hready : ∀ token ∈ tokens, token.Ready ctx.functions)
    (bindings : Bindings) (world : σ) :
    let after := (run ctx resolver.recorded tokens [] bindings).run ([], world)
    BreaksByAnswer after.2.1 after.1.1 := by
  intro after
  obtain ⟨stack, bindings', ⟨history, world'⟩, hrun⟩ |
    ⟨before, token, rest, middle, between, ⟨history, world'⟩, rfl, hbefore,
      hstop⟩ :=
    stops_of_run ctx resolver.recorded tokens [] bindings ([], world)
  · have hafter : after = _ := hrun
    rw [hafter]
    exact breaksByAnswer_of_accepted (accepted_of_run ctx resolver hrun) nofun
  · change Stop ctx resolver.recorded token middle between (history, world')
      after at hstop
    clear_value after
    cases hstop with
    | @deep last bindings' world'' hstep hdeep =>
        have haccepted := accepted_of_run_step ctx resolver hbefore hstep
        exact breaksByAnswer_of_accepted haccepted nofun
    | failed hstep =>
        have haccepted := accepted_of_run ctx resolver hbefore
        -- the step that failed is the only one whose answer was not accepted
        rcases foreseen_or_answered_of_step htable htotal
            (hready token (by simp)) hstep with
          ⟨hforeseen, hsame⟩ | ⟨answer, hanswer, hasked, haccept⟩
        · dsimp only
          rw [hsame]
          refine breaksByAnswer_of_accepted haccepted
            fun breakdown hbroken => ?_
          cases hbroken
          exact hforeseen
        · dsimp only
          rw [hasked]
          refine breaksByAnswer_of_answered (fun breakdown => ?_) haccepted
            haccept
          rw [← hanswer]
          exact hsteady token.text world' breakdown

private theorem breaksByAnswer_evaluatePostfix
    (htable : ctx.orStandard.operators = .grouping grouping)
    (htotal : ctx.functions.Total) (hsteady : resolver.Steady)
    {tokens : List Token}
    (hready : ∀ token ∈ tokens, token.Ready ctx.functions.orBuiltin)
    (bindings : Bindings) (world : σ) :
    let after := (evaluatePostfix ctx resolver.recorded tokens bindings).run
      ([], world)
    BreaksByAnswer after.2.1 after.1.1 := by
  have hrun := breaksByAnswer_run htable htotal.orBuiltin hsteady hready
    bindings world
  intro after
  have hafter : after
      = (evaluatePostfix ctx resolver.recorded tokens bindings).run
        ([], world) := rfl
  rw [evaluatePostfix, runWorld_bind] at hafter
  rw [hafter]
  generalize (run ctx.orStandard resolver.recorded tokens [] bindings).run
    ([], world)
    = reached at hrun
  obtain ⟨⟨outcome, bindings'⟩, history, world'⟩ := reached
  cases outcome with
  | error failure => exact hrun.error
  | ok stack =>
      refine ⟨fun hlarge => ?_, fun breakdown hbroken => ?_⟩
      · have hfailed := hrun.large hlarge
        cases hfailed
      · have hresult : result ctx.orStandard stack
          = .error (.broken breakdown) := hbroken
        unfold result at hresult
        split at hresult <;> cases hresult

end Evaluation

-- ========================================================== the calculator

namespace Calculator

variable {σ : Type} (c : Calculator) {resolver : Resolver (StateM σ)}

private theorem breaksByAnswer_evaluate (htotal : c.functions.Total)
    (hsteady : resolver.Steady) (text : String) (world : σ) :
    let after := (c.evaluate resolver.recorded text).run ([], world)
    BreaksByAnswer after.2.1 after.1.1 := by
  have hform := c.lands_toPostfix text
  cases houtcome : c.toPostfix text with
  | error failure =>
      have hforeseen : failure.IsForeseen := hform.of_error houtcome
      rw [run_evaluate_of_toPostfix_error houtcome]
      refine breaksByAnswer_of_accepted nofun fun breakdown hbroken => ?_
      cases hbroken
      exact hforeseen
  | ok output =>
      rw [houtcome] at hform
      have htable : (c.context text).orStandard.operators
          = .grouping c.settings.powerAssociativity := orStandard_grouping
      rw [run_evaluate_of_toPostfix houtcome]
      exact breaksByAnswer_evaluatePostfix htable htotal hsteady hform
        c.bindings world

private theorem tryEvaluate_eq_error_iff {text : String} {world : σ}
    {breakdown : Breakdown} :
    ((c.tryEvaluate resolver text).run world).1.1 = .error breakdown
      ↔ ((c.evaluate resolver text).run world).1.1
        = .error (.broken breakdown) := by
  show verdict text ((c.evaluate resolver text).run world).1.1 = _ ↔ _
  match ((c.evaluate resolver text).run world).1.1 with
  | .ok x => simp [verdict]
  | .error (.diagnosed d) => simp [verdict]
  | .error (.broken b) => simp [verdict]

/-- The recorded calculation is the plain one, written down. -/
theorem run_evaluate_recorded (resolver : Resolver (StateM σ)) (text : String)
    (world : σ) :
    let after := (c.evaluate resolver.recorded text).run ([], world)
    (after.1, after.2.2) = (c.evaluate resolver text).run world := by
  cases hform : c.toPostfix text with
  | error failure =>
      rw [run_evaluate_of_toPostfix_error hform,
        run_evaluate_of_toPostfix_error hform]
  | ok output => exact (c.inquiry_evaluate resolver hform world).1

end Calculator

-- ============================================================== the result

/-- Wherever an evaluation asks for a variable, an answer is used or refused
if and only if it is not an integer that is too large; such an integer breaks
the evaluation down. So a calculation with a resolver that does not break
down itself, and with functions that give values, comes to a verdict if and
only if it was never answered so. -/
theorem Resolver.answer_used_or_refused {σ : Type}
    (resolver : Resolver (StateM σ)) :
    (∀ ctx tokens bindings world
      (q : Question ctx resolver tokens bindings world) value after,
      (resolver.ask q.token.text).run q.present = (.ok value, after) →
        (q.Used value after ∨ q.Refused value after ↔ ¬ value.TooLarge)
        ∧ (value.TooLarge →
          (evaluatePostfix ctx resolver tokens bindings).run world
          = ((.error (.broken .integerTooLarge), q.between), after)))
    ∧ (resolver.Steady → ∀ (c : Calculator) text world, c.functions.Total →
      let outcome := ((c.tryEvaluate resolver text).run world).1.1
      let history :=
        ((c.tryEvaluate resolver.recorded text).run ([], world)).2.1
      ((∃ verdict, outcome = .ok verdict) ↔ ¬ history.AnsweredTooLarge)
      ∧ ∀ breakdown, outcome = .error breakdown →
        breakdown = .integerTooLarge) := by
  refine ⟨fun ctx tokens bindings world q value after hask => ?_, ?_⟩
  · exact ⟨q.used_or_refused_iff hask, q.broken_of_tooLarge hask⟩
  · intro hsteady c text world htotal outcome history
    have hplain : ((c.evaluate resolver.recorded text).run ([], world)).1.1
        = ((c.evaluate resolver text).run world).1.1 :=
      congrArg (·.1.1) (c.run_evaluate_recorded resolver text world)
    have hbreaks : BreaksByAnswer history
        ((c.evaluate resolver.recorded text).run ([], world)).1.1 :=
      c.breaksByAnswer_evaluate htotal hsteady text world
    rw [hplain] at hbreaks
    have hlarge : ∀ breakdown, outcome = .error breakdown →
        history.AnsweredTooLarge :=
      fun breakdown h =>
        hbreaks.only breakdown (c.tryEvaluate_eq_error_iff.mp h)
    have herror : history.AnsweredTooLarge →
        outcome = .error .integerTooLarge :=
      fun h => c.tryEvaluate_eq_error_iff.mpr (hbreaks.large h)
    refine ⟨⟨?_, fun hnot => ?_⟩, fun breakdown h => ?_⟩
    · rintro ⟨verdict, hverdict⟩ h
      rw [herror h] at hverdict
      cases hverdict
    · cases houtcome : outcome with
      | ok verdict => exact ⟨verdict, rfl⟩
      | error breakdown => exact absurd (hlarge breakdown houtcome) hnot
    · rw [herror (hlarge breakdown h)] at h
      cases h
      rfl

/-- In `x*y` the answer for `x` is an integer between two doubles, and is
used. That for `y` is a text, and is refused. -/
theorem Resolver.answer_used_or_refused_text :
    let resolver : Resolver (StateM Unit) :=
      .ofFunction fun name =>
        if name = "x" then .int 9007199254740993 else .text "7"
    let ctx : Context := ⟨⟨.standard, .builtin, "x*y"⟩, {}⟩
    let x : Token := ⟨.identifier, "x", 0, none, none⟩
    let y : Token := ⟨.identifier, "y", 2, none, none⟩
    let times : Token := ⟨.operator, "*", 1, none, some .multiply⟩
    (∃ q : Question ctx resolver [x, y, times] .empty (), q.token = x
        ∧ q.Used (.int 9007199254740993) ())
      ∧ (∃ q : Question ctx resolver [x, y, times] .empty (), q.token = y
        ∧ q.Refused (.text "7") ())
      ∧ ∃ verdict, ((({} : Calculator).tryEvaluate resolver "x*y").run ()).1.1
        = .ok verdict := by
  intro resolver ctx x y times
  have hnumber : ¬ (Value.int 9007199254740993).TooLarge := by
    rintro ⟨n, hn, hinfinite⟩
    obtain rfl := Value.int.inj hn
    revert hinfinite
    decide +kernel
  have htext : ¬ (Value.text "7").TooLarge := by
    rintro ⟨n, hn, -⟩
    cases hn
  have hanswers := Resolver.answer_used_or_refused resolver
  refine ⟨?_, ?_, ?_⟩
  · let q : Question ctx resolver [x, y, times] .empty () :=
      ⟨[], x, [y, times], [], .empty, (), rfl, rfl, rfl, rfl⟩
    refine ⟨q, rfl,
      ((hanswers.1 _ _ _ _ q _ () rfl).1.mpr hnumber).resolve_right ?_⟩
    rintro ⟨hnot, -⟩
    exact hnot (Float.ofInt 9007199254740993) ⟨rfl, by decide +kernel⟩
  · have hreached : (run ctx.orStandard resolver [x] [] .empty).run ()
        = ((.ok [Float.ofInt 9007199254740993],
          ⟨[("x", Float.ofInt 9007199254740993)]⟩), ()) := rfl
    let q : Question ctx resolver [x, y, times] .empty () :=
      ⟨[x], y, [times], _, _, (), rfl, hreached, rfl, by decide⟩
    refine ⟨q, rfl,
      ((hanswers.1 _ _ _ _ q _ () rfl).1.mpr htext).resolve_left ?_⟩
    rintro ⟨x, ⟨hnearest, -⟩, -⟩
    cases hnearest
  · have hsteady : resolver.Steady := by
      intro name world breakdown h
      cases h
    have hquestions :
        ((({} : Calculator).tryEvaluate resolver.recorded "x*y").run
        ([], ())).2.1.questions
          = [("x", .ok (.int 9007199254740993)), ("y", .ok (.text "7"))] := by
      decide +kernel
    refine (hanswers.2 hsteady {} "x*y" () Registry.total_builtin).1.mpr ?_
    rintro ⟨question, hquestion, value, hvalue, hlarge⟩
    rw [hquestions, List.mem_cons, List.mem_singleton] at hquestion
    rcases hquestion with rfl | rfl
    · cases hvalue
      exact hnumber hlarge
    · cases hvalue
      exact htext hlarge

/-- The integer `10^400` is neither used nor refused as the answer for `x`,
and there is no verdict of `x`. -/
theorem Resolver.answer_neither_used_nor_refused :
    let resolver : Resolver (StateM Unit) :=
      .ofFunction fun _ => .int (10 ^ 400)
    let ctx : Context := ⟨⟨.standard, .builtin, "x"⟩, {}⟩
    let x : Token := ⟨.identifier, "x", 0, none, none⟩
    (∃ q : Question ctx resolver [x] .empty (), q.token = x
        ∧ ¬ (q.Used (.int (10 ^ 400)) () ∨ q.Refused (.int (10 ^ 400)) ()))
      ∧ ¬ ∃ verdict, ((({} : Calculator).tryEvaluate resolver "x").run ()).1.1
        = .ok verdict := by
  intro resolver ctx x
  have hlarge : (Value.int (10 ^ 400)).TooLarge :=
    ⟨10 ^ 400, rfl, by decide +kernel⟩
  constructor
  · let q : Question ctx resolver [x] .empty () :=
      ⟨[], x, [], [], .empty, (), rfl, rfl, rfl, rfl⟩
    exact ⟨q, rfl, fun h => (q.used_or_refused_iff rfl).mp h hlarge⟩
  · have hbroken : ((({} : Calculator).tryEvaluate resolver "x").run ()).1.1
        = .error .integerTooLarge := by
      decide +kernel
    rw [hbroken]
    rintro ⟨verdict, hverdict⟩
    cases hverdict

end Reckoner

/-
Higher limits only admit more.

Limits are looked at in three places: the length of the text before it is
scanned, the count of the tokens as each of them is added, the depth of the
stack after each step. Each place compares one figure with one limit and
does nothing else, so a check that low limits pass is passed by higher
ones, and one that they do not pass ends the calculation with the report
of that limit. Everything between the checks is the same under all limits.

So two calculations that differ in their limits go side by side until the
lower ones are exceeded (`AgreesUnless`). This is shown of the scan
(`scan_of_le`), the runs of the stack machine (`run_of_le`) and with them
of a whole calculation (`evaluate_of_le`): questions, answers and bindings
included.
-/
import Reckoner.Proofs.Evaluation.Calculation
import Reckoner.Calculator

namespace Reckoner

-- =========================================================== the outcomes

/-- Whether a fault is that of a limit. -/
def Fault.IsLimit : Fault → Prop
  | .limitExceeded .. => True
  | _ => False

/-- A failure is a limit exceeded if it is reported as one. -/
def Failure.IsLimit : Failure → Prop
  | .diagnosed d => d.fault.IsLimit
  | .broken _ => False

/-- The second of two outcomes is the first one, unless that is an error
of the given sort. -/
def AgreesUnless {ε α : Type} (cut : ε → Prop) (low high : Except ε α) :
    Prop :=
  (∃ e, low = .error e ∧ cut e) ∨ high = low

section Agreement

variable {ε α β : Type} {cut : ε → Prop} {low high : Except ε α}

theorem AgreesUnless.refl (outcome : Except ε α) :
    AgreesUnless cut outcome outcome := Or.inr rfl

/-- What follows is reached by both or by neither, or by the second
alone. -/
theorem AgreesUnless.bind {f g : α → Except ε β}
    (h : AgreesUnless cut low high)
    (hf : ∀ a, low = .ok a → AgreesUnless cut (f a) (g a)) :
    AgreesUnless cut (low.bind f) (high.bind g) := by
  rcases h with ⟨e, rfl, he⟩ | rfl
  · exact Or.inl ⟨e, rfl, he⟩
  · cases high with
    | error e => exact .refl _
    | ok a => exact hf a rfl

end Agreement

-- ============================================================= the checks

section Checks

variable {limits limits' : Limits} (hle : limits.le limits')

include hle

/-- What low limits admit is admitted by higher ones, and what they refuse
they refuse as a limit. -/
theorem Limits.check_of_le (resource : Resource) (actual : Int)
    (position : Option Int) :
    AgreesUnless (·.fault.IsLimit) (limits.check resource actual position)
      (limits'.check resource actual position) := by
  by_cases h : actual ≤ limits.of resource
  · have hlow : limits.check resource actual position = .ok () :=
      Limits.check_eq_ok_iff.mpr h
    refine Or.inr ?_
    rw [hlow]
    exact Limits.check_mono hle hlow
  · exact Or.inl ⟨_, Limits.check_eq_error (Int.not_le.mp h) position, trivial⟩

-- =========================================================== the scanning

private theorem Token.scanFrom_of_le (registry : Registry) (source : String)
    (count : Nat) (glyphs : List Glyph) :
    AgreesUnless (·.fault.IsLimit)
      (Token.scanFrom registry limits source count glyphs)
      (Token.scanFrom registry limits' source count glyphs) := by
  fun_induction Token.scanFrom registry limits source count glyphs with
  | case1 count =>
      rw [Token.scanFrom]
      exact .refl _
  | case2 count first rest ih =>
      rw [Token.scanFrom]
      -- the lexeme is the same token, and only the check sees the limits
      refine (AgreesUnless.refl _).bind fun token _ => ?_
      refine (Limits.check_of_le hle .tokens _ _).bind fun _ _ => ?_
      exact ih.bind fun tokens _ => .refl _

/-- A text that scans within low limits scans to the same within higher
ones, and has the same fault if it has one. -/
theorem Token.scan_of_le (registry : Registry) (text : String) :
    AgreesUnless (·.fault.IsLimit) (Token.scan registry limits text)
      (Token.scan registry limits' text) :=
  (Limits.check_of_le hle .expressionLength _ _).bind fun _ _ =>
    Token.scanFrom_of_le hle registry.orBuiltin text 0 _

end Checks

-- ========================================================= the evaluation

/-- A context with other limits. -/
def Context.limited (ctx : Context) (limits : Limits) : Context :=
  { ctx with limits }

private theorem Context.orStandard_limited (ctx : Context) (limits : Limits) :
    (ctx.limited limits).orStandard = ctx.orStandard.limited limits := rfl

namespace Evaluation

variable {σ : Type} {limits limits' : Limits}

/-- Whether an outcome is that of a limit exceeded. -/
def Exceeded {α : Type} (outcome : Except Failure α) : Prop :=
  ∃ failure, outcome = .error failure ∧ failure.IsLimit

/-- A step does not look at the limits. -/
theorem step_limited {m : Type → Type} [Monad m] (ctx : Context)
    (resolver : Resolver m)
    (token : Token) (stack : Stack) (bindings : Bindings) :
    step (ctx.limited limits) resolver token stack bindings
      = step ctx resolver token stack bindings := rfl

private theorem result_limited (ctx : Context) :
    result (ctx.limited limits) = result ctx := rfl

private theorem checkDepth_of_le (hle : limits.le limits') (ctx : Context)
    (token : Token) (stack : Stack) :
    AgreesUnless Failure.IsLimit (checkDepth (ctx.limited limits) token stack)
      (checkDepth (ctx.limited limits') token stack) := by
  unfold checkDepth
  dsimp only [Context.limited]
  rcases Limits.check_of_le hle .stackDepth stack.length
      (some token.position) with
    ⟨d, hlow, hlimit⟩ | hsame
  · refine Or.inl ⟨.diagnosed d, ?_, hlimit⟩
    rw [hlow]
  · refine Or.inr ?_
    rw [hsame]

/-- Two runs that differ in their limits do the same, with the world and
the bindings, unless the lower limits are exceeded. -/
theorem run_of_le (hle : limits.le limits') (ctx : Context)
    (resolver : Resolver (StateM σ)) (tokens : List Token) (stack : Stack)
    (bindings : Bindings) (world : σ) :
    let low :=
      (run (ctx.limited limits) resolver tokens stack bindings).run world
    let high :=
      (run (ctx.limited limits') resolver tokens stack bindings).run world
    Exceeded low.1.1 ∨ high = low := by
  induction tokens generalizing stack bindings world with
  | nil => exact Or.inr rfl
  | cons token rest ih =>
      dsimp only
      rw [run, run, runWorld_bind, runWorld_bind, step_limited, step_limited]
      generalize (step ctx resolver token stack bindings).run world = after
      obtain ⟨⟨outcome, bindings'⟩, world'⟩ := after
      dsimp only
      have hchecked := (AgreesUnless.refl outcome).bind
        fun stack' _ => checkDepth_of_le hle ctx token stack'
      rcases hchecked with ⟨failure, hlow, hlimit⟩ | hsame
      · rw [hlow]
        exact Or.inl ⟨failure, rfl, hlimit⟩
      · rw [hsame]
        cases outcome.bind (checkDepth (ctx.limited limits) token) with
        | error failure => exact Or.inr rfl
        | ok stack' => exact ih stack' bindings' world'

private theorem evaluatePostfix_of_le (hle : limits.le limits') (ctx : Context)
    (resolver : Resolver (StateM σ)) (tokens : List Token)
    (bindings : Bindings) (world : σ) :
    let low :=
      (evaluatePostfix (ctx.limited limits) resolver tokens bindings).run world
    let high :=
      (evaluatePostfix (ctx.limited limits') resolver tokens
        bindings).run world
    Exceeded low.1.1 ∨ high = low := by
  have hrun := run_of_le hle ctx.orStandard resolver tokens [] bindings world
  dsimp only at hrun ⊢
  rw [evaluatePostfix, evaluatePostfix, Context.orStandard_limited,
    Context.orStandard_limited, result_limited, result_limited, runWorld_bind,
    runWorld_bind]
  rcases hrun with ⟨failure, hlow, hlimit⟩ | hsame
  · refine Or.inl ⟨failure, ?_, hlimit⟩
    show Except.bind _ _ = _
    rw [hlow]
    rfl
  · exact Or.inr (by rw [hsame])

end Evaluation

-- ======================================================== the calculators

namespace Calculator

open Evaluation

variable {σ : Type}

/-- A calculator with other limits. -/
def limited (c : Calculator) (limits : Limits) : Calculator :=
  { c with settings := { c.settings with limits } }

private theorem toPostfix_of_le (c : Calculator) {limits limits' : Limits}
    (hle : limits.le limits') (text : String) :
    AgreesUnless Failure.IsLimit ((c.limited limits).toPostfix text)
      ((c.limited limits').toPostfix text) := by
  unfold toPostfix
  dsimp only [limited]
  rcases Token.scan_of_le hle c.functions text with ⟨d, hlow, hlimit⟩ | hsame
  · refine Or.inl ⟨.diagnosed d, ?_, hlimit⟩
    rw [hlow]
  · refine Or.inr ?_
    rw [hsame]
    rfl

/-- Two runs come to the same as far as can be seen: in the outcome, in the
bindings they leave and in the world, where a resolver may keep account of
its questions and answers. -/
def SameSight (first second : (Except Failure Float × Calculator) × σ) :
    Prop :=
  second.1.1 = first.1.1 ∧ second.1.2.bindings = first.1.2.bindings
    ∧ second.2 = first.2

/-- A calculation under limits that are nowhere lower comes to the same,
unless the lower ones are exceeded. So if it ends in anything but a limit
exceeded, in a value or in any other failure, then higher limits make no
difference; and whatever it comes to under higher limits, lower ones
either keep that or are exceeded. -/
theorem evaluate_of_le (c : Calculator) (resolver : Resolver (StateM σ))
    {limits limits' : Limits} (hle : limits.le limits') (text : String)
    (world : σ) :
    let low := ((c.limited limits).evaluate resolver text).run world
    let high := ((c.limited limits').evaluate resolver text).run world
    (¬ Exceeded low.1.1 → SameSight low high)
      ∧ (SameSight low high ∨ Exceeded low.1.1) := by
  suffices h : let low := ((c.limited limits).evaluate resolver text).run world
      let high := ((c.limited limits').evaluate resolver text).run world
      Exceeded low.1.1 ∨ SameSight low high from
    ⟨h.resolve_left, h.symm⟩
  dsimp only
  unfold evaluate
  rcases c.toPostfix_of_le hle text with ⟨failure, hlow, hlimit⟩ | hsame
  · rw [hlow]
    exact Or.inl ⟨failure, rfl, hlimit⟩
  · rw [hsame]
    cases (c.limited limits).toPostfix text with
    | error failure => exact Or.inr ⟨rfl, rfl, rfl⟩
    | ok tokens =>
        have hrun :=
          evaluatePostfix_of_le hle (c.context text) resolver tokens
            c.bindings world
        dsimp only at hrun ⊢
        rw [runWorld_bind, runWorld_bind]
        rcases hrun with hexceeded | hrun
        · exact Or.inl hexceeded
        · have hrun' : (evaluatePostfix ((c.limited limits').context text)
              resolver tokens (c.limited limits').bindings).run world
              = (evaluatePostfix ((c.limited limits).context text) resolver
                tokens (c.limited limits).bindings).run world := hrun
          rw [hrun']
          exact Or.inr ⟨rfl, rfl, rfl⟩

/-- Under limits that `x-y*x` just keeps, five characters, five tokens and
three operands, its value and its two questions are those under the
standard ones. -/
theorem evaluate_of_le_tight :
    let resolver : Resolver (StateM (List String)) := ⟨fun name asked =>
      (.ok (.int (asked.length + 1)), asked ++ [name])⟩
    let c : Calculator := {}
    let low := ((c.limited ⟨5, 5, 3⟩).evaluate resolver "x-y*x").run []
    let high := ((c.limited {}).evaluate resolver "x-y*x").run []
    Limits.le ⟨5, 5, 3⟩ {} ∧ ¬ Exceeded low.1.1 ∧ SameSight low high
      ∧ high.1.1 = .ok (-1.0) ∧ high.2 = ["x", "y"] := by
  intro resolver c low high
  have hle : Limits.le ⟨5, 5, 3⟩ {} := by
    intro resource
    cases resource <;> decide
  have hvalue : low.1.1 = .ok (-1.0) := eq_ok_of_toOption (by decide +kernel)
  have hnot : ¬ Exceeded low.1.1 := by
    rintro ⟨failure, herror, -⟩
    rw [hvalue] at herror
    cases herror
  obtain ⟨hsame, -⟩ : (¬ Exceeded low.1.1 → SameSight low high)
      ∧ (SameSight low high ∨ Exceeded low.1.1) :=
    evaluate_of_le c resolver hle "x-y*x" []
  have hsight := hsame hnot
  exact ⟨hle, hnot, hsight, hsight.1.trans hvalue, by decide +kernel⟩

end Calculator

end Reckoner

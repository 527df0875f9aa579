/-
What the values of the variables decide, and what they do not.

The machine looks at a value in one place: before it divides, it asks
whether the divisor is zero. Everything else hangs on the tokens, on how
many values are on the stack and on which names are bound. So two
evaluations of a text in which the same names are bound beforehand, and in
which all answers are usable numbers, go side by side, whatever the
numbers are, until one of them divides by zero (`AlikeUnlessZero`).

The induction runs over the tokens with both stacks and both worlds at
once (`run_abreast`). It keeps the stacks at one depth and the bindings at
the same names, and with them the names that are asked for (`Abreast`).
-/
import Reckoner.Proofs.Calculator.Inquiry
import Reckoner.Proofs.Evaluation.Soundness

namespace Reckoner

-- ============================================================== the outcomes

/-- An outcome is the report of a division by zero. -/
def DividesByZero {α : Type} (outcome : Except Failure α) : Prop :=
  ∃ d, outcome = .error (.diagnosed d) ∧ d.fault.kind = .divisionByZero

instance {α : Type} : (outcome : Except Failure α) →
    Decidable (DividesByZero outcome)
  | .ok _ => isFalse fun ⟨_, h, _⟩ => by cases h
  | .error (.broken _) => isFalse fun ⟨_, h, _⟩ => by cases h
  | .error (.diagnosed d) =>
      decidable_of_iff (d.fault.kind = .divisionByZero)
        ⟨fun h => ⟨d, rfl, h⟩, fun ⟨_, h, hkind⟩ => by cases h; exact hkind⟩

private theorem dividesByZero_bind {α β : Type} {outcome : Except Failure α}
    (h : DividesByZero outcome) (f : α → Except Failure β) :
    DividesByZero (outcome.bind f) := by
  obtain ⟨d, rfl, hkind⟩ := h
  exact ⟨d, rfl, hkind⟩

private theorem dividesByZero_at (position : Int) (expression : String)
    {α : Type} :
    DividesByZero (α := α)
      (.error (.at .divisionByZero position expression)) :=
  ⟨_, rfl, rfl⟩

/-- Two outcomes with results of which something holds, or with the same
failure; unless one of them is a division by zero. -/
inductive AlikeUnlessZero {α : Type} (same : α → α → Prop) :
    Except Failure α → Except Failure α → Prop where
  | values {a a' : α} (h : same a a') : AlikeUnlessZero same (.ok a) (.ok a')
  | failure (failure : Failure) : AlikeUnlessZero same (.error failure)
    (.error failure)
  | first {outcome : Except Failure α} (h : DividesByZero outcome)
      (outcome' : Except Failure α) : AlikeUnlessZero same outcome outcome'
  | second {outcome' : Except Failure α} (outcome : Except Failure α)
      (h : DividesByZero outcome') : AlikeUnlessZero same outcome outcome'

/-- What follows on alike outcomes, each time alike, is alike. -/
theorem AlikeUnlessZero.bind {α β : Type} {same : α → α → Prop}
    {next : β → β → Prop} {outcome outcome' : Except Failure α}
    {f f' : α → Except Failure β} (h : AlikeUnlessZero same outcome outcome')
    (hf : ∀ a a', same a a' → AlikeUnlessZero next (f a) (f' a')) :
    AlikeUnlessZero next (outcome.bind f) (outcome'.bind f') := by
  cases h with
  | values h => exact hf _ _ h
  | failure failure => exact .failure failure
  | first h _ => exact .first (dividesByZero_bind h f) _
  | second _ h => exact .second _ (dividesByZero_bind h f')

/-- Where nothing is divided by zero, outcomes that are alike both succeed or
fail in the same way. -/
theorem AlikeUnlessZero.resolve {α : Type} {same : α → α → Prop}
    {outcome outcome' : Except Failure α}
    (h : AlikeUnlessZero same outcome outcome')
    (hzero : ¬ DividesByZero outcome) (hzero' : ¬ DividesByZero outcome') :
    (∃ a a', outcome = .ok a ∧ outcome' = .ok a')
      ∨ ∃ failure, outcome = .error failure ∧ outcome' = .error failure := by
  cases h with
  | values _ => exact .inl ⟨_, _, rfl, rfl⟩
  | failure failure => exact .inr ⟨failure, rfl, rfl⟩
  | first h _ => exact absurd h hzero
  | second _ h => exact absurd h hzero'

/-- An outcome that does not depend on a value at all. -/
theorem AlikeUnlessZero.of_eq {α : Type} {same : α → α → Prop}
    (hrefl : ∀ a, same a a) :
    ∀ outcome : Except Failure α, AlikeUnlessZero same outcome outcome
  | .ok a => .values (hrefl a)
  | .error _ => .failure _

namespace Evaluation

-- ========================================================= the applications

variable {ctx : Context} {grouping : Associativity} {token : Token}
variable {stack stack' : Stack}

/-- Stacks of one depth. -/
inductive SameDepth : Stack → Stack → Prop where
  | nil : SameDepth [] []
  | push {stack stack' : Stack} (h : SameDepth stack stack') (x x' : Float) :
      SameDepth (x :: stack) (x' :: stack')

theorem SameDepth.length_eq (h : SameDepth stack stack') :
    stack.length = stack'.length := by
  induction h with
  | nil => rfl
  | push h x x' ih => rw [List.length_cons, List.length_cons, ih]

theorem SameDepth.drop (h : SameDepth stack stack') (n : Nat) :
    SameDepth (stack.drop n) (stack'.drop n) := by
  induction h generalizing n with
  | nil => simpa using SameDepth.nil
  | push h x x' ih =>
      cases n with
      | zero => exact h.push x x'
      | succ n => exact ih n

/-- A function of the registry has a value if there are enough arguments. -/
theorem exists_applyFunction {spec : FunctionSpec}
    (htotal : ctx.functions.Total)
    (hspec : ctx.functions.find? token.text = some spec)
    (henough : spec.arity ≤ stack.length) :
    ∃ x, applyFunction ctx token stack = .ok (x :: stack.drop spec.arity) := by
  have harity : arityOf ctx.functions token.text = spec.arity := by
    rw [arityOf, hspec]
  have hargs : (stack.take spec.arity).reverse.length = spec.arity := by
    rw [List.length_reverse, List.length_take]
    omega
  obtain ⟨x, hx⟩ := htotal _ _ hspec _ hargs
  refine ⟨x, ?_⟩
  simp only [applyFunction, harity, if_neg (Nat.not_lt.mpr henough),
    Registry.call_eq_routine hspec hargs, hx]
  rfl

/-- Whether a function finds its arguments is told from the depth of the
stack. -/
theorem applyFunction_alike (htotal : ctx.functions.Total)
    (h : SameDepth stack stack') :
    AlikeUnlessZero SameDepth (applyFunction ctx token stack)
      (applyFunction ctx token stack') := by
  by_cases hfew : stack.length < arityOf ctx.functions token.text
  · rw [applyFunction, applyFunction, if_pos hfew, if_pos (h.length_eq ▸ hfew)]
    exact .failure _
  · cases hspec : ctx.functions.find? token.text with
    | none =>
        rw [applyFunction, applyFunction, if_neg hfew,
          if_neg (h.length_eq ▸ hfew)]
        simp only [Registry.call, hspec]
        exact .failure _
    | some spec =>
        rw [arityOf, hspec, Nat.not_lt] at hfew
        obtain ⟨x, hx⟩ := exists_applyFunction htotal hspec hfew
        obtain ⟨x', hx'⟩ :=
          exists_applyFunction htotal hspec (h.length_eq ▸ hfew)
        rw [hx, hx']
        exact .values ((h.drop spec.arity).push x x')

/-- An operator that finds two operands has a value, unless it is a
division and the right one is zero. -/
theorem applyOperator_alike (htable : ctx.operators = .grouping grouping)
    (h : SameDepth stack stack') :
    AlikeUnlessZero SameDepth (applyOperator ctx token stack)
      (applyOperator ctx token stack') := by
  cases hop : token.operator with
  | none =>
      simp only [applyOperator, hop, Option.bind_none]
      exact .failure _
  | some op =>
      by_cases hnegate : op = .negate
      · subst hnegate
        have hspec :
            ctx.operators.find? .negate = some Operator.negate.spec := by
          rw [htable, OperatorTable.find?_grouping (by decide)]
        simp only [applyOperator, hop, Option.bind_some, hspec,
          Option.map_some]
        cases h with
        | nil => exact .failure _
        | push h x x' => exact .values (h.push (-x) (-x'))
      · obtain ⟨spec, hspec, harity, hroutine⟩ :=
          find?_grouping_binary grouping hnegate
        rw [← htable] at hspec
        simp only [applyOperator, hop, Option.bind_some, hspec,
          Option.map_some, harity, hroutine]
        cases h with
        | nil => exact .failure _
        | push h b b' =>
            cases h with
            | nil => exact .failure _
            | push h a a' =>
                simp only [List.length_cons,
                  if_neg (Nat.not_lt.mpr (Nat.le_add_left 2 _))]
                -- here alone a value is looked at, on each side its own
                by_cases hzero : op = .divide ∧ (b == 0) = true
                · rw [if_pos hzero]
                  exact .first (dividesByZero_at _ _) _
                by_cases hzero' : op = .divide ∧ (b' == 0) = true
                · rw [if_pos hzero']
                  exact .second _ (dividesByZero_at _ _)
                obtain ⟨x, hx⟩ := exists_routine (a := a) hnegate hzero
                obtain ⟨x', hx'⟩ := exists_routine (a := a') hnegate hzero'
                rw [if_neg hzero, if_neg hzero', hx, hx']
                exact .values (h.push x x')

end Evaluation

-- ============================================================= the questions

/-- An answer that is a finite double. -/
def isFiniteAnswer : Except Failure Value → Bool
  | .ok (.float x) => x.isFinite
  | _ => false

/-- The names that were asked for, the earliest first. -/
def History.askedNames (history : History) : List String :=
  history.questions.map Prod.fst

private theorem History.askedNames_asked (history : History) (name : String)
    (answer : Except Failure Value) :
    askedNames (.asked name answer :: history)
      = history.askedNames ++ [name] := by
  rw [askedNames, questions_asked, List.map_append]
  rfl

/-- All answers are finite doubles. -/
def History.AllFinite (history : History) : Prop :=
  ∀ question ∈ history.questions, isFiniteAnswer question.2 = true

instance (history : History) : Decidable history.AllFinite :=
  inferInstanceAs (Decidable (∀ question ∈ history.questions,
    isFiniteAnswer question.2 = true))

/-- Maps in which the same names are bound. -/
def NameMap.SameNames {α : Type} (map map' : NameMap α) : Prop :=
  ∀ name, map.contains name = map'.contains name

theorem NameMap.SameNames.insert {α : Type} {map map' : NameMap α}
    (h : map.SameNames map') (name : String) (x x' : α) :
    (map.insert name x).SameNames (map'.insert name x') := by
  intro other
  rw [contains, contains, find?_insert, find?_insert]
  split
  · rfl
  · exact h other

namespace Evaluation

section Machine

variable {σ σ' : Type} {ctx : Context} {grouping : Associativity}
  {token : Token}
variable {resolver : Resolver (StateM σ)} {resolver' : Resolver (StateM σ')}

private theorem exists_accept (ctx : Context) (token : Token)
    {answer : Except Failure Value}
    (h : isFiniteAnswer answer = true) :
    ∃ x, accept ctx token answer = .ok x := by
  cases answer with
  | error failure => cases h
  | ok value =>
      cases value with
      | float x =>
          have hx : x.isFinite = true := h
          exact ⟨x, by simp only [accept, finiteValue, hx, if_true]⟩
      | _ => cases h

/-- What has been asked for is not forgotten. -/
theorem allFinite_of_run {tokens : List Token} {stack : Stack}
    {bindings : Bindings} {history : History} {world : σ}
    (h : ((run ctx resolver.recorded tokens stack bindings).run
      (history, world)).2.1.AllFinite) : history.AllFinite := by
  obtain ⟨history', asked, hrun, hquestions, -⟩ :=
    inquires_run ctx resolver tokens stack bindings history world
  rw [hrun] at h
  intro question hquestion
  exact h question (by rw [hquestions]; exact List.mem_append_left _ hquestion)

/-- Later steps ask more questions and take none back. -/
theorem allFinite_of_run_cons {rest : List Token} {stack : Stack}
    {bindings : Bindings} {world : History × σ}
    (h : ((run ctx resolver.recorded (token :: rest) stack bindings).run
      world).2.1.AllFinite) :
    ((step ctx resolver.recorded token stack bindings).run
      world).2.1.AllFinite := by
  rw [run, runWorld_bind] at h
  generalize (step ctx resolver.recorded token stack bindings).run world
    = after at h
  obtain ⟨⟨outcome, between⟩, middle⟩ := after
  dsimp only at h ⊢
  cases hchecked : outcome.bind (checkDepth ctx token) with
  | error failure =>
      rw [hchecked] at h
      exact h
  | ok stack' =>
      rw [hchecked] at h
      exact allFinite_of_run h

/-- Where two computations have come, side by side. -/
structure Abreast {α : Type} (same : α → α → Prop)
    (after : (Except Failure α × Bindings) × History × σ)
    (after' : (Except Failure α × Bindings) × History × σ') : Prop where
  alike : AlikeUnlessZero same after.1.1 after'.1.1
  names : after.1.2.SameNames after'.1.2
  asked : after.2.1.askedNames = after'.2.1.askedNames

variable {stack stack' : Stack} {bindings bindings' : Bindings}
variable {history history' : History} {world : σ} {world' : σ'}

/-- An unbound variable is asked for, and a finite answer is bound. -/
theorem variableValue_asked (hunbound : bindings.find? token.text = none)
    (hfinite : ((variableValue ctx resolver.recorded token bindings).run
      (history, world)).2.1.AllFinite) :
    ∃ x answer world₁, (variableValue ctx resolver.recorded token bindings).run
        (history, world)
      = ((.ok x, bindings.insert token.text x),
        (.asked token.text answer :: history, world₁)) := by
  obtain ⟨x, hbound, -⟩ | ⟨-, answer, after, hask, hanswer⟩ :=
    variableValue_cases ctx resolver.recorded token bindings (history, world)
  · rw [hunbound] at hbound
    cases hbound
  rw [Resolver.recorded_ask] at hask
  obtain ⟨rfl, rfl⟩ := Prod.mk.inj hask
  obtain ⟨x, -, hrun⟩ | ⟨failure, haccept, hrun⟩ := hanswer
  · exact ⟨x, _, _, hrun⟩
  · -- the answer is among the questions, so it is accepted
    rw [hrun] at hfinite
    obtain ⟨x, hx⟩ := exists_accept ctx token
      (hfinite (token.text, ((resolver.ask token.text).run world).1)
        (by simp [History.questions_asked]))
    rw [hx] at haccept
    cases haccept

/-- A variable is bound on both sides, or it is asked for on both. -/
theorem variableValue_abreast (hnames : bindings.SameNames bindings')
    (hasked : history.askedNames = history'.askedNames)
    (hfinite : ((variableValue ctx resolver.recorded token bindings).run
      (history, world)).2.1.AllFinite)
    (hfinite' : ((variableValue ctx resolver'.recorded token bindings').run
      (history', world')).2.1.AllFinite) :
    Abreast (fun _ _ => True)
      ((variableValue ctx resolver.recorded token bindings).run
        (history, world))
      ((variableValue ctx resolver'.recorded token bindings').run
        (history', world')) := by
  have hname := hnames token.text
  rw [NameMap.contains, NameMap.contains] at hname
  cases hfind : bindings.find? token.text with
  | some x =>
      rw [hfind] at hname
      obtain ⟨x', hfind'⟩ := Option.isSome_iff_exists.mp hname.symm
      rw [variableValue_bound hfind, variableValue_bound hfind']
      exact ⟨.values trivial, hnames, hasked⟩
  | none =>
      rw [hfind] at hname
      have hfind' : bindings'.find? token.text = none := by
        simpa using hname.symm
      obtain ⟨x, answer, world₁, hrun⟩ := variableValue_asked hfind hfinite
      obtain ⟨x', answer', world₁', hrun'⟩ :=
        variableValue_asked hfind' hfinite'
      rw [hrun, hrun']
      refine ⟨.values trivial, hnames.insert _ x x', ?_⟩
      rw [History.askedNames_asked, History.askedNames_asked, hasked]

/-- Two steps of one token, from stacks of one depth, stay side by side. -/
theorem step_abreast (htable : ctx.operators = .grouping grouping)
    (htotal : ctx.functions.Total) (hdepth : SameDepth stack stack')
    (hnames : bindings.SameNames bindings')
    (hasked : history.askedNames = history'.askedNames)
    (hfinite : ((step ctx resolver.recorded token stack bindings).run
      (history, world)).2.1.AllFinite)
    (hfinite' : ((step ctx resolver'.recorded token stack' bindings').run
      (history', world')).2.1.AllFinite) :
    Abreast SameDepth
      ((step ctx resolver.recorded token stack bindings).run (history, world))
      ((step ctx resolver'.recorded token stack' bindings').run
        (history', world')) := by
  unfold step at hfinite hfinite' ⊢
  cases hkind : token.kind with
  | identifier =>
      rw [hkind] at hfinite hfinite'
      have hvalue := variableValue_abreast hnames hasked hfinite hfinite'
      exact ⟨hvalue.alike.bind fun x x' _ => .values (hdepth.push x x'),
        hvalue.names, hvalue.asked⟩
  | number =>
      have hvalue : AlikeUnlessZero (fun _ _ => True) (numberValue ctx token)
          (numberValue ctx token) := .of_eq (fun _ => trivial) _
      exact ⟨hvalue.bind fun x x' _ => .values (hdepth.push x x'), hnames,
        hasked⟩
  | function => exact ⟨applyFunction_alike htotal hdepth, hnames, hasked⟩
  | operator => exact ⟨applyOperator_alike htable hdepth, hnames, hasked⟩
  | leftParen | rightParen | comma => exact ⟨.failure _, hnames, hasked⟩

private theorem checkDepth_alike (ctx : Context) (token : Token)
    (hdepth : SameDepth stack stack') :
    AlikeUnlessZero SameDepth (checkDepth ctx token stack)
      (checkDepth ctx token stack') := by
  unfold checkDepth
  rw [← hdepth.length_eq]
  cases ctx.limits.check .stackDepth stack.length (some token.position) with
  | ok _ => exact .values hdepth
  | error d => exact .failure _

/-- Two runs of the same tokens stay side by side until one of them divides
by zero: by induction on the tokens. -/
theorem run_abreast (htable : ctx.operators = .grouping grouping)
    (htotal : ctx.functions.Total) (tokens : List Token)
    (hdepth : SameDepth stack stack') (hnames : bindings.SameNames bindings')
    (hasked : history.askedNames = history'.askedNames)
    (hfinite : ((run ctx resolver.recorded tokens stack bindings).run
      (history, world)).2.1.AllFinite)
    (hfinite' : ((run ctx resolver'.recorded tokens stack' bindings').run
      (history', world')).2.1.AllFinite) :
    let after := (run ctx resolver.recorded tokens stack bindings).run
      (history, world)
    let after' := (run ctx resolver'.recorded tokens stack' bindings').run
      (history', world')
    DividesByZero after.1.1 ∨ DividesByZero after'.1.1
      ∨ Abreast SameDepth after after' := by
  induction tokens generalizing stack stack' bindings bindings' history
    history' world world'
    with
  | nil => exact .inr (.inr ⟨.values hdepth, hnames, hasked⟩)
  | cons token rest ih =>
      obtain ⟨halike, hbetween, hmiddle⟩ :=
        step_abreast htable htotal hdepth hnames hasked
        (allFinite_of_run_cons hfinite) (allFinite_of_run_cons hfinite')
      rw [run, runWorld_bind] at hfinite hfinite' ⊢
      rw [run, runWorld_bind]
      generalize (step ctx resolver.recorded token stack bindings).run
        (history, world)
        = after at halike hbetween hmiddle hfinite ⊢
      generalize (step ctx resolver'.recorded token stack' bindings').run
        (history', world')
        = after' at halike hbetween hmiddle hfinite' ⊢
      obtain ⟨⟨outcome, between⟩, middle, world₁⟩ := after
      obtain ⟨⟨outcome', between'⟩, middle', world₁'⟩ := after'
      dsimp only at halike hbetween hmiddle hfinite hfinite' ⊢
      -- the check sees how deep the stacks are and not what is on them
      have hchecked := halike.bind fun _ _ => checkDepth_alike ctx token
      generalize outcome.bind (checkDepth ctx token) = checked
        at hchecked hfinite ⊢
      generalize outcome'.bind (checkDepth ctx token) = checked'
        at hchecked hfinite' ⊢
      cases hchecked with
      | values h => exact ih h hbetween hmiddle hfinite hfinite'
      | failure failure =>
          exact .inr (.inr ⟨.failure failure, hbetween, hmiddle⟩)
      | first h =>
          -- that run ends here, while the other may go on and ask for more
          obtain ⟨d, rfl, hkind⟩ := h
          exact .inl ⟨d, rfl, hkind⟩
      | second _ h =>
          obtain ⟨d, rfl, hkind⟩ := h
          exact .inr (.inl ⟨d, rfl, hkind⟩)

private theorem result_alike (ctx : Context)
    (hdepth : SameDepth stack stack') :
    AlikeUnlessZero (fun _ _ => True) (result ctx stack)
      (result ctx stack') := by
  cases hdepth with
  | nil => exact .failure _
  | push h x x' =>
      cases h with
      | nil => exact .values trivial
      | push h y y' =>
          simp only [result, List.length_cons, h.length_eq]
          exact .failure _

/-- And so do their evaluations. -/
theorem evaluatePostfix_abreast (ctx : Context)
    (htable : ctx.orStandard.operators = .grouping grouping)
    (htotal : ctx.functions.Total) (tokens : List Token)
    (hnames : bindings.SameNames bindings')
    (hfinite : ((evaluatePostfix ctx resolver.recorded tokens bindings).run
      ([], world)).2.1.AllFinite)
    (hfinite' : ((evaluatePostfix ctx resolver'.recorded tokens bindings').run
      ([], world')).2.1.AllFinite) :
    let after := (evaluatePostfix ctx resolver.recorded tokens bindings).run
      ([], world)
    let after' := (evaluatePostfix ctx resolver'.recorded tokens bindings').run
      ([], world')
    DividesByZero after.1.1 ∨ DividesByZero after'.1.1
      ∨ Abreast (fun _ _ => True) after after' := by
  have hrun := run_abreast htable htotal.orBuiltin tokens
    SameDepth.nil hnames (rfl : History.askedNames [] = History.askedNames [])
    hfinite hfinite'
  obtain hzero | hzero | ⟨halike, hafter, hasked⟩ := hrun
  · exact .inl (dividesByZero_bind hzero _)
  · exact .inr (.inl (dividesByZero_bind hzero _))
  · exact .inr (.inr ⟨halike.bind fun _ _ => result_alike ctx.orStandard,
      hafter, hasked⟩)

end Machine

end Evaluation

-- ============================================================ the calculator

namespace Calculator

open Evaluation

variable {σ σ' : Type}

/-- The values of the variables decide nothing but the value of a text and
whether something is divided by zero. Take two evaluations of a text in
which the same names are bound beforehand and in which all answers are
finite doubles, be the values what they may. If neither divides by zero,
then both give a value or both fail in the same way, and both ask for the
same names in the same order. -/
theorem evaluate_independent (settings : Settings) {functions : Registry}
    (htotal : functions.Total) {bindings bindings' : Bindings}
    (hnames : bindings.SameNames bindings') (resolver : Resolver (StateM σ))
    (resolver' : Resolver (StateM σ')) (text : String) (world : σ)
    (world' : σ') :
    let c : Calculator := ⟨settings, functions, bindings⟩
    let c' : Calculator := ⟨settings, functions, bindings'⟩
    let after := (c.evaluate resolver.recorded text).run ([], world)
    let after' := (c'.evaluate resolver'.recorded text).run ([], world')
    after.2.1.AllFinite → after'.2.1.AllFinite →
    ¬ DividesByZero after.1.1 → ¬ DividesByZero after'.1.1 →
      ((∃ x x', after.1.1 = .ok x ∧ after'.1.1 = .ok x')
        ∨ ∃ failure, after.1.1 = .error failure ∧ after'.1.1 = .error failure)
      ∧ after.2.1.askedNames = after'.2.1.askedNames := by
  intro c c' after after' hfinite hfinite' hzero hzero'
  -- bindings have no part in the conversion
  have hform : c'.toPostfix text = c.toPostfix text := rfl
  cases htokens : c.toPostfix text with
  | error failure =>
      have hafter : after = ((.error failure, c), [], world) :=
        run_evaluate_of_toPostfix_error htokens _
      have hafter' : after' = ((.error failure, c'), [], world') :=
        run_evaluate_of_toPostfix_error (hform.trans htokens) _
      rw [hafter, hafter']
      exact ⟨.inr ⟨failure, rfl, rfl⟩, rfl⟩
  | ok tokens =>
      have hafter : after = _ := run_evaluate_of_toPostfix htokens ([], world)
      have hafter' : after' = _ :=
        run_evaluate_of_toPostfix (hform.trans htokens) ([], world')
      rw [hafter] at hfinite hzero ⊢
      rw [hafter'] at hfinite' hzero' ⊢
      obtain h | h | ⟨halike, -, hasked⟩ :=
        evaluatePostfix_abreast (c.context text)
        orStandard_grouping htotal tokens hnames hfinite hfinite'
      · exact absurd h hzero
      · exact absurd h hzero'
      · exact ⟨halike.resolve hzero hzero', hasked⟩

/-- In `x/y+z*` an operand is missing, whatever `x` is bound to and whatever
two resolvers say of `y` and `z`. -/
theorem evaluate_independent_missing_operand :
    let bindings : Bindings := ⟨[("x", 1.5)]⟩
    let bindings' : Bindings := ⟨[("x", -0.0)]⟩
    let resolver : Resolver (StateM Unit) := .ofFunction fun _ => .float 2
    let resolver' : Resolver (StateM Nat) := ⟨fun name count =>
      (.ok (.float (if name = "y" then -0.25 else 0)), count + 1)⟩
    let c : Calculator := ⟨{}, .builtin, bindings⟩
    let c' : Calculator := ⟨{}, .builtin, bindings'⟩
    let after := (c.evaluate resolver.recorded "x/y+z*").run ([], ())
    let after' := (c'.evaluate resolver'.recorded "x/y+z*").run ([], 0)
    Registry.builtin.Total ∧ bindings.SameNames bindings'
      ∧ after.2.1.AllFinite ∧ after'.2.1.AllFinite
      ∧ ¬ DividesByZero after.1.1 ∧ ¬ DividesByZero after'.1.1
      ∧ ((∃ x x', after.1.1 = .ok x ∧ after'.1.1 = .ok x')
        ∨ ∃ failure, after.1.1 = .error failure ∧ after'.1.1 = .error failure)
      ∧ after.1.1.toOption = none
      ∧ after.2.1.askedNames = after'.2.1.askedNames ∧ after'.2.2 = 2 := by
  intro bindings bindings' resolver resolver' c c' after after'
  have hempty : (.empty : Bindings).SameNames .empty := fun _ => rfl
  have hnames : bindings.SameNames bindings' := hempty.insert "x" 1.5 (-0.0)
  have hfinite : after.2.1.AllFinite := by decide +kernel
  have hfinite' : after'.2.1.AllFinite := by decide +kernel
  have hzero : ¬ DividesByZero after.1.1 := by decide +kernel
  have hzero' : ¬ DividesByZero after'.1.1 := by decide +kernel
  obtain ⟨houtcomes, hasked⟩ :
      ((∃ x x', after.1.1 = .ok x ∧ after'.1.1 = .ok x')
        ∨ ∃ failure, after.1.1 = .error failure ∧ after'.1.1 = .error failure)
      ∧ after.2.1.askedNames = after'.2.1.askedNames :=
    evaluate_independent {} Registry.total_builtin hnames resolver resolver'
      "x/y+z*" () 0
      hfinite hfinite' hzero hzero'
  exact ⟨Registry.total_builtin, hnames, hfinite, hfinite', hzero, hzero',
    houtcomes, by decide +kernel, hasked, by decide +kernel⟩

end Calculator

end Reckoner

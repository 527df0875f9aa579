/-
What a postfix form weighs: how many values its tokens leave on the stack
more than they take from it.

The machine knows no grammar; all that it checks is that there are
enough values for each application and one value in the end. But the
depth of its stack does not depend on any value. It is the weight of the
tokens so far, so a run that gives a value is one whose tokens weigh one
(`total_of_result`), and a run of few tokens never grows too deep
(`shallow_of_length_le`).
-/
import Reckoner.Proofs.Evaluation.Calculation

namespace Reckoner

-- ============================================================== the weights

/-- The values that a postfix token leaves more than it takes. -/
def Grammar.weight (g : Grammar) (token : Token) : Int :=
  match token.kind with
  | .number | .identifier => 1
  | .function => 1 - Evaluation.arityOf g.functions token.text
  | .operator =>
      match token.operator.bind g.operators.find? with
      | some spec => if spec.arity = 1 then 0 else -1
      | none => 0
  | .leftParen | .rightParen | .comma => 0

/-- The values that postfix tokens leave more than they take. -/
def Grammar.total (g : Grammar) : List Token → Int
  | [] => 0
  | token :: rest => g.weight token + g.total rest

namespace Grammar

@[simp] theorem total_nil (g : Grammar) : g.total [] = 0 := rfl

@[simp] theorem total_cons (g : Grammar) (token : Token)
    (tokens : List Token) :
    g.total (token :: tokens) = g.weight token + g.total tokens := rfl

@[simp] theorem total_append (g : Grammar) (first second : List Token) :
    g.total (first ++ second) = g.total first + g.total second := by
  induction first with
  | nil => rw [List.nil_append, total_nil, Int.zero_add]
  | cons token rest ih =>
      rw [List.cons_append, total_cons, total_cons, ih, Int.add_assoc]

theorem weight_le_one (g : Grammar) (token : Token) : g.weight token ≤ 1 := by
  unfold weight
  split
  · exact Int.le_refl _
  · exact Int.le_refl _
  · omega
  · split
    · split <;> decide
    · decide
  all_goals decide

end Grammar

namespace Evaluation

variable {σ : Type} {ctx : Context}

-- ================================================================ the steps

/-- A function takes its arguments and leaves its value. -/
theorem length_of_applyFunction {token : Token} {stack after : Stack}
    (h : applyFunction ctx token stack = .ok after) :
    (after.length : Int)
      = stack.length + (1 - arityOf ctx.functions token.text) := by
  unfold applyFunction at h
  dsimp only at h
  split at h
  · cases h
  · split at h
    · cases h
      rw [List.length_cons, List.length_drop]
      omega
    · cases h

private theorem length_of_push {rest after : Stack}
    {outcome : Except Breakdown Float}
    (h : applyOperator.push rest outcome = .ok after) :
    after.length = rest.length + 1 := by
  cases outcome with
  | error breakdown => cases h
  | ok x =>
      cases h
      rfl

/-- An operator takes one operand or two and leaves its value. -/
theorem length_of_applyOperator {token : Token} {stack after : Stack}
    (h : applyOperator ctx token stack = .ok after) :
    ∃ spec, token.operator.bind ctx.operators.find? = some spec
      ∧ (after.length : Int)
        = stack.length + if spec.arity = 1 then 0 else -1 := by
  unfold applyOperator at h
  split at h
  · cases h
  · next op spec hspec =>
      obtain ⟨op', hop, hfind⟩ := Option.bind_eq_some_iff.mp hspec
      obtain ⟨spec', hspec', heq⟩ := Option.map_eq_some_iff.mp hfind
      obtain ⟨rfl, rfl⟩ := Prod.mk.inj heq
      refine ⟨spec', by rw [hop, Option.bind_some, hspec'], ?_⟩
      split at h
      · cases h
      · split at h
        · next hunary =>
            rw [if_pos hunary]
            cases stack with
            | nil => cases h
            | cons x rest =>
                have := length_of_push h
                rw [List.length_cons]
                omega
        · next hbinary =>
            rw [if_neg hbinary]
            split at h
            · split at h
              · cases h
              · have := length_of_push h
                simp only [List.length_cons]
                omega
            · cases h

/-- A step changes the depth of the stack by the weight of its token. -/
theorem length_of_step {resolver : Resolver (StateM σ)} {token : Token}
    {stack after : Stack} {bindings bindings' : Bindings} {world world' : σ}
    (h : (step ctx resolver token stack bindings).run world
      = ((.ok after, bindings'), world')) :
    (after.length : Int) = stack.length + ctx.weight token := by
  unfold step at h
  cases hkind : token.kind with
  | number =>
      rw [hkind] at h
      cases hx : numberValue ctx token with
      | error failure =>
          rw [hx] at h
          cases h
      | ok x =>
          rw [hx] at h
          cases h
          simp [Grammar.weight, hkind]
  | identifier =>
      rw [hkind] at h
      dsimp only at h
      rw [runWorld_bind] at h
      -- a value is pushed whichever way it was come by
      generalize (variableValue ctx resolver token bindings).run world
        = found at h
      obtain ⟨⟨outcome, bindings⟩, world⟩ := found
      cases outcome with
      | error failure => cases h
      | ok x =>
          cases h
          simp [Grammar.weight, hkind]
  | function =>
      rw [hkind] at h
      rw [length_of_applyFunction (congrArg (·.1.1) h), Grammar.weight, hkind]
  | operator =>
      rw [hkind] at h
      obtain ⟨spec, hspec, hlength⟩ :=
        length_of_applyOperator (congrArg (·.1.1) h)
      rw [hlength, Grammar.weight, hkind]
      dsimp only
      rw [hspec]
  | leftParen | rightParen | comma =>
      rw [hkind] at h
      cases h

-- ================================================================= the runs

/-- A run changes the depth of the stack by the weight of its tokens. -/
theorem length_of_run {resolver : Resolver (StateM σ)} {tokens : List Token}
    {stack after : Stack} {bindings bindings' : Bindings} {world world' : σ}
    (h : (run ctx resolver tokens stack bindings).run world
      = ((.ok after, bindings'), world')) :
    (after.length : Int) = stack.length + ctx.total tokens := by
  induction tokens generalizing stack bindings world with
  | nil =>
      cases h
      simp
  | cons token rest ih =>
      obtain ⟨middle, between, world'', hstep, -, hrest⟩ := run_cons_eq_ok h
      rw [ih hrest, length_of_step hstep, Grammar.total_cons]
      omega

/-- What gives a value weighs one. -/
theorem total_of_result {resolver : Resolver (StateM σ)} {tokens : List Token}
    {x : Float} {bindings bindings' : Bindings} {world world' : σ}
    (h : (evaluatePostfix ctx resolver tokens bindings).run world
      = ((.ok x, bindings'), world')) :
    ctx.orStandard.total tokens = 1 := by
  rw [evaluatePostfix, runWorld_bind] at h
  generalize hrun : (run ctx.orStandard resolver tokens [] bindings).run world
    = after at h
  obtain ⟨⟨outcome, bindings⟩, world⟩ := after
  cases outcome with
  | error failure => cases h
  | ok stack =>
      have hlength := length_of_run hrun
      have hresult : result ctx.orStandard stack = .ok x := congrArg (·.1.1) h
      unfold result at hresult
      split at hresult
      · simpa using hlength.symm
      · cases hresult

/-- A run of no more tokens than the stack has room for stays within the
limit, whatever is computed. -/
theorem shallow_of_length_le (resolver : Resolver (StateM σ))
    {tokens : List Token} {stack : Stack} (bindings : Bindings) (world : σ)
    (h : (stack.length + tokens.length : Nat) ≤ ctx.limits.of .stackDepth) :
    Shallow ctx resolver tokens stack bindings world := by
  induction tokens generalizing stack bindings world with
  | nil => trivial
  | cons token rest ih =>
      rw [Shallow]
      split
      · next after bindings world hstep =>
          have hafter := length_of_step hstep
          have hweight := ctx.weight_le_one token
          rw [List.length_cons] at h
          refine ⟨by omega, ih bindings world ?_⟩
          omega
      · trivial

end Evaluation

end Reckoner

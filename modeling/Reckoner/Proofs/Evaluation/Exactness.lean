/-
The stack machine evaluates the postorders of trees, and nothing else.

The machine never sees a tree. It sees a token and a stack, and the only
thing that it knows of the tokens before is how many values are there.
That is enough: a run that meets no fault supplies every token with the
values it takes (`supplied_of_run`), and tokens that are all supplied and
leave one value are the postorder of a tree, of one only. Then the run
does what evaluating the tree does, provided that the stack never grows
too deep (`evaluatePostfix_of_spells`).

Tokens that are no postorder fail, at the latest, for one of two reasons:
the first token that is not supplied, or the number of values that are
left. A fault of another kind can only come earlier
(`evaluatePostfix_exact`).
-/
import Reckoner.Proofs.Calculator.Meaning
import Reckoner.Proofs.Evaluation.Forest

namespace Reckoner

-- ============================================================== the limit

/-- After every token there are no more values than the limit allows, if
`available` ones are there at the beginning. -/
def Within (functions : Registry) (limit : Int) : Int → List Token → Prop
  | _, [] => True
  | available, token :: rest =>
      available + (1 - token.arity functions) ≤ limit
        ∧ Within functions limit (available + (1 - token.arity functions)) rest

instance decidableWithin (functions : Registry) (limit : Int) :
    (available : Int) → (tokens : List Token) →
      Decidable (Within functions limit available tokens)
  | _, [] => .isTrue trivial
  | available, token :: rest =>
      have := decidableWithin functions limit
        (available + (1 - token.arity functions)) rest
      inferInstanceAs (Decidable (_ ∧ _))

/-- Of the operators of a table unary minus, and no other, takes one value. -/
def OperatorTable.UsualArities (table : OperatorTable) : Prop :=
  ∀ op spec, table.find? op = some spec → (spec.arity = 1 ↔ op = .negate)

theorem OperatorTable.usualArities_grouping (associativity : Associativity) :
    (grouping associativity).UsualArities := by
  intro op spec hspec
  by_cases hnegate : op = .negate
  · subst hnegate
    rw [find?_grouping (by decide)] at hspec
    cases hspec
    decide
  · obtain ⟨spec', hspec', harity, -⟩ :=
      find?_grouping_binary associativity hnegate
    obtain rfl : spec' = spec := Option.some.inj (hspec'.symm.trans hspec)
    simp [harity, hnegate]

/-- What is reported of a token that does not find the values it takes. -/
def Token.lack (token : Token) : Fault :=
  match token.kind, token.operator with
  | .operator, some op => .missingOperand op
  | _, _ => .missingArgument token.text

open Calculation

namespace Evaluation

-- ================================================================ the steps

section Steps

variable {m : Type → Type} [Monad m] {ctx : Context} {grouping : Associativity}
variable {resolver : Resolver m} {token : Token} {stack : Stack}
  {bindings : Bindings}

/-- The usual table has every operator, with the number of values that it
takes. -/
theorem exists_spec (htable : ctx.operators = .grouping grouping)
    (hkind : token.kind = .operator) (htoken : token.Ready ctx.functions) :
    ∃ op spec, token.operator = some op ∧ ctx.operators.find? op = some spec
      ∧ spec.arity = token.arity ctx.functions := by
  obtain ⟨op, hop⟩ := htoken.operator hkind
  by_cases hnegate : op = .negate
  · subst hnegate
    refine ⟨_, Operator.negate.spec, hop, ?_, ?_⟩
    · rw [htable]
      exact OperatorTable.find?_grouping (by decide)
    · simp [Token.arity, hkind, hop, Operator.spec]
  · obtain ⟨spec, hspec, harity, -⟩ := find?_grouping_binary grouping hnegate
    refine ⟨op, spec, hop, by rw [htable, hspec], ?_⟩
    simp [Token.arity, hkind, hop, hnegate, harity]

/-- A token that does not find the values it takes is reported. -/
theorem step_starved (htable : ctx.operators = .grouping grouping)
    (htoken : token.Ready ctx.functions)
    (hfew : stack.length < token.arity ctx.functions) :
    step ctx resolver token stack bindings
      = pure (.error (.at token.lack token.position ctx.source),
        bindings) := by
  cases hkind : token.kind with
  | number | identifier => simp [Token.arity, hkind] at hfew
  | function =>
      simp only [Token.arity, hkind] at hfew
      simp [step, hkind, applyFunction, hfew, Token.lack]
  | operator =>
      obtain ⟨op, spec, hop, hspec, harity⟩ := exists_spec htable hkind htoken
      rw [← harity] at hfew
      simp [step, hkind, applyOperator, hop, hspec, hfew, Token.lack]
  | leftParen | rightParen | comma => simp [Token.Ready, hkind] at htoken

end Steps

-- ================================================================= the runs

section Runs

variable {σ : Type} {ctx : Context} {grouping : Associativity}
variable {resolver : Resolver (StateM σ)} {tokens : List Token}
  {stack after : Stack}
variable {bindings bindings' : Bindings} {world world' : σ}

/-- A step takes the values that its token takes, and leaves one. -/
theorem length_of_step_usual {token : Token}
    (harities : ctx.operators.UsualArities)
    (h : (step ctx resolver token stack bindings).run world
      = ((.ok after, bindings'), world')) :
    (after.length : Int) = stack.length + (1 - token.arity ctx.functions) := by
  rw [length_of_step h]
  congr 1
  unfold step at h
  cases hkind : token.kind with
  | number | identifier | function => simp [Grammar.weight, Token.arity, hkind]
  | operator =>
      rw [hkind] at h
      obtain ⟨spec, hspec, -⟩ := length_of_applyOperator (congrArg (·.1.1) h)
      obtain ⟨op, hop, hfind⟩ := Option.bind_eq_some_iff.mp hspec
      simp only [Grammar.weight, Token.arity, hkind, hop, Option.bind_some,
        hfind, harities op spec hfind, Option.some.injEq]
      split <;> rfl
  | leftParen | rightParen | comma =>
      rw [hkind] at h
      cases h

/-- The stack of a run that meets no fault stays within the limit, and ends
with as many values as the tokens leave. -/
theorem within_of_run (harities : ctx.operators.UsualArities)
    (h : (run ctx resolver tokens stack bindings).run world
      = ((.ok after, bindings'), world')) :
    Within ctx.functions (ctx.limits.of .stackDepth) stack.length tokens
      ∧ (after.length : Int)
        = stack.length + surplus ctx.functions tokens := by
  induction tokens generalizing stack bindings world with
  | nil =>
      cases h
      simp [Within]
  | cons token rest ih =>
      obtain ⟨middle, between, world'', hstep, hdepth, hrest⟩ :=
        run_cons_eq_ok h
      obtain ⟨hwithin, hafter⟩ := ih hrest
      rw [length_of_step_usual harities hstep] at hwithin hafter hdepth
      refine ⟨⟨hdepth, hwithin⟩, ?_⟩
      rw [hafter, surplus_cons]
      omega

/-- A run that meets no fault supplies every token, and its stack stays
within the limit. -/
theorem supplied_of_run (htable : ctx.operators = .grouping grouping)
    (htokens : ∀ t ∈ tokens, t.Ready ctx.functions)
    (h : (run ctx resolver tokens stack bindings).run world
      = ((.ok after, bindings'), world')) :
    Supplied ctx.functions stack.length tokens
      ∧ Within ctx.functions (ctx.limits.of .stackDepth) stack.length tokens
      ∧ (after.length : Int)
        = stack.length + surplus ctx.functions tokens := by
  have harities : ctx.operators.UsualArities :=
    htable ▸ OperatorTable.usualArities_grouping grouping
  refine ⟨?_, within_of_run harities h⟩
  induction tokens generalizing stack bindings world with
  | nil => trivial
  | cons token rest ih =>
      obtain ⟨middle, between, world'', hstep, -, hrest⟩ := run_cons_eq_ok h
      have henough : token.arity ctx.functions ≤ stack.length := by
        by_contra hfew
        rw [step_starved htable (htokens token (by simp)) (by omega)] at hstep
        cases hstep
      have hsupplied := ih (fun t ht => htokens t (by simp [ht])) hrest
      rw [length_of_step_usual harities hstep] at hsupplied
      exact ⟨by omega, hsupplied⟩

theorem shallow_of_within (harities : ctx.operators.UsualArities)
    (h : Within ctx.functions (ctx.limits.of .stackDepth) stack.length
      tokens) :
    Shallow ctx resolver tokens stack bindings world := by
  induction tokens generalizing stack bindings world with
  | nil => trivial
  | cons token rest ih =>
      obtain ⟨hdepth, hrest⟩ := h
      rw [Shallow]
      split
      · next middle between world'' hstep =>
          rw [← length_of_step_usual harities hstep] at hdepth hrest
          exact ⟨hdepth, ih hrest⟩
      · trivial

end Runs

end Evaluation

-- ================================================================ the trees

namespace Expression

open Evaluation

variable {m : Type → Type} [Monad m] [LawfulMonad m] {ctx : Context}
variable {resolver : Resolver m} {grouping : Associativity}

/-- The tree is computed by its tokens as by its postfix form, in which
operator tokens carry nothing but their operator. -/
theorem working_tokensAll_of {es : List Expression}
    (h : ∀ e ∈ es, ∀ stack, working ctx resolver e.tokens stack
      = working ctx resolver e.postorder stack) (stack : Stack) :
    working ctx resolver (tokensAll es) stack
      = working ctx resolver (postorderAll es) stack := by
  induction es generalizing stack with
  | nil => rfl
  | cons e rest ih =>
      simp only [tokensAll, postorderAll, working_append, h e (by simp)]
      exact bind_congr fun stack => ih (fun e he => h e (by simp [he])) stack

private theorem Fits.working_tokens {functions : Registry} {e : Expression}
    (h : e.Fits functions) (stack : Stack) :
    working ctx resolver e.tokens stack
      = working ctx resolver e.postorder stack := by
  induction e generalizing stack with
  | number token => rfl
  | identifier token => rfl
  | negation minus body ih =>
      cases h with
      | negation hkind hop hbody =>
          simp only [tokens, postorder, working_append, ih hbody]
          refine bind_congr fun stack => ?_
          rw [working_singleton, working_singleton, stepping_operator hkind,
            stepping_operator rfl]
          simp [applyOperator, Token.negating, hop]
  | binary op token left right ihl ihr =>
      cases h with
      | binary hkind hop hbinary hleft hright =>
          have htoken : token.carrying op = token := by
            simp [Token.carrying, hop]
          simp only [tokens, postorder, working_append, ihl hleft, ihr hright,
            htoken]
  | call function arguments ih =>
      cases h with
      | call hkind hspec hcount harguments =>
          simp only [tokens, postorder, working_append]
          rw [working_tokensAll_of fun e he => ih e he (harguments e he)]

private theorem computesAll_of {es : List Expression}
    (h : ∀ e ∈ es, Computes ctx resolver e) :
    ComputesAll ctx resolver es := by
  induction es with
  | nil => exact .nil
  | cons e rest ih =>
      exact .cons (h e (by simp)) (ih fun e he => h e (by simp [he]))

/-- A tree that fits is computed by its postfix form. -/
theorem Fits.computes {e : Expression}
    (htable : ctx.operators = .grouping grouping)
    (h : e.Fits ctx.functions) : Computes ctx resolver e := by
  induction e with
  | number token =>
      cases h with
      | number hkind => exact .number hkind
  | identifier token =>
      cases h with
      | identifier hkind => exact .identifier hkind
  | negation minus body ih =>
      cases h with
      | negation hkind hop hbody => exact .negation htable minus (ih hbody)
  | binary op token left right ihl ihr =>
      cases h with
      | binary hkind hop hbinary hleft hright =>
          have hmeant : token.meant? = some op := by
            simp [Token.meant?, hkind, hop]
          exact .binary htable hmeant hbinary (ihl hleft) (ihr hright)
  | call function arguments ih =>
      cases h with
      | call hkind hspec hcount harguments =>
          exact .call hkind hspec hcount
            (computesAll_of fun e he => ih e he (harguments e he))

end Expression

open Evaluation Expression

-- =========================================================== the postorders

section Exactness

variable {σ : Type} {ctx : Context} {grouping : Associativity}
  {tokens : List Token}
variable {resolver : Resolver (StateM σ)} {bindings : Bindings} {world : σ}

/-- The postorder of a tree is evaluated as the tree is, unless the stack
grows too deep. -/
theorem evaluatePostfix_of_spells {e : Expression}
    (htable : ctx.orStandard.operators = .grouping grouping)
    (htokens : ∀ t ∈ tokens, t.Ready ctx.orStandard.functions)
    (h : Spells ctx.orStandard.functions e tokens)
    (hwithin : Within ctx.orStandard.functions (ctx.limits.of .stackDepth) 0
      tokens) :
    (evaluatePostfix ctx resolver tokens bindings).run world
      = ((e.evaluate ctx.orStandard resolver).start bindings).run world := by
  have hshallow : Shallow ctx.orStandard resolver tokens [] bindings world :=
    shallow_of_within (htable ▸ OperatorTable.usualArities_grouping grouping)
      hwithin
  obtain ⟨hfits, rfl⟩ := h
  rw [evaluatePostfix, runWorld_bind, run_eq_working hshallow,
    hfits.working_tokens, hfits.computes htable [], start_bind, runWorld_bind]
  generalize ((e.evaluate ctx.orStandard resolver).start bindings).run world
    = after
  obtain ⟨⟨outcome, bindings⟩, world⟩ := after
  cases outcome <;> rfl

/-- Tokens that give a value are the postorder of a tree, and the stack
does not grow too deep. -/
theorem exists_spells_of_evaluatePostfix {x : Float} {bindings' : Bindings}
    {world' : σ} (htable : ctx.orStandard.operators = .grouping grouping)
    (htokens : ∀ t ∈ tokens, t.Ready ctx.orStandard.functions)
    (h : (evaluatePostfix ctx resolver tokens bindings).run world
      = ((.ok x, bindings'), world')) :
    (∃ e, Spells ctx.orStandard.functions e tokens)
      ∧ Within ctx.orStandard.functions (ctx.limits.of .stackDepth) 0
        tokens := by
  rw [evaluatePostfix, runWorld_bind] at h
  generalize hrun : (run ctx.orStandard resolver tokens [] bindings).run world
    = after at h
  obtain ⟨⟨outcome, bindings''⟩, world''⟩ := after
  cases outcome with
  | error failure => cases h
  | ok stack =>
      obtain ⟨hsupplied, hwithin, hlength⟩ :=
        supplied_of_run htable htokens hrun
      refine ⟨(exists_spells_iff htokens).mpr ⟨hsupplied, ?_⟩, hwithin⟩
      have hresult : result ctx.orStandard stack = .ok x := congrArg (·.1.1) h
      unfold result at hresult
      split at hresult
      · simpa using hlength.symm
      · cases hresult

-- ================================================================ the others

/-- A run that comes to a token which is not supplied ends there. -/
theorem evaluatePostfix_starved {before after : List Token} {token : Token}
    {stack : Stack} {bindings' : Bindings} {world' : σ}
    (htable : ctx.orStandard.operators = .grouping grouping)
    (htokens : ∀ t ∈ before ++ token :: after,
      t.Ready ctx.orStandard.functions)
    (hstarved : surplus ctx.orStandard.functions before
      < token.arity ctx.orStandard.functions)
    (h : (run ctx.orStandard resolver before [] bindings).run world
      = ((.ok stack, bindings'), world')) :
    (evaluatePostfix ctx resolver (before ++ token :: after)
      bindings).run world
      = ((.error (.at token.lack token.position ctx.source), bindings'),
        world') := by
  obtain ⟨-, -, hlength⟩ :=
    supplied_of_run htable (fun t ht => htokens t (by simp [ht])) h
  simp only [List.length_nil, Int.natCast_zero, Int.zero_add] at hlength
  have hfew : stack.length < token.arity ctx.orStandard.functions := by omega
  rw [evaluatePostfix, runWorld_bind, run_append, runWorld_bind, h]
  dsimp only
  rw [run, step_starved htable (htokens token (by simp)) hfew]
  rfl

/-- A run that meets no fault but leaves no value, or several, fails for
that. -/
theorem evaluatePostfix_left {stack : Stack} {bindings' : Bindings}
    {world' : σ} (htable : ctx.orStandard.operators = .grouping grouping)
    (htokens : ∀ t ∈ tokens, t.Ready ctx.orStandard.functions)
    (hleft : surplus ctx.orStandard.functions tokens ≠ 1)
    (h : (run ctx.orStandard resolver tokens [] bindings).run world
      = ((.ok stack, bindings'), world')) :
    ∃ count : Nat, (count : Int) = surplus ctx.orStandard.functions tokens
      ∧ (evaluatePostfix ctx resolver tokens bindings).run world
        = ((.error (.diagnosed ⟨.valuesLeft count, none, some ctx.source⟩),
          bindings'), world') := by
  obtain ⟨-, -, hlength⟩ := supplied_of_run htable htokens h
  simp only [List.length_nil, Int.natCast_zero, Int.zero_add] at hlength
  refine ⟨stack.length, hlength, ?_⟩
  rw [evaluatePostfix, runWorld_bind, h]
  cases stack with
  | nil => rfl
  | cons x rest =>
      cases rest with
      | nil => exact absurd hlength.symm hleft
      | cons y rest => rfl

end Exactness

-- ================================================================= the result

/-- The evaluation accepts exactly the postorders of trees. It gives a value
if and only if the tokens are the postorder of a tree whose evaluation gives
that value, with the same effects, and the stack never grows too deep; the
tree is the only one. If the tokens are no postorder and nothing else fails
before, then it fails at the first token that takes more values than there
are or, if there is none, for the number of values that are left. -/
theorem evaluatePostfix_exact {σ : Type} {ctx : Context}
    {grouping : Associativity} {tokens : List Token}
    (htable : ctx.orStandard.operators = .grouping grouping)
    (htokens : ∀ t ∈ tokens, t.Ready ctx.functions.orBuiltin)
    (resolver : Resolver (StateM σ)) (bindings : Bindings) (world : σ) :
    let functions := ctx.functions.orBuiltin
    let outcome := (evaluatePostfix ctx resolver tokens bindings).run world
    (∀ x bindings' world', outcome = ((.ok x, bindings'), world')
      ↔ ∃ e, Spells functions e tokens
        ∧ Within functions (ctx.limits.of .stackDepth) 0 tokens
        ∧ ((e.evaluate ctx.orStandard resolver).start bindings).run world
          = ((.ok x, bindings'), world'))
    ∧ (∀ e e', Spells functions e tokens → Spells functions e' tokens → e = e')
    ∧ ((¬ ∃ e, Spells functions e tokens) →
      (∃ before token after, tokens = before ++ token :: after
        ∧ Supplied functions 0 before
        ∧ surplus functions before < token.arity functions
        ∧ ∀ stack bindings' world',
          (Evaluation.run ctx.orStandard resolver before [] bindings).run world
              = ((.ok stack, bindings'), world') →
          outcome = ((.error (.at token.lack token.position ctx.source),
            bindings'), world'))
      ∨ Supplied functions 0 tokens ∧ ∀ stack bindings' world',
          (Evaluation.run ctx.orStandard resolver tokens [] bindings).run world
              = ((.ok stack, bindings'), world') →
          ∃ count : Nat, (count : Int) = surplus functions tokens
            ∧ outcome
              = ((.error (.diagnosed
                ⟨.valuesLeft count, none, some ctx.source⟩),
              bindings'), world')) := by
  intro functions outcome
  refine ⟨fun x bindings' world' => ⟨fun h => ?_, ?_⟩, fun e e' h h' =>
    h.unique h', ?_⟩
  · obtain ⟨⟨e, hspells⟩, hwithin⟩ :=
      exists_spells_of_evaluatePostfix htable htokens h
    refine ⟨e, hspells, hwithin, ?_⟩
    rw [← evaluatePostfix_of_spells htable htokens hspells hwithin]
    exact h
  · rintro ⟨e, hspells, hwithin, h⟩
    exact (evaluatePostfix_of_spells htable htokens hspells hwithin).trans h
  · intro hnone
    -- no tree: some token lacks values, or too many are left at the end
    rcases supplied_or_starved functions tokens with
      hsupplied | ⟨before, token, after, rfl, hbefore, hstarved⟩
    · refine Or.inr ⟨hsupplied, fun stack bindings' world' hrun => ?_⟩
      refine evaluatePostfix_left htable htokens (fun hone => ?_) hrun
      exact hnone ((exists_spells_iff htokens).mpr ⟨hsupplied, hone⟩)
    · exact Or.inl ⟨before, token, after, rfl, hbefore, hstarved,
        fun stack bindings' world' =>
          evaluatePostfix_starved htable htokens hstarved⟩

/-- `pi x second`, with functions of no argument and of two, is the
postorder of `second(pi(), x)` and of nothing else. -/
theorem evaluatePostfix_exact_two_calls :
    let functions : Registry := ⟨[("pi", ⟨0, fun _ => .ok 3⟩),
      ("second", ⟨2, .binary fun _ y => y⟩)]⟩
    let ctx : Context := ⟨⟨.standard, functions, ""⟩, {}⟩
    let bindings : Bindings := ⟨[("x", 7)]⟩
    let resolver : Resolver (StateM Unit) :=
      ⟨fun _ world => (.ok .none, world)⟩
    let pi : Token := ⟨.function, "pi", 0, none, none⟩
    let x : Token := ⟨.identifier, "x", 3, none, none⟩
    let second : Token := ⟨.function, "second", 5, none, none⟩
    let e : Expression := .call second [.call pi [], .identifier x]
    (evaluatePostfix ctx resolver [pi, x, second] bindings).run ()
      = ((.ok 7, bindings), ())
      ∧ ∀ e', Spells functions e' [pi, x, second] → e' = e := by
  intro functions ctx bindings resolver pi x second e
  have hready : ∀ t ∈ [pi, x, second], t.Ready ctx.functions.orBuiltin := by
    simp only [List.mem_cons, List.not_mem_nil, or_false]
    rintro t (rfl | rfl | rfl)
    · exact (by decide : functions.contains "pi" = true)
    · trivial
    · exact (by decide : functions.contains "second" = true)
  have htable : ctx.orStandard.operators = .grouping .left :=
    OperatorTable.grouping_left.symm
  obtain ⟨hvalue, hunique, -⟩ :=
    evaluatePostfix_exact htable hready resolver bindings ()
  have hspells : Spells functions e [pi, x, second] := by
    have hsecond :
        functions.find? "second" = some ⟨2, .binary fun _ y => y⟩ := rfl
    have hpi : functions.find? "pi" = some ⟨0, fun _ => .ok 3⟩ := rfl
    refine ⟨.call rfl hsecond rfl ?_, rfl⟩
    simp only [List.mem_cons, List.not_mem_nil, or_false]
    rintro part (rfl | rfl)
    · exact .call rfl hpi rfl (by simp)
    · exact .identifier rfl
  refine ⟨(hvalue _ _ _).mpr ⟨e, hspells, ?_, rfl⟩, fun e' h =>
    hunique e' e h hspells⟩
  decide

end Reckoner

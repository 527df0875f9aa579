/-
Calculation where `^` groups the other way.

The setting is read when a text is converted, and never again: an
evaluation asks the table for the arities and the routines of its
operators, and these are the same however `^` groups
(`evaluatePostfix_grouped`). So the setting makes a difference to texts in
which a `^` comes after a `^` of its level, and to no other
(`evaluate_under_either_grouping`): neither to the value or the failure nor
to the bindings or what is asked of the resolver.
-/
import Reckoner.Proofs.Calculator.Leniency
import Reckoner.Proofs.Postfix.Regrouping

namespace Reckoner

/-- A context with the standard operators, but with `^` grouping as given. -/
def Context.grouped (ctx : Context) (grouping : Associativity) : Context :=
  { ctx with toGrammar := ctx.toGrammar.grouped grouping }

namespace Evaluation

variable {m : Type → Type} [Monad m] (ctx : Context)
  (grouping other : Associativity)

-- ============================================================ the evaluation

/-- An operator is applied by its arity and its routine. -/
theorem applyOperator_grouped (token : Token) (stack : Stack) :
    applyOperator (ctx.grouped grouping) token stack
      = applyOperator (ctx.grouped other) token stack := by
  unfold applyOperator
  cases token.operator with
  | none => rfl
  | some op => cases op <;> rfl

theorem step_grouped (resolver : Resolver m) (token : Token) (stack : Stack)
    (bindings : Bindings) :
    step (ctx.grouped grouping) resolver token stack bindings
      = step (ctx.grouped other) resolver token stack bindings := by
  unfold step
  cases token.kind with
  | operator =>
      dsimp only
      rw [applyOperator_grouped ctx grouping other]
  | _ => rfl

private theorem run_grouped (resolver : Resolver m) (tokens : List Token)
    (stack : Stack) (bindings : Bindings) :
    run (ctx.grouped grouping) resolver tokens stack bindings
      = run (ctx.grouped other) resolver tokens stack bindings := by
  induction tokens generalizing stack bindings with
  | nil => rfl
  | cons token rest ih =>
      rw [run, run, step_grouped ctx grouping other]
      congr 1
      funext after
      dsimp only
      have hdepth : checkDepth (ctx.grouped grouping) token
          = checkDepth (ctx.grouped other) token := rfl
      rw [hdepth]
      cases after.1.bind (checkDepth (ctx.grouped other) token) with
      | error failure => rfl
      | ok stack' => exact ih stack' after.2

/-- Postfix tokens have the same value however `^` groups. -/
theorem evaluatePostfix_grouped (resolver : Resolver m) (tokens : List Token)
    (bindings : Bindings) :
    evaluatePostfix (ctx.grouped grouping) resolver tokens bindings
      = evaluatePostfix (ctx.grouped other) resolver tokens bindings := by
  have hstandard : ∀ a,
    (ctx.grouped a).orStandard = ctx.orStandard.grouped a := fun a => rfl
  unfold evaluatePostfix
  dsimp only
  rw [hstandard, hstandard, run_grouped ctx.orStandard grouping other]
  rfl

end Evaluation

open Evaluation

-- ========================================================== the calculators

namespace Calculator

variable {σ : Type}

/-- A calculator with `^` grouping as given. -/
def grouped (c : Calculator) (grouping : Associativity) : Calculator :=
  { c with settings := { c.settings with powerAssociativity := grouping } }

/-- A text is scanned without regard to the grouping, and its tokens are
converted alike if none of them chains powers. -/
theorem toPostfix_grouped (c : Calculator) (grouping other : Associativity)
    {text : String}
    (h : ∀ tokens, Token.scan c.functions c.settings.limits text = .ok tokens →
      ¬ ChainsPowers tokens) :
    (c.grouped grouping).toPostfix text
      = (c.grouped other).toPostfix text := by
  have hscan : ∀ a,
      Token.scan (c.grouped a).functions (c.grouped a).settings.limits text
      = Token.scan c.functions c.settings.limits text := fun a => rfl
  have hcontext : ∀ a, ((c.grouped a).context text).toGrammar
      = (c.context text).toGrammar.grouped a := fun a => rfl
  unfold toPostfix
  simp only [hscan, hcontext]
  cases hresult : Token.scan c.functions c.settings.limits text with
  | error d => rfl
  | ok tokens =>
      exact Reckoner.toPostfix_grouped _ grouping other (h tokens hresult)

/-- Tokens in which no `^` comes where the latest token of its level is a
`^` are converted under the standard table as they are where `^` groups from
the right: to the same postfix form or the same failure. So a calculation of
a text with such tokens comes to the same under both settings, and so does
one of a text that does not scan. -/
theorem evaluate_under_either_grouping :
    (∀ (functions : Registry) (source : String) (tokens : List Token),
      ¬ ChainsPowers tokens →
        Reckoner.toPostfix ⟨.grouping .right, functions, source⟩ tokens
          = Reckoner.toPostfix ⟨.standard, functions, source⟩ tokens)
    ∧ ∀ (c : Calculator) (resolver : Resolver (StateM σ)) (text : String)
      (world : σ),
      (∀ tokens, Token.scan c.functions c.settings.limits text = .ok tokens →
        ¬ ChainsPowers tokens) →
      SameSight (((c.grouped .left).evaluate resolver text).run world)
        (((c.grouped .right).evaluate resolver text).run world) := by
  refine ⟨fun functions source tokens h =>
    ?_, fun c resolver text world h => ?_⟩
  · rw [← OperatorTable.grouping_left]
    exact Reckoner.toPostfix_grouped ⟨.standard, functions, source⟩ .right
      .left h
  · have hforms := c.toPostfix_grouped .right .left h
    unfold evaluate
    rw [hforms]
    cases (c.grouped .left).toPostfix text with
    | error failure => exact ⟨rfl, rfl, rfl⟩
    | ok tokens =>
        have hvalue :
              evaluatePostfix ((c.grouped .right).context text) resolver tokens
              (c.grouped .right).bindings
            = evaluatePostfix ((c.grouped .left).context text) resolver tokens
              (c.grouped .left).bindings :=
          evaluatePostfix_grouped (c.context text) .right .left resolver tokens
            c.bindings
        dsimp only
        rw [runWorld_bind, runWorld_bind, hvalue]
        exact ⟨rfl, rfl, rfl⟩

/-- In `2^-x^(3^y)` a sign stands between the first two powers and the third
has a parenthesis of its own. The questions for `x` and `y` are part of what
is the same. -/
theorem evaluate_under_either_grouping_sign_and_paren :
    let resolver : Resolver (StateM (List String)) := ⟨fun name asked =>
      (.ok (.int (asked.length + 1)), asked ++ [name])⟩
    let c : Calculator := {}
    let text := "2^-x^(3^y)"
    let tokens : List Token := [⟨.number, "2", 0, some 2.0, none⟩,
      ⟨.operator, "^", 1, none, some .power⟩,
      ⟨.operator, "-", 2, none, some .subtract⟩,
      ⟨.identifier, "x", 3, none, none⟩,
      ⟨.operator, "^", 4, none, some .power⟩, ⟨.leftParen, "(", 5, none, none⟩,
      ⟨.number, "3", 6, some 3.0, none⟩,
      ⟨.operator, "^", 7, none, some .power⟩,
      ⟨.identifier, "y", 8, none, none⟩, ⟨.rightParen, ")", 9, none, none⟩]
    Token.scan c.functions c.settings.limits text = .ok tokens
      ∧ ¬ ChainsPowers tokens
      ∧ Reckoner.toPostfix ⟨.grouping .right, c.functions, text⟩ tokens
        = Reckoner.toPostfix ⟨.standard, c.functions, text⟩ tokens
      ∧ SameSight (((c.grouped .left).evaluate resolver text).run [])
        (((c.grouped .right).evaluate resolver text).run []) := by
  intro resolver c text tokens
  have hscan : Token.scan c.functions c.settings.limits text = .ok tokens :=
    eq_ok_of_toOption (by decide +kernel)
  have hplaces :
      ∀ n < tokens.length, ∀ token ∈ tokens[n]?, token.meant? = some .power →
      n = 1 ∨ n = 4 ∨ n = 7 := by decide +kernel
  have hsign :
      Latest (tokens.take 4) (tokens.take 2)
        ⟨.operator, "-", 2, none, some .subtract⟩
      [⟨.identifier, "x", 3, none, none⟩] :=
    ⟨rfl, .inl rfl, .single .nil (.inr (.inl rfl))⟩
  have hparen :
      Latest (tokens.take 7) (tokens.take 5) ⟨.leftParen, "(", 5, none, none⟩
      [⟨.number, "3", 6, some 3.0, none⟩] :=
    ⟨rfl, .inr (.inr rfl), .single .nil (.inl rfl)⟩
  have hchain : ¬ ChainsPowers tokens := by
    rintro ⟨before, token, after, heq, hpower, earlier, power, between,
      hlatest, hchained⟩
    have hlength : before.length < tokens.length := by simp [heq]
    have htoken : tokens[before.length]? = some token := by simp [heq]
    have hbefore : before = tokens.take before.length := by simp [heq]
    rcases hplaces before.length hlength token htoken hpower with hn | hn | hn
    · rw [hn] at hbefore
      have hmem : power ∈ before := by simp [hlatest.eq]
      rw [hbefore] at hmem
      obtain rfl := List.mem_singleton.mp hmem
      cases hchained
    · rw [hbefore, hn] at hlatest
      obtain ⟨-, rfl⟩ := hlatest.unique hsign
      cases hchained
    · rw [hbefore, hn] at hlatest
      obtain ⟨-, rfl⟩ := hlatest.unique hparen
      cases hchained
  obtain ⟨hforms, hevaluate⟩ :=
    evaluate_under_either_grouping (σ := List String)
  refine ⟨hscan, hchain, hforms _ _ _ hchain, hevaluate c resolver text [] ?_⟩
  rintro tokens' htokens'
  rw [hscan] at htokens'
  cases htokens'
  exact hchain

end Calculator

end Reckoner

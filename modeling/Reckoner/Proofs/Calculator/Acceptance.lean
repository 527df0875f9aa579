/-
Which texts a calculator gives a value for.

All that are accepted weigh one, and what weighs one is an expression
unless an operand stands next to an operand or a comma outside a call
(`level_of_total`); expressions have neither. So among the accepted texts
the expressions are exactly those that keep operands apart and commas in
calls (`level_iff_of_evaluate`). The calculator itself asks for neither:
it gives a value for `2sin()`, where the function takes the number that
stands before it.
-/
import Reckoner.Proofs.Calculator.Meaning
import Reckoner.Proofs.Postfix.Balance
import Reckoner.Proofs.Token.Filled

namespace Reckoner

open Token

-- ======================================================== the scanned tokens

/-- No lexeme is a unary minus: that is for the converter to find out. -/
theorem Lexeme.meant?_ne_negate {registry : Registry} {source : String}
    {lexeme : Lexeme} {token : Token}
    (h : lexeme.token registry source = .ok token) :
    token.meant? ≠ some .negate := by
  unfold Lexeme.token at h
  dsimp only at h
  cases hop : Operator.ofSymbol? lexeme.first.char with
  | some op =>
      simp only [hop] at h
      cases h
      simpa [meant?] using (Operator.ofSymbol?_eq_some_iff.mp hop).1
  | none =>
      cases hkind : TokenKind.ofDelimiter? lexeme.first.char with
      | some kind =>
          simp only [hop, hkind] at h
          cases h
          have hne : kind ≠ .operator := by
            rintro rfl
            unfold TokenKind.ofDelimiter? at hkind
            split at hkind <;> cases hkind
          simp [meant?, hne]
      | none =>
          simp only [hop, hkind] at h
          split at h
          · split at h
            · cases h
              simp [meant?]
            · cases h
          · split at h
            · cases h
              split <;> simp [meant?]
            · cases h

private theorem Token.meant?_of_scan {registry : Registry} {limits : Limits}
    {text : String}
    {tokens : List Token} (h : scan registry limits text = .ok tokens) :
    ∀ token ∈ tokens, token.meant? ≠ some .negate := by
  have hlands :
      Lands (fun _ => True) (∀ token ∈ ·, token.meant? ≠ some .negate)
      (scan registry limits text) :=
    lands_scan (fun _ => lands_of_ok fun _ => Lexeme.meant?_ne_negate)
      fun _ _ _ => lands_of_ok fun _ _ => trivial
  rwa [h] at hlands

-- ======================================================== the accepted texts

namespace Calculator

variable {σ : Type}

/-- What gives a value has a postfix form, and that weighs one. -/
theorem total_of_evaluate {c c' : Calculator} {resolver : Resolver (StateM σ)}
    {text : String} {world world' : σ} {x : Float}
    (h : (c.evaluate resolver text).run world = ((.ok x, c'), world')) :
    ∃ output, c.toPostfix text = .ok output
      ∧ (c.context text).orStandard.total output = 1 := by
  unfold evaluate at h
  split at h
  · cases h
  · next output houtput =>
      refine ⟨output, houtput, ?_⟩
      rw [runWorld_bind] at h
      generalize hrun : (evaluatePostfix (c.context text) resolver output
        c.bindings).run
        world = after at h
      obtain ⟨⟨outcome, bindings⟩, after⟩ := after
      obtain rfl : outcome = .ok x := congrArg (·.1.1) h
      exact Evaluation.total_of_result hrun

/-- A text for which a calculator gives a value is an expression of the
infix grammar exactly if no operand stands directly before another and
every comma stands in the parentheses of a call. -/
theorem level_iff_of_evaluate {c c' : Calculator}
    {resolver : Resolver (StateM σ)} {text : String} {world world' : σ}
    {x : Float} {tokens : List Token}
    (hscan : Token.scan c.functions c.settings.limits text = .ok tokens)
    (h : (c.evaluate resolver text).run world = ((.ok x, c'), world')) :
    Infix c.settings.operators c.functions.orBuiltin .level tokens
      ↔ operandsApart false tokens = true
        ∧ commasInCalls [] false tokens = true := by
  refine ⟨fun hlevel => ⟨hlevel.operandsApart_eq, hlevel.commasInCalls_eq⟩, ?_⟩
  rintro ⟨hapart, hcommas⟩
  obtain ⟨output, houtput, htotal⟩ := total_of_evaluate h
  have htable : (c.context text).toGrammar.orStandard.operators
      = .grouping c.settings.powerAssociativity := orStandard_grouping
  rw [toPostfix, hscan] at houtput
  have hlevel := level_of_total htable (meant?_of_scan hscan) hapart hcommas
    houtput htotal
  rw [htable] at hlevel
  exact hlevel

/-- With `a` and `b` bound and a function of two arguments, `f(a,b)` is
accepted. -/
theorem level_iff_of_evaluate_call :
    let c : Calculator := ⟨{}, ⟨[("f", ⟨2, .binary (· - ·)⟩)]⟩,
      ⟨[("a", 1.0), ("b", 2.0)]⟩⟩
    let resolver : Resolver (StateM Unit) := .ofMap .empty
    let tokens : List Token := [⟨.function, "f", 0, none, none⟩,
      ⟨.leftParen, "(", 1, none, none⟩, ⟨.identifier, "a", 2, none, none⟩,
      ⟨.comma, ",", 3, none, none⟩, ⟨.identifier, "b", 4, none, none⟩,
      ⟨.rightParen, ")", 5, none, none⟩]
    Token.scan c.functions c.settings.limits "f(a,b)" = .ok tokens
      ∧ (c.evaluate resolver "f(a,b)").run () = ((.ok (1.0 - 2.0), c), ())
      ∧ (Infix c.settings.operators c.functions.orBuiltin .level tokens
        ↔ operandsApart false tokens = true
          ∧ commasInCalls [] false tokens = true) := by
  intro c resolver tokens
  have hscan :
      Token.scan c.functions c.settings.limits "f(a,b)" = .ok tokens :=
    eq_ok_of_toOption (by decide +kernel)
  have hrun : (c.evaluate resolver "f(a,b)").run ()
      = ((.ok (1.0 - 2.0), c), ()) := by
    rw [evaluate, toPostfix, hscan]
    rfl
  exact ⟨hscan, hrun, level_iff_of_evaluate hscan hrun⟩

/-- The function of `2sin()` takes the number before it: a value is given
for what is no expression. -/
theorem evaluate_juxtaposed_call :
    let c : Calculator := {}
    let resolver : Resolver (StateM Unit) := .ofMap .empty
    ∃ tokens x, Token.scan c.functions c.settings.limits "2sin()" = .ok tokens
      ∧ (c.evaluate resolver "2sin()").run () = ((.ok x, c), ())
      ∧ ¬ Infix c.settings.operators c.functions.orBuiltin .level tokens := by
  intro c resolver
  have hscan : Token.scan c.functions c.settings.limits "2sin()"
      = .ok [⟨.number, "2", 0, some 2.0, none⟩,
        ⟨.function, "sin", 1, none, none⟩, ⟨.leftParen, "(", 4, none, none⟩,
        ⟨.rightParen, ")", 5, none, none⟩] :=
    eq_ok_of_toOption (by decide +kernel)
  refine ⟨_, Float.sin 2.0, hscan, ?_, fun hlevel => ?_⟩
  · rw [evaluate, toPostfix, hscan]
    rfl
  · exact absurd hlevel.operandsApart_eq (by decide)

end Calculator

end Reckoner

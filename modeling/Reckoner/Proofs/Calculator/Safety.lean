/-
What can go wrong with a text.

The stages of a calculation agree on what a token is: the scanner makes
tokens that lack nothing, the converter passes on what is ready for the
evaluation, and both read the same registry and the same table. So the
checks that the stages make of one another never fail. Whatever the text,
a calculation ends with a value or with one of the faults that a text can
have (`evaluate_foreseen`).
-/
import Reckoner.Proofs.Evaluation.Soundness
import Reckoner.Proofs.Postfix.Soundness

namespace Reckoner

-- ========================================================== the resolvers

/-- A map of floats knows their variables and reports any other. -/
theorem Resolver.forthright_ofMap {σ : Type} {values : NameMap Value}
    (h : ∀ name value, values.find? name = some value →
      ∃ x, value = .float x) :
    (ofMap values : Resolver (StateM σ)).Forthright := by
  intro name world
  cases hfind : values.find? name with
  | some value =>
      obtain ⟨x, rfl⟩ := h name value hfind
      refine Or.inl ⟨x, ?_⟩
      simp only [ofMap, hfind]
      rfl
  | none =>
      refine Or.inr ⟨⟨.unknownVariable name, none, none⟩, ?_, rfl, rfl⟩
      simp only [ofMap, hfind]
      rfl

namespace Calculator

-- ============================================================= the stages

/-- The postfix form of a text consists of tokens that are ready, unless the
text has a foreseen fault. -/
theorem lands_toPostfix (c : Calculator) (text : String) :
    Lands Failure.IsForeseen (∀ token ∈ ·, token.Ready c.functions.orBuiltin)
      (c.toPostfix text) := by
  have hscan := lands_scan_filled c.functions c.settings.limits text
  unfold toPostfix
  generalize Token.scan c.functions c.settings.limits text = scanned at hscan
  cases scanned with
  | error d => exact hscan
  | ok tokens =>
      have hall : ∀ op,
          (c.context text).operators.orStandard.contains op = true := by
        intro op
        show (OperatorTable.grouping
          c.settings.powerAssociativity).orStandard.contains op
          = true
        rw [orStandard_grouping]
        exact contains_grouping op
      exact Reckoner.lands_toPostfix hall hscan

private theorem lands_evaluate {σ : Type} (c : Calculator)
    {resolver : Resolver (StateM σ)} (htotal : c.functions.Total)
    (hforthright : resolver.Forthright)
    (text : String) (world : σ) :
    Lands Failure.IsForeseen (fun _ => True)
      ((c.evaluate resolver text).run world).1.1 := by
  have hform := c.lands_toPostfix text
  unfold evaluate
  generalize c.toPostfix text = form at hform
  cases form with
  | error failure => exact hform
  | ok tokens =>
      exact Evaluation.lands_evaluatePostfix (c.context text)
        orStandard_grouping htotal
        hforthright hform c.bindings world

/-- What is asked for a verdict gets one. -/
theorem exists_verdict {σ : Type} (c : Calculator)
    {resolver : Resolver (StateM σ)} (htotal : c.functions.Total)
    (hforthright : resolver.Forthright)
    (text : String) (world : σ) :
    ∃ outcome, ((c.tryEvaluate resolver text).run world).1.1
      = .ok outcome := by
  have hlands := c.lands_evaluate htotal hforthright text world
  have hverdict : ((c.tryEvaluate resolver text).run world).1.1
      = verdict text ((c.evaluate resolver text).run world).1.1 := rfl
  rw [hverdict]
  cases houtcome : ((c.evaluate resolver text).run world).1.1 with
  | ok x => exact ⟨.ok x, rfl⟩
  | error failure =>
      rw [houtcome] at hlands
      cases failure with
      | broken breakdown => exact hlands.elim
      | diagnosed d => exact ⟨.error (d.orExpression text), rfl⟩

-- ============================================================= the result

/-- Every text has a value or one of the faults that a text can have. No
fault is found by a check that the stages make of one another, and none is
a breakdown. -/
theorem evaluate_foreseen {σ : Type} (c : Calculator)
    (resolver : Resolver (StateM σ)) (htotal : c.functions.Total)
    (hforthright : resolver.Forthright)
    (text : String) (world : σ) :
    (∃ x, ((c.evaluate resolver text).run world).1.1 = .ok x)
      ∨ ∃ d, ((c.evaluate resolver text).run world).1.1 = .error (.diagnosed d)
        ∧ (d.fault.stage, d.fault.kind) ∈ Fault.foreseenKinds
        ∧ ∀ name expected got, d.fault ≠ .wrongArity name expected got := by
  have hlands := c.lands_evaluate htotal hforthright text world
  cases houtcome : ((c.evaluate resolver text).run world).1.1 with
  | ok x => exact Or.inl ⟨x, rfl⟩
  | error failure =>
      rw [houtcome] at hlands
      cases failure with
      | broken breakdown => exact hlands.elim
      | diagnosed d =>
          refine Or.inr ⟨d, rfl, Fault.mem_foreseenKinds hlands, ?_⟩
          intro name expected got hwrong
          have hforeseen : d.fault.isForeseen = true := hlands
          rw [hwrong] at hforeseen
          cases hforeseen

/-- A calculator that knows a mean of two and no other function, with one
variable to be had. What stands for the second argument is a fault of the
text and not of the call. -/
theorem evaluate_foreseen_stray_comma :
    let c : Calculator :=
      { functions := ⟨[("mean", ⟨2, .binary fun x y => (x + y) / 2⟩)]⟩ }
    let resolver : Resolver (StateM Unit) := .ofMap ⟨[("x", .float 1.5)]⟩
    c.functions.Total ∧ resolver.Forthright
      ∧ ((∃ x, ((c.evaluate resolver "mean(x,)^-y").run ()).1.1 = .ok x)
        ∨ ∃ d, ((c.evaluate resolver "mean(x,)^-y").run ()).1.1
          = .error (.diagnosed d)
          ∧ (d.fault.stage, d.fault.kind) ∈ Fault.foreseenKinds
          ∧ ∀ name expected got, d.fault ≠ .wrongArity name expected got) := by
  intro c resolver
  have htotal : c.functions.Total := by
    intro name spec hspec args hargs
    cases List.mem_singleton.mp (NameMap.mem_entries_of_find? hspec)
    match args, hargs with
    | [x, y], _ => exact ⟨(x + y) / 2, rfl⟩
  have hforthright : resolver.Forthright :=
    Resolver.forthright_ofMap fun name value hvalue => by
      cases List.mem_singleton.mp (NameMap.mem_entries_of_find? hvalue)
      exact ⟨1.5, rfl⟩
  exact ⟨htotal, hforthright,
    evaluate_foreseen c resolver htotal hforthright _ ()⟩

end Calculator

end Reckoner

/-
The evaluation of tokens that are ready.

A ready token gives the machine something to do: an operator that the
table has, a function that the registry has, a number. So with a table
that groups `^` one way or the other, functions that give a value for as
many arguments as they take (`Registry.Total`) and a resolver that answers
with floats or reports an unresolved variable (`Resolver.Forthright`), the
only ways in which a step can fail are the foreseen ones: values are
missing, a divisor is zero, a variable has no value, the stack grows too
deep. Nothing is assumed of the stack or of the bindings, so runs need no
invariant.
-/
import Reckoner.Proofs.Evaluation.Growth
import Reckoner.Proofs.Infix.Derivation
import Reckoner.Proofs.Token.Filled

namespace Reckoner

-- ======================================================== the assumptions

/-- Every function gives a value for as many arguments as it takes. -/
def Registry.Total (registry : Registry) : Prop :=
  ∀ name spec, registry.find? name = some spec →
    ∀ args : List Float, args.length = spec.arity →
      ∃ x, spec.routine args = .ok x

theorem Registry.total_builtin : builtin.Total := by
  intro name spec hspec args hargs
  have hmem : ∃ key f,
      (key, (⟨1, .unary f⟩ : FunctionSpec)) = (name, spec) := by
    have hentry := NameMap.mem_entries_of_find? hspec
    simp only [builtin, List.mem_cons, List.not_mem_nil, or_false] at hentry
    rcases hentry with h | h | h | h | h <;> exact ⟨_, _, h.symm⟩
  obtain ⟨key, f, hentry⟩ := hmem
  cases hentry
  obtain ⟨x, rfl⟩ := List.length_eq_one_iff.mp hargs
  exact ⟨f x, rfl⟩

theorem Registry.Total.orBuiltin {registry : Registry} (h : registry.Total) :
    registry.orBuiltin.Total := by
  unfold Registry.orBuiltin
  split
  · exact total_builtin
  · exact h

/-- A resolver answers every name with a float or reports that the variable
is unresolved. -/
def Resolver.Forthright {σ : Type} (resolver : Resolver (StateM σ)) : Prop :=
  ∀ name world,
    (∃ x, ((resolver.ask name).run world).1 = .ok (.float x))
      ∨ ∃ d, ((resolver.ask name).run world).1 = .error (.diagnosed d)
        ∧ d.fault.stage = .evaluation ∧ d.fault.kind = .unresolvedVariable

namespace Evaluation

variable {σ : Type} {ctx : Context} {resolver : Resolver (StateM σ)}
variable {grouping : Associativity} {token : Token}

-- ======================================================= the applications

/-- A function that is known finds its arguments, or lacks some, which is
foreseen. -/
theorem lands_applyFunction (htotal : ctx.functions.Total)
    (hknown : ctx.functions.contains token.text = true) (stack : Stack) :
    Lands Failure.IsForeseen (fun _ => True)
      (applyFunction ctx token stack) := by
  obtain ⟨spec, hspec⟩ := NameMap.contains_eq_true_iff.mp hknown
  have harity : arityOf ctx.functions token.text = spec.arity := by
    rw [arityOf, hspec]
  simp only [applyFunction, harity]
  split
  · exact rfl
  · next hlength =>
      have hargs : (stack.take spec.arity).reverse.length = spec.arity := by
        rw [List.length_reverse, List.length_take]
        omega
      obtain ⟨x, hx⟩ := htotal _ _ hspec _ hargs
      rw [Registry.call_eq_routine hspec hargs, hx]
      trivial

/-- The only operands that a binary operator refuses are those of a
division by zero. -/
theorem exists_routine {op : Operator} {a b : Float} (hbinary : op ≠ .negate)
    (hzero : ¬ (op = .divide ∧ b == 0)) : ∃ x, op.routine [a, b] = .ok x := by
  cases op with
  | negate => exact absurd rfl hbinary
  | divide =>
      have hb : (b == 0) = false := by simpa using hzero
      exact ⟨a / b, by simp [Operator.routine, Routine.divide, hb]⟩
  | add | subtract | multiply | power => exact ⟨_, rfl⟩

/-- The operators of a grouping have routines for as many operands as they
take, so only a zero divisor and a missing operand can be met with. -/
theorem lands_applyOperator (htable : ctx.operators = .grouping grouping)
    {op : Operator} (hop : token.operator = some op) (stack : Stack) :
    Lands Failure.IsForeseen (fun _ => True)
      (applyOperator ctx token stack) := by
  by_cases hnegate : op = .negate
  · subst hnegate
    have hspec : ctx.operators.find? .negate = some Operator.negate.spec := by
      rw [htable, OperatorTable.find?_grouping (by decide)]
    simp only [applyOperator, hop, Option.bind_some, hspec, Option.map_some]
    cases stack with
    | nil => exact rfl
    | cons x rest => trivial
  · obtain ⟨spec, hspec, harity, hroutine⟩ :=
      find?_grouping_binary grouping hnegate
    rw [← htable] at hspec
    simp only [applyOperator, hop, Option.bind_some, hspec, Option.map_some,
      harity, hroutine]
    split
    · exact rfl
    · next hlength =>
        match stack with
        | [] | [_] => simp at hlength
        | b :: a :: rest =>
            dsimp only
            rw [if_neg (by decide)]
            split
            · exact rfl
            · next hzero =>
                obtain ⟨x, hx⟩ := exists_routine (a := a) hnegate hzero
                rw [hx]
                trivial

-- ========================================================== the variables

private theorem lands_accept (ctx : Context) (token : Token)
    {answer : Except Failure Value}
    (h : (∃ x, answer = .ok (.float x)) ∨ ∃ d, answer = .error (.diagnosed d)
      ∧ d.fault.stage = .evaluation ∧ d.fault.kind = .unresolvedVariable) :
    Lands Failure.IsForeseen (fun _ => True) (accept ctx token answer) := by
  obtain ⟨x, rfl⟩ | ⟨d, rfl, hstage, hkind⟩ := h
  · simp only [accept, finiteValue]
    cases x.isFinite with
    | true => trivial
    | false => exact rfl
  · have hforeseen := Fault.isForeseen_of_unresolved hstage hkind
    unfold accept
    dsimp only
    split
    · exact isForeseen_at hforeseen _ _
    · exact hforeseen

/-- A bound variable has its value; for any other the resolver answers as it
promised. -/
theorem lands_variableValue (hforthright : resolver.Forthright)
    (bindings : Bindings) (world : σ) :
    Lands Failure.IsForeseen (fun _ => True)
      ((variableValue ctx resolver token bindings).run world).1.1 := by
  obtain ⟨x, -, hrun⟩ | ⟨-, answer, world', hask, hanswer⟩ :=
    variableValue_cases ctx resolver token bindings world
  · rw [hrun]
    trivial
  · have hsane := hforthright token.text world
    rw [hask] at hsane
    have hlands := lands_accept ctx token hsane
    obtain ⟨x, -, hrun⟩ | ⟨failure, haccept, hrun⟩ := hanswer
    · rw [hrun]
      trivial
    · rw [hrun]
      rwa [haccept] at hlands

-- =============================================================== the runs

/-- A step of a ready token fails in no way that is not foreseen. -/
theorem lands_step (htable : ctx.operators = .grouping grouping)
    (htotal : ctx.functions.Total) (hforthright : resolver.Forthright)
    (hready : token.Ready ctx.functions) (stack : Stack) (bindings : Bindings)
    (world : σ) :
    Lands Failure.IsForeseen (fun _ => True)
      ((step ctx resolver token stack bindings).run world).1.1 := by
  unfold step
  cases hkind : token.kind with
  | number =>
      obtain ⟨x, hx⟩ := hready.number hkind
      simp only [numberValue, hx, Option.some_or]
      trivial
  | identifier =>
      exact (lands_variableValue hforthright bindings world).map
        fun _ _ => trivial
  | function => exact lands_applyFunction htotal (hready.contains hkind) stack
  | operator =>
      obtain ⟨op, hop⟩ := hready.operator hkind
      exact lands_applyOperator htable hop stack
  | leftParen | rightParen | comma => simp [Token.Ready, hkind] at hready

private theorem lands_checkDepth (ctx : Context) (token : Token)
    (stack : Stack) :
    Lands Failure.IsForeseen (fun _ => True) (checkDepth ctx token stack) := by
  have hcheck :=
    lands_check ctx.limits .stackDepth stack.length (some token.position)
  unfold checkDepth
  generalize ctx.limits.check .stackDepth stack.length (some token.position)
    = checked
    at hcheck
  cases checked with
  | error d => exact hcheck
  | ok _ => trivial

/-- By induction on the tokens, each of which is ready. -/
theorem lands_run (htable : ctx.operators = .grouping grouping)
    (htotal : ctx.functions.Total) (hforthright : resolver.Forthright)
    {tokens : List Token}
    (hready : ∀ token ∈ tokens, token.Ready ctx.functions)
    (stack : Stack) (bindings : Bindings) (world : σ) :
    Lands Failure.IsForeseen (fun _ => True)
      ((run ctx resolver tokens stack bindings).run world).1.1 := by
  induction tokens generalizing stack bindings world with
  | nil => trivial
  | cons token rest ih =>
      have hstep :=
        (lands_step htable htotal hforthright (hready token (by simp)) stack
          bindings world).bind fun stack' _ =>
            lands_checkDepth ctx token stack'
      rw [run, runWorld_bind]
      generalize (step ctx resolver token stack bindings).run world = after
        at hstep
      obtain ⟨⟨outcome, bindings'⟩, world'⟩ := after
      dsimp only at hstep ⊢
      generalize outcome.bind (checkDepth ctx token) = checked at hstep
      cases checked with
      | error failure => exact hstep
      | ok stack' =>
          exact ih (fun t ht => hready t (by simp [ht])) stack' bindings'
            world'

/-- The evaluation of ready tokens fails in no way that is not foreseen. -/
theorem lands_evaluatePostfix (ctx : Context)
    (htable : ctx.orStandard.operators = .grouping grouping)
    (htotal : ctx.functions.Total) (hforthright : resolver.Forthright)
    {tokens : List Token}
    (hready : ∀ token ∈ tokens, token.Ready ctx.functions.orBuiltin)
    (bindings : Bindings) (world : σ) :
    Lands Failure.IsForeseen (fun _ => True)
      ((evaluatePostfix ctx resolver tokens bindings).run world).1.1 := by
  refine (lands_run htable htotal.orBuiltin hforthright hready [] bindings
    world).bind
    fun stack _ => ?_
  unfold result
  split
  · trivial
  · exact rfl

end Evaluation

end Reckoner

/-
A calculator computes what its expression means.

Three stages stand between the text of an expression and its value: the
scanner, the converter and the stack machine. The converter has been
held against the grammar (`Derives.toPostfix_eq`); here the machine is
held against the meaning of trees, and the stages are put together.

`Computes` says of a tree that its postfix form, run on any stack, does
what evaluating the tree does and leaves the value on top. It is proved
along the derivation, as one law for each way of building a tree: the
law of an operator is that the machine finds both operands on the stack,
the right one on top, and the law of a call that it finds the arguments
there in the reverse of their order.

Both sides are calculations with the same effects, so their equality
speaks of everything at once: the value or the first failure, the
bindings that are left, and what the resolver was asked, in which order.
-/
import Reckoner.Calculator
import Reckoner.Proofs.Evaluation.Weight
import Reckoner.Proofs.Infix.Derivation

namespace Reckoner

open Calculation Evaluation

-- ========================================================== single tokens

namespace Evaluation

section Tokens

variable {m : Type → Type} [Monad m] {ctx : Context} {resolver : Resolver m}

/-- An operator does the same in every world, and asks nobody. -/
theorem stepping_operator {token : Token} (hkind : token.kind = .operator)
    (stack : Stack) :
    stepping ctx resolver token stack
      = (applyOperator ctx token stack : Calculation m Stack) := by
  refine Calculation.ext fun bindings => ?_
  rw [start_stepping, start_except, step, hkind]

private theorem stepping_function {token : Token}
    (hkind : token.kind = .function) (stack : Stack) :
    stepping ctx resolver token stack
      = (applyFunction ctx token stack : Calculation m Stack) := by
  refine Calculation.ext fun bindings => ?_
  rw [start_stepping, start_except, step, hkind]

variable [LawfulMonad m]

/-- A variable is looked up where the tree would look it up. -/
theorem start_lookUp (token : Token) (bindings : Bindings) :
    (Expression.lookUp ctx resolver token).start bindings
      = variableValue ctx resolver token bindings := by
  rw [Expression.lookUp, start_bind, start_get, pure_bind, variableValue]
  dsimp only
  cases bindings.find? token.text with
  | some x => rfl
  | none =>
      simp only [start_bind, start_lift, start_except, bind_assoc, pure_bind]
      congr 1
      funext answer
      cases accept ctx token answer with
      | error failure => rfl
      | ok x => simp [start_modify, start_pure]

private theorem stepping_number {token : Token} (hkind : token.kind = .number)
    (stack : Stack) :
    stepping ctx resolver token stack = (do
      let x ← (numberValue ctx token : Calculation m Float)
      return x :: stack) := by
  refine Calculation.ext fun bindings => ?_
  rw [start_stepping, start_bind, start_except, pure_bind, step, hkind]
  cases numberValue ctx token <;> rfl

private theorem stepping_identifier {token : Token}
    (hkind : token.kind = .identifier) (stack : Stack) :
    stepping ctx resolver token stack = (do
      let x ← Expression.lookUp ctx resolver token
      return x :: stack) := by
  refine Calculation.ext fun bindings => ?_
  rw [start_stepping, start_bind, start_lookUp, step, hkind]
  dsimp only
  congr 1
  funext ⟨outcome, bindings⟩
  cases outcome <;> rfl

end Tokens

/-- What is pushed after a pure computation is pushed by a calculation. -/
theorem lift_push {m : Type → Type} [Monad m] [LawfulMonad m]
    (outcome : Except Failure Float) (stack : Stack) :
    (outcome.map (· :: stack) : Calculation m Stack) = (do
      let x ← (outcome : Calculation m Float)
      return x :: stack) := by
  refine Calculation.ext fun bindings => ?_
  rw [start_except, start_bind, start_except, pure_bind]
  cases outcome <;> rfl

-- ====================================================== the applications

variable {ctx : Context}

/-- A binary operator combines the two operands on top of the stack, of
which the right one was pushed last. -/
theorem applyOperator_binary {grouping : Associativity} {token : Token}
    {op : Operator} (htable : ctx.operators = .grouping grouping)
    (hop : token.meant? = some op) (hbinary : op ≠ .negate) (x y : Float)
    (stack : Stack) :
    applyOperator ctx (token.carrying op) (y :: x :: stack)
      = (Expression.combine ctx op token x y).map (· :: stack) := by
  obtain ⟨spec, hspec, harity, hroutine⟩ :=
    find?_grouping_binary grouping hbinary
  have hposition : (token.carrying op).position = token.position := by
    unfold Token.carrying
    split <;> rfl
  simp only [applyOperator, Token.operator_carrying hop, Option.bind_some,
    htable, hspec, Option.map_some, harity, hroutine, hposition,
    Expression.combine]
  rw [if_neg (by simp), if_neg (by decide)]
  split
  · rfl
  · cases op.routine [x, y] <;> rfl

/-- A unary minus negates the operand on top of the stack. -/
theorem applyOperator_negating {grouping : Associativity}
    (htable : ctx.operators = .grouping grouping) (minus : Token) (x : Float)
    (stack : Stack) :
    applyOperator ctx minus.negating (x :: stack) = .ok (-x :: stack) := by
  have hspec : (OperatorTable.grouping grouping).find? .negate
      = some Operator.negate.spec := OperatorTable.find?_grouping (by decide)
  simp only [applyOperator, Token.negating, Option.bind_some, htable, hspec,
    Option.map_some, Operator.spec]
  rw [if_neg (by simp), if_pos trivial]
  rfl

/-- A function is applied to its arguments, of which the last one is on
top of the stack. -/
theorem applyFunction_eq {function : Token} {spec : FunctionSpec}
    (hspec : ctx.functions.find? function.text = some spec) {args : List Float}
    (hargs : args.length = spec.arity) (stack : Stack) :
    applyFunction ctx function (args.reverse ++ stack)
      = (Expression.apply ctx function args).map (· :: stack) := by
  have htake : ((args.reverse ++ stack).take spec.arity).reverse = args := by
    rw [List.take_left' (by simpa using hargs), List.reverse_reverse]
  have hdrop : (args.reverse ++ stack).drop spec.arity = stack :=
    List.drop_left' (by simpa using hargs)
  have henough : ¬ (args.reverse ++ stack).length < spec.arity := by
    rw [List.length_append, List.length_reverse]
    omega
  simp only [applyFunction, arityOf, hspec, htake, hdrop, Expression.apply,
    Registry.call_eq_routine hspec hargs]
  rw [if_neg henough]
  cases spec.routine args <;> rfl

end Evaluation

-- ============================================================== the machine

namespace Expression

variable {m : Type → Type} [Monad m]

/-- The postfix form of a tree, run on any stack, does what evaluating
the tree does and pushes the value. -/
def Computes (ctx : Context) (resolver : Resolver m) (e : Expression) : Prop :=
  ∀ stack, working ctx resolver e.postorder stack = (do
    let x ← e.evaluate ctx resolver
    return x :: stack)

/-- The same of trees one after the other, whose values are pushed from
the first to the last. -/
def ComputesAll (ctx : Context) (resolver : Resolver m)
    (es : List Expression) :
    Prop :=
  ∀ stack, working ctx resolver (postorderAll es) stack = (do
    let xs ← evaluateAll ctx resolver es
    return xs.reverse ++ stack)

variable [LawfulMonad m] {ctx : Context} {resolver : Resolver m}

theorem Computes.number {token : Token} (hkind : token.kind = .number) :
    Computes ctx resolver (.number token) := by
  intro stack
  rw [postorder, working_singleton, stepping_number hkind, evaluate]

theorem Computes.identifier {token : Token}
    (hkind : token.kind = .identifier) :
    Computes ctx resolver (.identifier token) := by
  intro stack
  rw [postorder, working_singleton, stepping_identifier hkind, evaluate]

theorem Computes.negation {grouping : Associativity} {body : Expression}
    (htable : ctx.operators = .grouping grouping) (minus : Token)
    (h : Computes ctx resolver body) :
    Computes ctx resolver (.negation minus body) := by
  intro stack
  rw [postorder, working_append, h stack, evaluate, bind_assoc, bind_assoc]
  refine bind_congr fun x => ?_
  rw [pure_bind, pure_bind, working_singleton, stepping_operator rfl,
    applyOperator_negating htable]
  rfl

/-- The left operand is computed first and lies below the right one. -/
theorem Computes.binary {grouping : Associativity} {token : Token}
    {op : Operator} {left right : Expression}
    (htable : ctx.operators = .grouping grouping)
    (hop : token.meant? = some op) (hbinary : op ≠ .negate)
    (hleft : Computes ctx resolver left)
    (hright : Computes ctx resolver right) :
    Computes ctx resolver (.binary op token left right) := by
  intro stack
  have hkind : (token.carrying op).kind = .operator := by
    rw [Token.kind_carrying, Token.kind_of_meant? hop]
  rw [postorder, working_append, working_append, hleft stack, evaluate,
    bind_assoc, bind_assoc, bind_assoc]
  refine bind_congr fun x => ?_
  -- the right operand is computed over the value of the left one
  rw [pure_bind, hright, bind_assoc, bind_assoc]
  refine bind_congr fun y => ?_
  rw [pure_bind, working_singleton, stepping_operator hkind,
    applyOperator_binary htable hop hbinary, lift_push]

/-- There are as many values as there are expressions. -/
theorem evaluateAll_bind_congr {α : Type} {f g : List Float → Calculation m α}
    (es : List Expression) (h : ∀ xs, xs.length = es.length → f xs = g xs) :
    (evaluateAll ctx resolver es >>= f)
      = (evaluateAll ctx resolver es >>= g) := by
  induction es generalizing f g with
  | nil => simpa [evaluateAll] using h [] rfl
  | cons e rest ih =>
      simp only [evaluateAll, bind_assoc, pure_bind]
      refine bind_congr fun x => ih fun xs hxs => h (x :: xs) ?_
      rw [List.length_cons, List.length_cons, hxs]

theorem Computes.call {function : Token} {spec : FunctionSpec}
    {arguments : List Expression} (hkind : function.kind = .function)
    (hspec : ctx.functions.find? function.text = some spec)
    (hcount : arguments.length = spec.arity)
    (h : ComputesAll ctx resolver arguments) :
    Computes ctx resolver (.call function arguments) := by
  intro stack
  rw [postorder, working_append, h stack, evaluate, bind_assoc, bind_assoc]
  refine evaluateAll_bind_congr arguments fun args hargs => ?_
  rw [pure_bind, working_singleton, stepping_function hkind,
    applyFunction_eq hspec (hargs.trans hcount), lift_push]

theorem ComputesAll.nil : ComputesAll ctx resolver [] := by
  intro stack
  simp [postorderAll, evaluateAll, working]

/-- What is computed later lies on top. -/
theorem ComputesAll.cons {e : Expression} {es : List Expression}
    (h : Computes ctx resolver e) (hes : ComputesAll ctx resolver es) :
    ComputesAll ctx resolver (e :: es) := by
  intro stack
  simp only [postorderAll, evaluateAll, working_append, bind_assoc, h stack]
  refine bind_congr fun x => ?_
  simp only [pure_bind, hes (x :: stack)]
  refine bind_congr fun xs => ?_
  rw [List.reverse_cons, List.append_assoc, List.singleton_append]

end Expression

-- =========================================================== the derivation

section Derivation

variable {m : Type → Type} [Monad m] [LawfulMonad m]
variable {grouping : Associativity} {registry : Registry}

/-- Arguments are as many as they are counted to be. -/
theorem DerivesArguments.length_eq {count : Nat} {tokens : List Token}
    {es : List Expression}
    (h : DerivesArguments grouping registry count tokens es) :
    es.length = count := by
  induction es generalizing count tokens with
  | nil =>
      cases h
      rfl
  | cons e rest ih =>
      cases h with
      | single _ => rfl
      | more _ _ hothers => rw [List.length_cons, ih hothers]

variable {ctx : Context} {resolver : Resolver m}

open Expression

mutual

/-- Every derived tree is computed by its postfix form. -/
theorem Derives.computes (htable : ctx.operators = .grouping grouping) :
    ∀ {rung : Rung} {tokens : List Token} {e : Expression},
      Derives grouping ctx.functions rung tokens e → Computes ctx resolver e
  | _, _, _, .number hkind => Computes.number hkind
  | _, _, _, .identifier hkind => Computes.identifier hkind
  | _, _, _, .group _ _ h => h.computes htable
  | _, _, _, .call hfunction hspec _ _ h =>
      Computes.call hfunction hspec h.length_eq (h.computes htable)
  | _, _, _, .chainAtom h => h.computes htable
  | _, _, _, .chainPower _ hl hop hr =>
      Computes.binary htable hop (by decide) (hl.computes htable)
        (hr.computes htable)
  | _, _, _, .signedMinus _ h => Computes.negation htable _ (h.computes htable)
  | _, _, _, .signedChain h => h.computes htable
  | _, _, _, .signedPowerMinus _ hl hop _ hr =>
      Computes.binary htable hop (by decide) (hl.computes htable)
        (Computes.negation htable _ (hr.computes htable))
  | _, _, _, .signedPower _ hl hop hr =>
      Computes.binary htable hop (by decide) (hl.computes htable)
        (hr.computes htable)
  | _, _, _, .productSigned h => h.computes htable
  | _, _, _, .product hl hop hrung hr =>
      Computes.binary htable hop (by rcases hrung with rfl | rfl <;> decide)
        (hl.computes htable) (hr.computes htable)
  | _, _, _, .sumProduct h => h.computes htable
  | _, _, _, .sum hl hop hrung hr =>
      Computes.binary htable hop (by rcases hrung with rfl | rfl <;> decide)
        (hl.computes htable) (hr.computes htable)

/-- And all arguments by theirs. -/
theorem DerivesArguments.computes
    (htable : ctx.operators = .grouping grouping) :
    ∀ {count : Nat} {tokens : List Token} {es : List Expression},
      DerivesArguments grouping ctx.functions count tokens es →
        ComputesAll ctx resolver es
  | _, _, _, .none => ComputesAll.nil
  | _, _, _, .single h => ComputesAll.cons (h.computes htable) ComputesAll.nil
  | _, _, _, .more h _ hothers =>
      ComputesAll.cons (h.computes htable) (hothers.computes htable)

end

end Derivation

-- =========================================================== the calculator

namespace Calculator

/-- Whether the stack stays within its limit when an expression is
calculated, with the resolver in the given state of the world. -/
def StaysShallow {σ : Type} (c : Calculator) (resolver : Resolver (StateM σ))
    (text : String) (world : σ) : Prop :=
  ∀ tokens, c.toPostfix text = .ok tokens →
    Shallow (c.context text).orStandard resolver tokens [] c.bindings world

/-- The text scans to the tokens of an expression and, unless the stack
grows beyond its limit, the calculator does what evaluating the tree of
the expression does: it gives the same value or the same first failure,
it is left with the same bindings, and the world, in which the resolver
may keep account of its questions, is left the same. -/
theorem evaluate_eq_tree {σ : Type} (c : Calculator)
    (resolver : Resolver (StateM σ)) (text : String) (world : σ)
    {tokens : List Token} {e : Expression}
    (hscan : Token.scan c.functions c.settings.limits text = .ok tokens)
    (hderives : Derives c.settings.powerAssociativity
      c.functions.orBuiltin .sum tokens e)
    (hdepth : c.StaysShallow resolver text world) :
    (c.evaluate resolver text).run world
      = (do
          let (outcome, bindings) ←
            (e.evaluate (c.context text).orStandard resolver).start c.bindings
          pure (outcome, { c with bindings })).run world := by
  have hform : c.toPostfix text = .ok e.postorder := by
    rw [toPostfix, hscan]
    exact hderives.toPostfix_eq
  have htable : (c.context text).orStandard.operators
      = .grouping c.settings.powerAssociativity := orStandard_grouping
  have hcomputes :
      Expression.Computes (c.context text).orStandard resolver e :=
    Derives.computes htable hderives
  rw [evaluate, hform]
  dsimp only
  -- the run is that of the tree, and its value is the only one on the stack
  rw [evaluatePostfix, runWorld_bind, runWorld_bind,
    run_eq_working (hdepth _ hform), hcomputes [], start_bind, runWorld_bind,
    runWorld_bind]
  generalize ((e.evaluate (c.context text).orStandard resolver).start
    c.bindings).run
    world = after
  obtain ⟨⟨outcome, bindings⟩, world⟩ := after
  cases outcome <;> rfl

/-- `a^-b^c*d` is `(a^(-(b^c)))*d` where `^` groups from the left, and
with a resolver that keeps the names it was asked for. -/
theorem evaluate_eq_tree_minus_in_exponent :
    let resolver : Resolver (StateM (List String)) :=
      ⟨fun name asked => (.ok (.int 3), asked ++ [name])⟩
    let c : Calculator := {}
    let e : Expression :=
      .binary .multiply ⟨.operator, "*", 6, none, some .multiply⟩
      (.binary .power ⟨.operator, "^", 1, none, some .power⟩
        (.identifier ⟨.identifier, "a", 0, none, none⟩)
        (.negation ⟨.operator, "-", 2, none, some .subtract⟩
          (.binary .power ⟨.operator, "^", 4, none, some .power⟩
            (.identifier ⟨.identifier, "b", 3, none, none⟩)
            (.identifier ⟨.identifier, "c", 5, none, none⟩))))
      (.identifier ⟨.identifier, "d", 7, none, none⟩)
    c.StaysShallow resolver "a^-b^c*d" []
      ∧ (c.evaluate resolver "a^-b^c*d").run []
        = (do
            let (outcome, bindings) ←
              (e.evaluate (c.context "a^-b^c*d").orStandard resolver).start
                c.bindings
            pure (outcome, { c with bindings })).run [] := by
  intro resolver c e
  have hscan : Token.scan c.functions c.settings.limits "a^-b^c*d"
      = .ok ([⟨.identifier, "a", 0, none, none⟩]
        ++ ⟨.operator, "^", 1, none, some .power⟩
        :: ⟨.operator, "-", 2, none, some .subtract⟩
        :: ([⟨.identifier, "b", 3, none, none⟩]
          ++ ⟨.operator, "^", 4, none, some .power⟩
          :: [⟨.identifier, "c", 5, none, none⟩])
        ++ ⟨.operator, "*", 6, none, some .multiply⟩
        :: [⟨.identifier, "d", 7, none, none⟩]) :=
    eq_ok_of_toOption (by decide +kernel)
  have hderives :
      Derives c.settings.powerAssociativity c.functions.orBuiltin .sum _ e :=
    .sumProduct (.product
      (.productSigned (.signedPowerMinus rfl (.chainAtom (.identifier rfl))
        rfl rfl (.signedChain
          (.chainPower rfl (.chainAtom (.identifier rfl)) rfl
            (.identifier rfl)))))
      rfl (Or.inl rfl) (.signedChain (.chainAtom (.identifier rfl))))
  have hshallow : c.StaysShallow resolver "a^-b^c*d" [] := by
    intro tokens htokens
    have hform : c.toPostfix "a^-b^c*d" = .ok e.postorder := by
      rw [toPostfix, hscan]
      exact hderives.toPostfix_eq
    obtain rfl : e.postorder = tokens :=
      Except.ok.inj (hform.symm.trans htokens)
    exact shallow_of_length_le resolver _ _ (by decide)
  exact ⟨hshallow, evaluate_eq_tree c resolver _ _ hscan hderives hshallow⟩

end Calculator

end Reckoner

/-
How deep the stack grows.

The values that are on the stack while a tree is evaluated can be read off
the tree: the second operand is evaluated on top of the first, the third
argument on top of two (`Expression.depth`). That is exactly how deep the
postorder takes the stack (`Expression.Fits.within_tokens_iff`), so the
limit cuts a run short if the tree is deeper and nothing else fails before
(`foundTooDeep_iff_of_spells`).

A token leaves at most one value more than there were. So the first token
to exceed a limit exceeds it by one, whether the tokens are the postorder
of a tree or not.
-/
import Reckoner.Proofs.Calculator.Inquiry
import Reckoner.Proofs.Evaluation.Ending
import Reckoner.Proofs.Evaluation.Exactness
import Reckoner.Proofs.Token.Lexing

namespace Reckoner

-- ================================================================ the depth

namespace Expression

mutual

/-- The most values that the evaluation of a tree has at a time. -/
def depth : Expression → Nat
  | .number _ | .identifier _ => 1
  | .negation _ body => depth body
  | .binary _ _ left right => max (depth left) (1 + depth right)
  | .call _ [] => 1
  | .call _ (first :: rest) => max (depth first) (depthFrom 1 rest)

/-- The same for arguments, the first of which finds `count` values. -/
def depthFrom (count : Nat) : List Expression → Nat
  | [] => 0
  | e :: rest => max (count + depth e) (depthFrom (count + 1) rest)

end

private theorem one_le_depth (e : Expression) : 1 ≤ e.depth := by
  induction e with
  | number | identifier => exact Nat.le_refl 1
  | negation minus body ih => simpa only [depth] using ih
  | binary op token left right ihl _ => simp only [depth]; omega
  | call function arguments ih =>
      cases arguments with
      | nil => simp only [depth]; omega
      | cons first rest =>
          have hfirst := ih first (by simp)
          simp only [depth]
          omega

/-- The depth of a tree by that of its parts, the one counted on top of the
other. -/
theorem depth_eq (e : Expression) : e.depth = max 1 (depthFrom 0 e.parts) := by
  cases e with
  | number | identifier => rfl
  | negation minus body =>
      have hbody := body.one_le_depth
      simp only [depth, parts, depthFrom]
      omega
  | binary op token left right =>
      have hleft := left.one_le_depth
      simp only [depth, parts, depthFrom]
      omega
  | call function arguments =>
      cases arguments with
      | nil => rfl
      | cons first rest =>
          have hfirst := first.one_le_depth
          simp only [depth, parts, depthFrom, Nat.zero_add]
          omega

end Expression

-- ============================================================= the counting

section Counting

variable {functions : Registry} {limit available : Int}

private theorem within_append (first second : List Token) :
    Within functions limit available (first ++ second)
      ↔ Within functions limit available first
        ∧ Within functions limit (available + surplus functions first)
          second := by
  induction first generalizing available with
  | nil => simp [Within]
  | cons token rest ih =>
      simp only [List.cons_append, Within, ih, surplus_cons, and_assoc,
        Int.add_assoc]

private theorem within_singleton (token : Token) :
    Within functions limit available [token]
      ↔ available + (1 - token.arity functions) ≤ limit := by
  simp [Within]

namespace Expression

/-- Of trees one after the other, each is evaluated on top of the values of
those before. -/
theorem within_tokensAll_iff_of {es : List Expression}
    (hes : ∀ e ∈ es, e.Fits functions) (h : ∀ e ∈ es, ∀ available : Int,
      Within functions limit available e.tokens ↔ available + e.depth ≤ limit)
    (available : Int) (count : Nat) :
    Within functions limit (available + count) (tokensAll es)
      ∧ available + 1 ≤ limit
      ↔ available + (max 1 (depthFrom count es) : Nat) ≤ limit := by
  induction es generalizing count with
  | nil => simp [tokensAll, depthFrom, Within]
  | cons e rest ih =>
      -- the first tree leaves one value, on top of which the others go
      have hone := (hes e (by simp)).surplus_tokens
      have hrest :=
        ih (fun e he => hes e (by simp [he])) (fun e he => h e (by simp [he]))
        (count + 1)
      have hnext : available + (count : Int) + 1
        = available + (count + 1 : Nat) := by omega
      simp only [tokensAll, within_append, h e (by simp), hone, depthFrom,
        hnext, and_assoc, hrest]
      omega

/-- The stack stays within a limit exactly if there is room for the depth of
the tree. -/
theorem Fits.within_tokens_iff {e : Expression} (h : e.Fits functions) :
    Within functions limit available e.tokens
      ↔ available + e.depth ≤ limit := by
  induction e using induct_parts generalizing available with
  | h e ih =>
      have hparts := within_tokensAll_iff_of h.of_parts
        (fun part hpart _ => ih part hpart (h.of_parts part hpart)) available 0
      have hleft :
          available + (e.parts.length : Int)
            + (1 - (e.root.arity functions : Int))
          = available + 1 := by
        rw [h.length_parts]
        omega
      rw [tokens_eq, within_append, within_singleton,
        surplus_tokensAll h.of_parts, hleft, depth_eq]
      rwa [Int.natCast_zero, Int.add_zero] at hparts

end Expression

/-- A token is the first after which there are more values than the limit
allows. -/
def FirstAbove (functions : Registry) (limit : Int) (before : List Token)
    (token : Token) : Prop :=
  Within functions limit 0 before
    ∧ limit < surplus functions (before ++ [token])

private theorem FirstAbove.not_within {before : List Token} {token : Token}
    (h : FirstAbove functions limit before token) (rest : List Token) :
    ¬ Within functions limit 0 (before ++ token :: rest) := by
  intro hwithin
  rw [List.append_cons, within_append, within_append, within_singleton]
    at hwithin
  have habove := h.2
  rw [surplus_append, surplus_cons, surplus_nil] at habove
  have hlast := hwithin.1.2
  omega

/-- Tokens with which there are too many values at some time have a first
such token, by induction from the last. -/
theorem exists_firstAbove {tokens : List Token}
    (h : ¬ Within functions limit 0 tokens) :
    ∃ before token rest, tokens = before ++ token :: rest
      ∧ FirstAbove functions limit before token := by
  induction tokens using List.reverseRecOn with
  | nil => exact absurd trivial h
  | append_singleton tokens last ih =>
      by_cases hwithin : Within functions limit 0 tokens
      · refine ⟨tokens, last, [], rfl, hwithin, ?_⟩
        rw [within_append, within_singleton, not_and] at h
        have hlast := h hwithin
        rw [surplus_append, surplus_cons, surplus_nil]
        omega
      · obtain ⟨before, token, rest, rfl, hfirst⟩ := ih hwithin
        exact ⟨before, token, rest ++ [last], by simp, hfirst⟩

/-- There is only one first token. -/
theorem FirstAbove.unique {before before' rest rest' : List Token}
    {token token' : Token} (h : FirstAbove functions limit before token)
    (h' : FirstAbove functions limit before' token')
    (heq : before ++ token :: rest = before' ++ token' :: rest') :
    before = before' ∧ token = token' := by
  rcases List.append_eq_append_iff.mp heq with ⟨more, hmore, hrest⟩
    | ⟨more, hmore, hrest⟩
  · cases more with
    | nil => exact ⟨by simpa using hmore.symm, (List.cons.inj hrest).1⟩
    | cons next more =>
        obtain ⟨rfl, -⟩ := List.cons.inj hrest
        exact absurd (hmore ▸ h'.1) (h.not_within more)
  · cases more with
    | nil => exact ⟨by simpa using hmore, (List.cons.inj hrest).1.symm⟩
    | cons next more =>
        obtain ⟨rfl, -⟩ := List.cons.inj hrest
        exact absurd (hmore ▸ h.1) (h'.not_within more)

end Counting

-- ============================================================== the machine

namespace Evaluation

open Calculation

variable {σ : Type} {ctx : Context} {resolver : Resolver (StateM σ)}
variable {bindings : Bindings} {world : σ}

/-- The machine gets through tokens, were its stack not limited, and has the
given values then. -/
def Reaches (ctx : Context) (resolver : Resolver (StateM σ))
    (bindings : Bindings)
    (world : σ) (tokens : List Token) (stack : Stack) : Prop :=
  ∃ bindings' world',
    ((working ctx resolver tokens []).start bindings).run world
    = ((.ok stack, bindings'), world')

/-- A run that succeeds has kept within the limit. -/
theorem shallow_of_run {tokens : List Token} {stack after : Stack}
    {bindings' : Bindings} {world' : σ}
    (h : (run ctx resolver tokens stack bindings).run world
      = ((.ok after, bindings'), world')) :
    Shallow ctx resolver tokens stack bindings world := by
  induction tokens generalizing stack bindings world with
  | nil => trivial
  | cons token rest ih =>
      obtain ⟨middle, between, world'', hstep, hdepth, hrest⟩ :=
        run_cons_eq_ok h
      rw [Shallow, hstep]
      exact ⟨hdepth, ih hrest⟩

/-- And ends within the limit, unless there was too much at the beginning. -/
theorem length_le_of_run {tokens : List Token} {stack after : Stack}
    {bindings' : Bindings} {world' : σ}
    (hstack : stack.length ≤ ctx.limits.of .stackDepth)
    (h : (run ctx resolver tokens stack bindings).run world
      = ((.ok after, bindings'), world')) :
    after.length ≤ ctx.limits.of .stackDepth := by
  induction tokens generalizing stack bindings world with
  | nil =>
      cases h
      exact hstack
  | cons token rest ih =>
      obtain ⟨middle, between, world'', -, hdepth, hrest⟩ := run_cons_eq_ok h
      exact ih hdepth hrest

/-- The machine reaches the end of tokens that keep within the limit but for
the last one, by a run of those before and a step. -/
theorem reaches_append_iff {before : List Token} {token : Token}
    {stack : Stack}
    (hshallow : Shallow ctx resolver before [] bindings world) :
    Reaches ctx resolver bindings world (before ++ [token]) stack
      ↔ ∃ middle between world' bindings' world'',
        (run ctx resolver before [] bindings).run world
          = ((.ok middle, between), world')
        ∧ (step ctx resolver token middle between).run world'
          = ((.ok stack, bindings'), world'') := by
  rw [Reaches, working_append, start_bind, runWorld_bind,
    ← run_eq_working hshallow]
  generalize (run ctx resolver before [] bindings).run world = after
  obtain ⟨⟨outcome, between⟩, world'⟩ := after
  cases outcome with
  | error failure =>
      constructor
      · rintro ⟨bindings', world'', h⟩
        cases h
      · rintro ⟨middle, between', world₁, bindings', world'', h, -⟩
        cases h
  | ok middle =>
      dsimp only
      rw [working_singleton, start_stepping]
      constructor
      · rintro ⟨bindings', world'', h⟩
        exact ⟨middle, between, world', bindings', world'', rfl, h⟩
      · rintro ⟨middle', between', world₁, bindings', world'', hrun, h⟩
        cases hrun
        exact ⟨bindings', world'', h⟩

/-- An evaluation reports that its stack was too deep, which is not what the
resolver said in place of an answer. -/
structure FoundTooDeep {α : Type}
    (after : (Except Failure α × Bindings) × History × σ)
    (d : Diagnostic) : Prop where
  outcome : after.1.1 = .error (.diagnosed d)
  fault : ∃ limit actual, d.fault = .limitExceeded .stackDepth limit actual
  own : ∀ question ∈ after.2.1.questions, ∀ d',
    question.2 = .error (.diagnosed d') →
    d'.fault ≠ d.fault

/-- A run is found too deep exactly at a token that is reached within the
limit and leaves too many values. -/
theorem foundTooDeep_run_iff {tokens : List Token} {d : Diagnostic} :
    FoundTooDeep ((run ctx resolver.recorded tokens [] bindings).run
      ([], world)) d
      ↔ ∃ before token rest stack, tokens = before ++ token :: rest
        ∧ Shallow ctx resolver.recorded before [] bindings ([], world)
        ∧ Reaches ctx resolver.recorded bindings ([], world)
          (before ++ [token]) stack
        ∧ ctx.limits.of .stackDepth < stack.length
        ∧ d = ⟨.limitExceeded .stackDepth (ctx.limits.of .stackDepth)
          stack.length, some token.position, none⟩ := by
  constructor
  · rintro ⟨houtcome, ⟨limit, actual, hfault⟩, hown⟩
    obtain ⟨stack, bindings', world', hrun⟩ |
      ⟨before, token, rest, middle, between, ⟨history, world'⟩, rfl, hbefore,
        hstop⟩ :=
      stops_of_run ctx resolver.recorded tokens [] bindings ([], world)
    · rw [hrun] at houtcome
      cases houtcome
    generalize (run ctx resolver.recorded (before ++ token :: rest) []
      bindings).run
      ([], world) = after at houtcome hown hstop
    cases hstop with
    | failed hstep =>
        cases houtcome
        cases stepFailure_of_step hstep with
        | found hfound => exact absurd hfault (hfound.not_limitExceeded _ _ _)
        | reported hask haccept =>
            -- the report was the answer to the last question
            rw [Resolver.recorded_ask] at hask
            obtain ⟨hanswer, rfl⟩ := Prod.mk.inj hask
            refine absurd (fault_of_accept haccept)
              (hown (token.text, _) ?_ _ hanswer)
            rw [History.questions_asked]
            exact List.mem_append_right _ (List.mem_singleton.mpr rfl)
    | deep hstep hdeep =>
        cases houtcome
        have hshallow := shallow_of_run hbefore
        exact ⟨before, token, rest, _, rfl, hshallow,
          (reaches_append_iff hshallow).mpr ⟨_, _, _, _, _, hbefore, hstep⟩,
          hdeep, rfl⟩
  · rintro ⟨before, token, rest, stack, rfl, hshallow, hreaches, hdeep, rfl⟩
    obtain ⟨middle, between, ⟨history, world'⟩, bindings', ⟨history', world''⟩,
        hbefore, hstep⟩ :=
      (reaches_append_iff hshallow).mp hreaches
    rw [run_of_stop hbefore (.deep hstep hdeep) rest]
    refine ⟨rfl, ⟨_, _, rfl⟩, fun question hquestion d' hd' => ?_⟩
    -- all that was asked was answered
    obtain ⟨x, hx⟩ :=
      accepted_of_run_step ctx resolver hbefore hstep question hquestion
    rw [hd'] at hx
    cases hx

/-- What is left on the stack in the end is no matter of the limit. -/
theorem foundTooDeep_evaluatePostfix_iff {tokens : List Token}
    {d : Diagnostic} :
    FoundTooDeep ((evaluatePostfix ctx resolver.recorded tokens bindings).run
      ([], world)) d
      ↔ FoundTooDeep
        ((run ctx.orStandard resolver.recorded tokens [] bindings).run
          ([], world)) d := by
  rw [evaluatePostfix, runWorld_bind]
  generalize (run ctx.orStandard resolver.recorded tokens [] bindings).run
    ([], world) = after
  obtain ⟨⟨outcome, bindings'⟩, history, world'⟩ := after
  cases outcome with
  | error failure =>
      refine ⟨fun h => ⟨?_, h.fault, h.own⟩, fun h => ⟨?_, h.fault, h.own⟩⟩ <;>
        exact congrArg Except.error (Except.error.inj h.outcome)
  | ok stack =>
      constructor
      · rintro ⟨houtcome, ⟨limit, actual, hfault⟩, -⟩
        have hresult : result ctx.orStandard stack = .error (.diagnosed d) :=
          houtcome
        unfold result at hresult
        split at hresult
        · cases hresult
        · cases hresult
          cases hfault
      · rintro ⟨houtcome, -, -⟩
        cases houtcome

/-- How many values a reached stack has does not depend on the values. -/
theorem length_of_reaches {before : List Token} {token : Token} {stack : Stack}
    (harities : ctx.operators.UsualArities)
    (hshallow : Shallow ctx resolver before [] bindings world)
    (h : Reaches ctx resolver bindings world (before ++ [token]) stack) :
    Within ctx.functions (ctx.limits.of .stackDepth) 0 before
      ∧ (stack.length : Int) = surplus ctx.functions (before ++ [token]) := by
  obtain ⟨middle, between, world', bindings', world'', hbefore, hstep⟩ :=
    (reaches_append_iff hshallow).mp h
  obtain ⟨hwithin, hmiddle⟩ := within_of_run harities hbefore
  refine ⟨hwithin, ?_⟩
  rw [length_of_step_usual harities hstep, hmiddle, surplus_append,
    surplus_cons, surplus_nil, List.length_nil]
  omega

/-- A token that exceeds the limit exceeds it by one, unless the limit is
negative. -/
theorem length_of_reaches_above {before : List Token} {token : Token}
    {stack : Stack} (hlimit : 0 ≤ ctx.limits.of .stackDepth)
    (hshallow : Shallow ctx resolver before [] bindings world)
    (h : Reaches ctx resolver bindings world (before ++ [token]) stack)
    (habove : ctx.limits.of .stackDepth < stack.length) :
    (stack.length : Int) = ctx.limits.of .stackDepth + 1 := by
  obtain ⟨middle, between, world', bindings', world'', hbefore, hstep⟩ :=
    (reaches_append_iff hshallow).mp h
  have hnone : (([] : Stack).length : Int) ≤ ctx.limits.of .stackDepth :=
    hlimit
  have hmiddle := length_le_of_run hnone hbefore
  have hlength := length_of_step hstep
  have hweight := ctx.weight_le_one token
  omega

/-- The postorder of a tree is found too deep exactly if the tree is deeper
than the limit and the machine gets past the first token that exceeds it. -/
theorem foundTooDeep_iff_of_spells {e : Expression} {tokens : List Token}
    (harities : ctx.operators.UsualArities)
    (h : Expression.Spells ctx.functions e tokens) :
    (∃ d,
      FoundTooDeep ((run ctx resolver.recorded tokens [] bindings).run
        ([], world)) d)
      ↔ ctx.limits.of .stackDepth < e.depth
        ∧ ∀ before token rest, tokens = before ++ token :: rest →
          FirstAbove ctx.functions (ctx.limits.of .stackDepth) before token →
          ∃ stack, Reaches ctx resolver.recorded bindings ([], world)
            (before ++ [token]) stack := by
  obtain ⟨hfits, rfl⟩ := h
  have hdepth : ctx.limits.of .stackDepth < e.depth
      ↔ ¬ Within ctx.functions (ctx.limits.of .stackDepth) 0 e.tokens := by
    rw [hfits.within_tokens_iff]
    omega
  rw [hdepth]
  constructor
  · rintro ⟨d, hfound⟩
    obtain ⟨before, token, rest, stack, htokens, hshallow, hreaches,
        hdeep, -⟩ :=
      foundTooDeep_run_iff.mp hfound
    obtain ⟨hwithin, hlength⟩ := length_of_reaches harities hshallow hreaches
    have hfirst :
        FirstAbove ctx.functions (ctx.limits.of .stackDepth) before token :=
      ⟨hwithin, by omega⟩
    refine ⟨htokens ▸ hfirst.not_within rest,
      fun before' token' rest' htokens' hfirst' => ?_⟩
    -- there is only one first token above the limit, so it is the one that
    -- was found
    obtain ⟨rfl, rfl⟩ := hfirst.unique hfirst' (htokens.symm.trans htokens')
    exact ⟨stack, hreaches⟩
  · rintro ⟨hdeep, hall⟩
    obtain ⟨before, token, rest, htokens, hfirst⟩ := exists_firstAbove hdeep
    obtain ⟨stack, hreaches⟩ := hall before token rest htokens hfirst
    have hshallow :
        Shallow ctx resolver.recorded before [] bindings ([], world) :=
      shallow_of_within harities hfirst.1
    obtain ⟨-, hlength⟩ := length_of_reaches harities hshallow hreaches
    have habove := hfirst.2
    exact ⟨_, foundTooDeep_run_iff.mpr
      ⟨before, token, rest, stack, htokens, hshallow, hreaches, by omega, rfl⟩⟩

end Evaluation

-- ================================================================= the tokens

namespace Token

open Lexeme

/-- The token that exceeds the limit on tokens is the first one too many. -/
theorem exceeds_of_scan {functions : Registry} {limits : Limits}
    {text : String} {d : Diagnostic} {limit actual : Int}
    (h : scan functions limits text = .error d)
    (hfault : d.fault = .limitExceeded .tokens limit actual)
    (hlimit : 0 ≤ limits.of .tokens) :
    limit = limits.of .tokens ∧ actual = limit + 1
      ∧ ∃ run, (runs (Glyph.ofText text))[limit.toNat]? = some run
        ∧ d.position = run.head?.map fun glyph => (glyph.offset : Int) := by
  by_cases hlength : text.length ≤ limits.of .expressionLength
  · rw [scan, Limits.check_eq_ok_iff.mpr hlength] at h
    have hlands := (lands_scanFrom_runs functions.orBuiltin limits text 0
      (Glyph.ofText text)).of_error h
    obtain ⟨i, run, hrun, hat, hbefore⟩ := hlands
    cases hat with
    | invalidCharacter | malformedNumber => cases hfault
    | tooMany hlexeme hindex =>
        cases hfault
        -- the token before it was admitted
        have hi : (i : Int) ≤ limits.of .tokens := by
          cases i with
          | zero => exact hlimit
          | succ j =>
              have hj := Nat.lt_of_succ_lt
                (List.getElem?_eq_some_iff.mp hrun).1
              have hadmitted :=
                (hbefore j _ (Nat.lt_succ_self j)
                  (List.getElem?_eq_getElem hj)).2
              omega
        have hnumber : (limits.of .tokens).toNat = i := by omega
        exact ⟨rfl, by omega, _, hnumber ▸ hrun, rfl⟩
  · rw [scan, Limits.check_eq_error (Int.not_le.mp hlength)] at h
    cases h
    cases hfault

end Token

-- ================================================================= the result

open Evaluation Expression

/-- The limit on the stack cuts at the depth of a tree. Its postorder is
found too deep if and only if the tree is deeper than the limit and nothing
else fails up to the first token after which there are more values than the
limit allows; nothing else means that the machine, were its stack not
limited, gets past that token. Of any postfix tokens whatever, if the limit
is not negative, the token that is reported is the first after which there
are more values, and there is one value too many. In the same way the limit
on tokens is exceeded by one, by the token that comes next. -/
theorem evaluatePostfix_cut_at_depth {σ : Type} (ctx : Context)
    (resolver : Resolver (StateM σ)) (tokens : List Token)
    (bindings : Bindings) (world : σ) :
    let functions := ctx.orStandard.functions
    let limit := ctx.limits.of .stackDepth
    let after := (evaluatePostfix ctx resolver.recorded tokens bindings).run
      ([], world)
    let reaches :=
      Reaches ctx.orStandard resolver.recorded bindings ([], world)
    (ctx.orStandard.operators.UsualArities → ∀ e, Spells functions e tokens →
      ((∃ d, FoundTooDeep after d) ↔ limit < e.depth
        ∧ ∀ before token rest, tokens = before ++ token :: rest →
          FirstAbove functions limit before token →
            ∃ stack, reaches (before ++ [token]) stack))
    ∧ (0 ≤ limit → ∀ d, FoundTooDeep after d →
      ∃ before token rest stack, tokens = before ++ token :: rest
        ∧ Shallow ctx.orStandard resolver.recorded before [] bindings
          ([], world)
        ∧ reaches (before ++ [token]) stack ∧ limit < stack.length
        ∧ d = ⟨.limitExceeded .stackDepth limit (limit + 1),
          some token.position, none⟩)
    ∧ ∀ (functions : Registry) limits text d allowed actual,
      Token.scan functions limits text = .error d →
      d.fault = .limitExceeded .tokens allowed actual → 0 ≤ limits.of .tokens →
        allowed = limits.of .tokens ∧ actual = allowed + 1
        ∧ ∃ run, (Lexeme.runs (Glyph.ofText text))[allowed.toNat]? = some run
          ∧ d.position = run.head?.map fun glyph => (glyph.offset : Int) := by
  intro functions limit after reaches
  refine ⟨fun harities e hspells => ?_, fun hlimit d hfound => ?_,
    fun functions limits text d allowed actual => Token.exceeds_of_scan⟩
  · exact (exists_congr fun d => foundTooDeep_evaluatePostfix_iff).trans
      (foundTooDeep_iff_of_spells harities hspells)
  · obtain ⟨before, token, rest, stack, rfl, hshallow, hreaches, habove,
        rfl⟩ :=
      foundTooDeep_run_iff.mp (foundTooDeep_evaluatePostfix_iff.mp hfound)
    have hnonneg : 0 ≤ ctx.orStandard.limits.of .stackDepth := hlimit
    have hlength := length_of_reaches_above hnonneg hshallow hreaches habove
    exact ⟨before, token, rest, stack, rfl, hshallow, hreaches, habove,
      by rw [hlength]; rfl⟩

/-- In `second(x, y-z)` three values are needed at a time. Where only two are
allowed `z`, the last to be asked for, is one too many. -/
theorem evaluatePostfix_cut_at_depth_second_argument :
    let functions : Registry := ⟨[("second", ⟨2, .binary fun _ y => y⟩)]⟩
    let ctx : Context := ⟨⟨.standard, functions, ""⟩, ⟨100, 100, 2⟩⟩
    let resolver : Resolver (StateM Unit) := .ofFunction fun _ => .int 1
    let second : Token := ⟨.function, "second", 0, none, none⟩
    let x : Token := ⟨.identifier, "x", 7, none, none⟩
    let y : Token := ⟨.identifier, "y", 10, none, none⟩
    let minus : Token := ⟨.operator, "-", 11, none, some .subtract⟩
    let z : Token := ⟨.identifier, "z", 12, none, none⟩
    let e : Expression := .call second
      [.identifier x, .binary .subtract minus (.identifier y) (.identifier z)]
    let after :=
      (evaluatePostfix ctx resolver.recorded [x, y, z, minus, second]
        .empty).run ([], ())
    ctx.orStandard.operators.UsualArities
      ∧ Spells functions e [x, y, z, minus, second] ∧ e.depth = 3
      ∧ ∃ d, FoundTooDeep after d
      ∧ d.fault = .limitExceeded .stackDepth 2 3 := by
  intro functions ctx resolver second x y minus z e after
  have htable : ctx.orStandard.operators = .grouping .left :=
    OperatorTable.grouping_left.symm
  have harities : ctx.orStandard.operators.UsualArities :=
    htable ▸ OperatorTable.usualArities_grouping .left
  have hspells : Spells functions e [x, y, z, minus, second] := by
    have hsecond :
        functions.find? "second" = some ⟨2, .binary fun _ y => y⟩ := rfl
    refine ⟨.call rfl hsecond rfl ?_, rfl⟩
    simp only [List.mem_cons, List.not_mem_nil, or_false]
    rintro part (rfl | rfl)
    · exact .identifier rfl
    · exact .binary rfl rfl (by decide) (.identifier rfl) (.identifier rfl)
  have hfirst : FirstAbove functions 2 [x, y] z := ⟨by decide, by decide⟩
  obtain ⟨htree, hany, -⟩ :=
    evaluatePostfix_cut_at_depth ctx resolver [x, y, z, minus, second]
      .empty ()
  obtain ⟨d, hfound⟩ := (htree harities e hspells).mpr ⟨by decide,
    fun before token rest htokens habove => by
      have hsplit : [x, y] ++ z :: [minus, second] = before ++ token :: rest :=
        htokens
      obtain ⟨rfl, rfl⟩ := hfirst.unique habove hsplit
      exact ⟨[1, 1, 1], _, _, rfl⟩⟩
  obtain ⟨before, token, rest, stack, -, -, -, -, rfl⟩ :=
    hany (by decide) d hfound
  exact ⟨harities, hspells, rfl, _, hfound, rfl⟩

end Reckoner

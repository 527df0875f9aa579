/-
What an evaluation asks for, and in which order.

The resolver is asked from the postfix form, which has the variables of
the text in their order, as the conversion moves no operand past another
(`variables_toPostfix`). A variable is asked for where it is first met
unbound, and an accepted answer binds it. So what is asked for is, from
the front, the list of the names that are not bound beforehand, each once
(`unboundNames`). The list is broken off where the evaluation is.

`Inquiry` says this of the questions of a computation together with what
becomes of the answers. It is shown of a look-up, hence of a step, and it
is put together along the tokens (`Inquiry.next`): the names that are
still unbound after the first tokens are those of the rest.
-/
import Reckoner.Proofs.Calculator.Session
import Reckoner.Proofs.Postfix.Rearrangement

namespace Reckoner

open Evaluation

-- ============================================================= the questions

/-- The question that an event is, with its answer. -/
def Event.question? : Event → Option (String × Except Failure Value)
  | .asked name answer => some (name, answer)
  | _ => none

/-- The questions of a history with their answers, the earliest first. -/
def History.questions (history : History) :
    List (String × Except Failure Value) :=
  history.reverse.filterMap Event.question?

theorem History.questions_asked (history : History) (name : String)
    (answer : Except Failure Value) :
    questions (.asked name answer :: history)
      = history.questions ++ [(name, answer)] := by
  simp [questions, Event.question?]

-- ================================================================= the names

/-- The names of the variables among tokens, in order. -/
def variableNames (tokens : List Token) : List String :=
  (tokens.filter (·.kind == .identifier)).map Token.text

/-- The names of the variables among tokens that are not bound, each once,
in the order in which they are first met. -/
def unboundNames (bindings : Bindings) (tokens : List Token) : List String :=
  ((variableNames tokens).filter fun name => !bindings.contains name).eraseDups

/-- In `y*x+y-z` with `z` bound. -/
example : unboundNames ⟨[("z", 1)]⟩ [⟨.identifier, "y", 0, none, none⟩,
    ⟨.operator, "*", 1, none, none⟩, ⟨.identifier, "x", 2, none, none⟩,
    ⟨.operator, "+", 3, none, none⟩, ⟨.identifier, "y", 4, none, none⟩,
    ⟨.operator, "-", 5, none, none⟩, ⟨.identifier, "z", 6, none, none⟩]
      = ["y", "x"] := by
  decide

private theorem nodup_eraseDups : ∀ names : List String, names.eraseDups.Nodup
  | [] => .nil
  | name :: rest => by
      rw [List.eraseDups_cons, List.nodup_cons, List.mem_eraseDups,
        List.mem_filter]
      exact ⟨by simp, nodup_eraseDups _⟩
termination_by names => names.length
decreasing_by exact Nat.lt_succ_of_le (List.length_filter_le _ _)

section Names

variable {bindings bindings' : Bindings} {token : Token} {name : String}

private theorem variableNames_append (first second : List Token) :
    variableNames (first ++ second)
      = variableNames first ++ variableNames second := by
  simp [variableNames]

private theorem unboundNames_nil : unboundNames bindings [] = [] := rfl

private theorem unboundNames_other (h : token.kind ≠ .identifier) :
    unboundNames bindings [token] = [] := by
  simp [unboundNames, variableNames, h]

private theorem unboundNames_bound (h : bindings.contains token.text = true) :
    unboundNames bindings [token] = [] := by
  by_cases hkind : token.kind = .identifier
  · simp [unboundNames, variableNames, hkind, h]
  · exact unboundNames_other hkind

private theorem unboundNames_unbound (hkind : token.kind = .identifier)
    (h : bindings.contains token.text = false) :
    unboundNames bindings [token] = [token.text] := by
  simp [unboundNames, variableNames, hkind, h, List.eraseDups_cons]

private theorem nodup_unboundNames (bindings : Bindings)
    (tokens : List Token) :
    (unboundNames bindings tokens).Nodup := nodup_eraseDups _

/-- Once the unbound names of the first tokens are bound, those of the rest
are unbound as far as they did not occur before. -/
theorem unboundNames_append {first : List Token}
    (h : ∀ name, bindings'.contains name = true
      ↔ bindings.contains name = true ∨ name ∈ unboundNames bindings first)
    (second : List Token) :
    unboundNames bindings (first ++ second)
      = unboundNames bindings first ++ unboundNames bindings' second := by
  have hfree : ∀ name, (!bindings'.contains name) = true
      ↔ (!bindings.contains name) = true
        ∧ name ∉ unboundNames bindings first := by
    intro name
    rw [Bool.not_eq_true', Bool.not_eq_true', ← Bool.not_eq_true,
      ← Bool.not_eq_true, h, not_or]
  have hrest :
        ((variableNames second).filter
          fun name => !bindings.contains name).removeAll
        ((variableNames first).filter fun name => !bindings.contains name)
      = (variableNames second).filter
        fun name => !bindings'.contains name := by
    rw [List.removeAll, List.filter_filter]
    refine List.filter_congr fun name _ => ?_
    rw [Bool.eq_iff_iff, hfree, unboundNames, List.mem_eraseDups,
      ← List.elem_iff, Bool.and_eq_true, Bool.not_eq_true', Bool.not_eq_true,
      and_comm]
  rw [unboundNames, variableNames_append, List.filter_append,
    List.eraseDups_append, hrest]
  rfl

/-- What is asked of the first tokens comes first. -/
theorem unboundNames_front (bindings : Bindings) (first second : List Token) :
    unboundNames bindings first
      <+: unboundNames bindings (first ++ second) := by
  rw [unboundNames, unboundNames, variableNames_append, List.filter_append,
    List.eraseDups_append]
  exact List.prefix_append _ _

end Names

-- ============================================================== the inquiries

/-- What a computation asks for, of the names that it may ask for, and what
comes of it. -/
structure Inquiry {α : Type} (names : List String) (before : Bindings)
    (asked : List (String × Except Failure Value))
    (result : Except Failure α × Bindings) :
    Prop where
  names_front : asked.map Prod.fst <+: names
  /-- What succeeds has asked for everything, and got it. -/
  complete : ∀ a, result.1 = .ok a → asked.map Prod.fst = names
    ∧ ∀ question ∈ asked, ∃ x, Event.accepted? question.2 = some x
  /-- Only the last answer may have been refused. -/
  accepted : ∀ question ∈ asked.dropLast, ∃ x,
    Event.accepted? question.2 = some x
  bindings : ∀ name, result.2.find? name
    = (before.find? name).or ((asked.lookup name).bind Event.accepted?)

private theorem lookup_single (name other : String)
    (answer : Except Failure Value) :
    List.lookup other [(name, answer)]
      = if other = name then some answer else none := by
  by_cases h : other = name
  · simp [h]
  · rw [List.lookup_cons, beq_eq_false_iff_ne.mpr h, if_neg h]
    rfl

namespace Inquiry

variable {α β : Type} {names : List String} {before between : Bindings}
variable {asked asked' : List (String × Except Failure Value)}

/-- Nobody is asked. -/
theorem silent (outcome : Except Failure α) (before : Bindings) :
    Inquiry [] before [] (outcome, before) := by
  refine ⟨List.prefix_rfl, ?_, ?_, ?_⟩ <;> simp

/-- A single question, whose answer is accepted. -/
theorem answered {name : String} {answer : Except Failure Value} {x : Float}
    (hunbound : before.find? name = none)
    (hx : Event.accepted? answer = some x) (outcome : Except Failure α) :
    Inquiry [name] before [(name, answer)]
      (outcome, before.insert name x) := by
  refine ⟨List.prefix_rfl, fun _ _ => ⟨rfl, ?_⟩, by simp, fun other => ?_⟩
  · simp [hx]
  · rw [NameMap.find?_insert, lookup_single]
    by_cases hname : other = name
    · simp [hname, hunbound, hx]
    · simp [hname]

/-- A single question, whose answer is refused. -/
theorem refused {name : String} {answer : Except Failure Value}
    (hx : Event.accepted? answer = none) (failure : Failure) :
    Inquiry (α := α) [name] before [(name, answer)]
      (.error failure, before) := by
  refine ⟨List.prefix_rfl, by simp, by simp, fun other => ?_⟩
  rw [lookup_single]
  by_cases hname : other = name <;> simp [hname, hx]

/-- After a success the names that were asked for are bound, and no other
new ones. -/
theorem contains_iff {a : α} (h : Inquiry names before asked (.ok a, between))
    (name : String) :
    between.contains name = true
      ↔ before.contains name = true ∨ name ∈ names := by
  obtain ⟨hnames, haccepted⟩ := h.complete a rfl
  rw [NameMap.contains, h.bindings, Option.isSome_or, Bool.or_eq_true,
    ← hnames]
  refine or_congr Iff.rfl ?_
  constructor
  · intro hsome
    obtain ⟨x, hx⟩ := Option.isSome_iff_exists.mp hsome
    obtain ⟨answer, hanswer, -⟩ := Option.bind_eq_some_iff.mp hx
    obtain ⟨front, back, heq, -⟩ := List.lookup_eq_some_iff.mp hanswer
    simp [heq]
  · intro hmem
    cases hlookup : asked.lookup name with
    | none =>
        rw [List.lookup_eq_none_iff] at hlookup
        obtain ⟨question, hquestion, heq⟩ := List.mem_map.mp hmem
        simpa [heq] using hlookup question hquestion
    | some answer =>
        obtain ⟨front, back, heq, -⟩ := List.lookup_eq_some_iff.mp hlookup
        obtain ⟨x, hx⟩ := haccepted (name, answer) (by simp [heq])
        simp [hx]

/-- What follows a success asks for the names that are then unbound. -/
theorem next {a : α} {first second : List Token}
    {result : Except Failure β × Bindings}
    (h : Inquiry (unboundNames before first) before asked (.ok a, between))
    (h' : Inquiry (unboundNames between second) between asked' result) :
    Inquiry (unboundNames before (first ++ second)) before (asked ++ asked')
      result := by
  obtain ⟨hnames, haccepted⟩ := h.complete a rfl
  have happend := unboundNames_append h.contains_iff second
  rw [happend]
  refine ⟨?_, fun b hb => ?_, fun question hquestion => ?_, fun name => ?_⟩
  · rw [List.map_append, hnames]
    exact (List.prefix_append_right_inj _).mpr h'.names_front
  · obtain ⟨hnames', haccepted'⟩ := h'.complete b hb
    rw [List.map_append, hnames, hnames']
    exact ⟨rfl, fun question hquestion =>
      (List.mem_append.mp hquestion).elim (haccepted question)
        (haccepted' question)⟩
  · cases hasked' : asked' with
    | nil =>
        rw [hasked', List.append_nil] at hquestion
        exact haccepted question (List.dropLast_subset _ hquestion)
    | cons =>
        rw [List.dropLast_append_of_ne_nil (by simp [hasked'])] at hquestion
        exact (List.mem_append.mp hquestion).elim (haccepted question)
          (h'.accepted question)
  · rw [h'.bindings, h.bindings, List.lookup_append, Option.or_assoc]
    congr 1
    -- a name that was asked for has its answer, whatever is asked later
    cases hlookup : asked.lookup name with
    | none => simp
    | some answer =>
        obtain ⟨front, back, heq, -⟩ := List.lookup_eq_some_iff.mp hlookup
        obtain ⟨x, hx⟩ := haccepted (name, answer) (by simp [heq])
        simp [hx]

/-- Where a failure ends a computation nothing more is asked. -/
theorem halt {first : List Token} {outcome : Except Failure α}
    (h : Inquiry (unboundNames before first) before asked (outcome, between))
    (failure : Failure) (second : List Token) :
    Inquiry (α := β) (unboundNames before (first ++ second)) before asked
      (.error failure, between) :=
  ⟨h.names_front.trans (unboundNames_front before first second), by simp,
    h.accepted, h.bindings⟩

end Inquiry

-- =============================================================== the machine

section Machine

variable {σ α : Type}

/-- The recorded computation does what the plain one does, and the questions
that it notes are those of the variables among the tokens. -/
def Inquires (tokens : List Token)
    (plain : StateM σ (Except Failure α × Bindings))
    (recorded : StateM (History × σ) (Except Failure α × Bindings))
    (before : Bindings) :
    Prop :=
  ∀ history world, ∃ history' asked,
    recorded.run (history, world)
        = ((plain.run world).1, (history', (plain.run world).2))
      ∧ history'.questions = history.questions ++ asked
      ∧ Inquiry (unboundNames before tokens) before asked (plain.run world).1

variable (ctx : Context) (resolver : Resolver (StateM σ))

/-- What has nothing to ask for. -/
theorem inquires_silent {tokens : List Token} {before : Bindings}
    (h : unboundNames before tokens = []) (outcome : Except Failure α) :
    Inquires (σ := σ) tokens (pure (outcome, before)) (pure (outcome, before))
      before := by
  intro history world
  refine ⟨history, [], rfl, (List.append_nil _).symm, ?_⟩
  rw [h]
  exact .silent outcome before

/-- Looking a variable up asks for it if it is not bound. -/
theorem inquires_variableValue {token : Token}
    (hkind : token.kind = .identifier) (before : Bindings) :
    Inquires [token] (variableValue ctx resolver token before)
      (variableValue ctx resolver.recorded token before) before := by
  cases hfind : before.find? token.text with
  | some x =>
      rw [variableValue_bound hfind, variableValue_bound hfind]
      exact inquires_silent
        (unboundNames_bound (by simp [NameMap.contains, hfind])) _
  | none =>
      intro history world
      generalize hask : (resolver.ask token.text).run world = replied
      obtain ⟨answer, world'⟩ := replied
      have hrecorded : (resolver.recorded.ask token.text).run (history, world)
          = (answer, (.asked token.text answer :: history, world')) := by
        rw [Resolver.recorded_ask, hask]
      rw [unboundNames_unbound hkind (by simp [NameMap.contains, hfind])]
      cases haccept : accept ctx token answer with
      | ok x =>
          rw [variableValue_accepted hfind hask haccept,
            variableValue_accepted hfind hrecorded haccept]
          exact ⟨_, _, rfl, history.questions_asked _ _,
            .answered hfind (accept_eq_ok_iff.mp haccept) _⟩
      | error failure =>
          rw [variableValue_refused hfind hask haccept,
            variableValue_refused hfind hrecorded haccept]
          exact ⟨_, _, rfl, history.questions_asked _ _,
            .refused (accepted?_of_accept_error haccept) _⟩

private theorem inquires_step (token : Token) (stack : Stack)
    (before : Bindings) :
    Inquires [token] (step ctx resolver token stack before)
      (step ctx resolver.recorded token stack before) before := by
  unfold step
  cases hkind : token.kind with
  | identifier =>
      intro history world
      obtain ⟨history', asked, hrun, hquestions, hinquiry⟩ :=
        inquires_variableValue ctx resolver hkind before history world
      dsimp only
      rw [runWorld_bind, runWorld_bind, hrun]
      generalize (variableValue ctx resolver token before).run world = found
        at hinquiry
      obtain ⟨⟨value, after⟩, world'⟩ := found
      refine ⟨history', asked, rfl, hquestions, hinquiry.names_front,
        fun a ha => ?_, hinquiry.accepted, hinquiry.bindings⟩
      cases value with
      | error failure => cases ha
      | ok x => exact hinquiry.complete x rfl
  | _ => exact inquires_silent (unboundNames_other (by simp [hkind])) _

/-- A run asks for the unbound variables of its tokens in their order, for
as long as it goes on: by induction on the tokens, where a step leaves the
names of the rest unbound as far as they were not met yet. -/
theorem inquires_run (tokens : List Token) (stack : Stack)
    (before : Bindings) :
    Inquires tokens (run ctx resolver tokens stack before)
      (run ctx resolver.recorded tokens stack before) before := by
  induction tokens generalizing stack before with
  | nil => exact inquires_silent unboundNames_nil _
  | cons token rest ih =>
      intro history world
      obtain ⟨history', asked, hstep, hquestions, hinquiry⟩ :=
        inquires_step ctx resolver token stack before history world
      rw [run, run, runWorld_bind, runWorld_bind, hstep,
        ← List.singleton_append]
      generalize (step ctx resolver token stack before).run world = after
        at hinquiry
      obtain ⟨⟨outcome, between⟩, world'⟩ := after
      dsimp only at hinquiry ⊢
      cases outcome with
      | error failure =>
          exact ⟨history', asked, rfl, hquestions, hinquiry.halt failure rest⟩
      | ok middle =>
          cases hchecked : (Except.ok middle).bind (checkDepth ctx token) with
          | error failure =>
              exact ⟨history', asked, rfl, hquestions,
                hinquiry.halt failure rest⟩
          | ok middle' =>
              obtain ⟨history'', asked', hrest, hquestions', hinquiry'⟩ :=
                ih middle' between history' world'
              refine ⟨history'', asked ++ asked', hrest, ?_,
                hinquiry.next hinquiry'⟩
              rw [hquestions', hquestions, List.append_assoc]

private theorem inquires_evaluatePostfix (tokens : List Token)
    (before : Bindings) :
    Inquires tokens (evaluatePostfix ctx resolver tokens before)
      (evaluatePostfix ctx resolver.recorded tokens before) before := by
  intro history world
  obtain ⟨history', asked, hrun, hquestions, hinquiry⟩ :=
    inquires_run ctx.orStandard resolver tokens [] before history world
  rw [evaluatePostfix, evaluatePostfix, runWorld_bind, runWorld_bind, hrun]
  generalize (run ctx.orStandard resolver tokens [] before).run world = after
    at hinquiry
  obtain ⟨⟨outcome, bindings⟩, world'⟩ := after
  refine ⟨history', asked, rfl, hquestions, hinquiry.names_front,
    fun x hx => ?_, hinquiry.accepted, hinquiry.bindings⟩
  cases outcome with
  | error failure => cases hx
  | ok stack => exact hinquiry.complete stack rfl

/-- What succeeds has been answered. -/
theorem Inquires.accepted {α : Type} {tokens : List Token}
    {before between : Bindings}
    {plain : StateM σ (Except Failure α × Bindings)}
    {recorded : StateM (History × σ) (Except Failure α × Bindings)} {a : α}
    {history history' : History} {world world' : σ}
    (h : Inquires tokens plain recorded before)
    (hrun : recorded.run (history, world)
      = ((.ok a, between), (history', world')))
    {question : String × Except Failure Value}
    (hquestion : question ∈ history'.questions) :
    question ∈ history.questions
      ∨ ∃ x, Event.accepted? question.2 = some x := by
  obtain ⟨last, asked, hrecorded, hquestions, hinquiry⟩ := h history world
  rw [hrun] at hrecorded
  obtain ⟨hplain, hworlds⟩ := Prod.mk.inj hrecorded
  obtain ⟨rfl, -⟩ := Prod.mk.inj hworlds
  rw [hquestions, List.mem_append] at hquestion
  exact hquestion.imp_right
    ((hinquiry.complete a (by rw [← hplain])).2 question)

/-- A run that gets through has accepted every answer. -/
theorem accepted_of_run {tokens : List Token} {stack : Stack}
    {before between : Bindings} {history : History} {world world' : σ}
    (hrun : (run ctx resolver.recorded tokens [] before).run ([], world)
      = ((.ok stack, between), (history, world'))) :
    ∀ question ∈ history.questions, ∃ x,
      Event.accepted? question.2 = some x := by
  intro question hquestion
  have hnone : question ∉ History.questions [] := List.not_mem_nil
  exact ((inquires_run ctx resolver tokens [] before).accepted hrun
    hquestion).resolve_left
    hnone

/-- And so has a step after it. -/
theorem accepted_of_run_step {tokens : List Token} {token : Token}
    {stack stack' : Stack} {before between bindings : Bindings}
    {history history' : History} {world world' after : σ}
    (hrun : (run ctx resolver.recorded tokens [] before).run ([], world)
      = ((.ok stack, between), (history, world')))
    (hstep : (step ctx resolver.recorded token stack between).run
      (history, world') = ((.ok stack', bindings), (history', after))) :
    ∀ question ∈ history'.questions, ∃ x,
      Event.accepted? question.2 = some x := by
  intro question hquestion
  rcases (inquires_step ctx resolver token stack between).accepted hstep
      hquestion with
    hearlier | haccepted
  · exact accepted_of_run ctx resolver hrun question hearlier
  · exact haccepted

end Machine

-- ============================================================ the calculator

/-- The variables stand in the postfix form in the order in which they stand
in the text. -/
theorem variables_toPostfix {g : Grammar} {tokens output : List Token}
    (h : toPostfix g tokens = .ok output) :
    variableNames output = variableNames tokens := by
  obtain ⟨out, c, hfeed, -, hinside, rfl⟩ := toPostfix_eq_ok_iff.mp h
  have haccounted := Converter.accounted_feed hfeed
  rw [← List.append_nil c.stack] at haccounted
  obtain ⟨order, waiting, hall⟩ := haccounted.release hinside
  obtain rfl : waiting = [] := List.map_eq_nil_iff.mp hall.stack_eq
  have hperm := hall.perm
  rw [List.filter_nil, List.append_nil] at hperm
  have hoperands := operands_eq hperm hall.ordered
  rw [hall.out_eq] at hoperands
  -- the variables are some of the operands
  have hamong : ∀ tokens : List Token, tokens.filter (·.kind == .identifier)
      = (tokens.filter (·.kind.isOperand)).filter (·.kind == .identifier) := by
    intro tokens
    rw [List.filter_filter]
    refine List.filter_congr fun token _ => ?_
    cases token.kind <;> rfl
  rw [variableNames, variableNames, hamong, hoperands, ← hamong]

namespace Calculator

variable {σ : Type} (c : Calculator) (resolver : Resolver (StateM σ))

/-- What a calculation asks for once its text has a postfix form. -/
theorem inquiry_evaluate {text : String} {output : List Token}
    (hform : c.toPostfix text = .ok output) (world : σ) :
    let after := (c.evaluate resolver.recorded text).run ([], world)
    (after.1, after.2.2) = (c.evaluate resolver text).run world
      ∧ Inquiry (unboundNames c.bindings output) c.bindings after.2.1.questions
        (after.1.1, after.1.2.bindings) := by
  obtain ⟨history, asked, hrun, hquestions, hinquiry⟩ :=
    inquires_evaluatePostfix (c.context text) resolver output c.bindings
      [] world
  have hasked : history.questions = asked := hquestions
  rw [run_evaluate_of_toPostfix hform, run_evaluate_of_toPostfix hform, hrun]
  refine ⟨rfl, ?_⟩
  rw [← hasked] at hinquiry
  exact hinquiry

/-- What one calculation asks for. A text that does not scan or convert asks
for nothing and leaves the calculator as it is. Otherwise the names that are
asked for are, from the front, those of the variables of the text that were
not bound before, each once and in the order in which they first occur, and
all of them if there is a value. Only the last answer may have been refused.
The others are what the calculation adds to the bindings, however it ends. -/
theorem evaluate_asks_in_order (text : String) (world : σ) :
    let after := (c.evaluate resolver.recorded text).run ([], world)
    let asked := after.2.1.questions
    (after.1, after.2.2) = (c.evaluate resolver text).run world
    ∧ (∀ failure, c.toPostfix text = .error failure →
      after.1 = (.error failure, c) ∧ asked = [])
    ∧ ∀ tokens output,
      Token.scan c.functions c.settings.limits text = .ok tokens →
      c.toPostfix text = .ok output →
        (asked.map Prod.fst).Nodup
        ∧ asked.map Prod.fst <+: unboundNames c.bindings tokens
        ∧ (∀ x, after.1.1 = .ok x →
          asked.map Prod.fst = unboundNames c.bindings tokens)
        ∧ (∀ question ∈ asked.dropLast, ∃ x,
          Event.accepted? question.2 = some x)
        ∧ ∀ name, after.1.2.bindings.find? name
          = (c.bindings.find? name).or
            ((asked.lookup name).bind Event.accepted?) := by
  intro after asked
  cases hform : c.toPostfix text with
  | error failure =>
      have hafter : after = ((.error failure, c), [], world) :=
        run_evaluate_of_toPostfix_error hform _
      have hasked : asked = [] := by
        show after.2.1.questions = []
        rw [hafter]
        rfl
      refine ⟨?_, ?_, by simp⟩
      · rw [hafter, run_evaluate_of_toPostfix_error hform]
      · rintro failure' heq
        cases heq
        exact ⟨by rw [hafter], hasked⟩
  | ok form =>
      obtain ⟨hplain, hinquiry⟩ := c.inquiry_evaluate resolver hform world
      refine ⟨hplain, by simp, fun tokens output hscan _ => ?_⟩
      -- the postfix form has the variables of the tokens in their order
      rw [toPostfix, hscan] at hform
      have hnames :
          unboundNames c.bindings form = unboundNames c.bindings tokens := by
        rw [unboundNames, unboundNames, variables_toPostfix hform]
      rw [hnames] at hinquiry
      exact ⟨(nodup_unboundNames c.bindings tokens).sublist
        hinquiry.names_front.sublist, hinquiry.names_front, fun x hx =>
          (hinquiry.complete x hx).1, hinquiry.accepted,
        hinquiry.bindings⟩

end Calculator

end Reckoner

/-
Sessions: a calculator in use, and the history that goes with it.

A session is whatever is done to one calculator, step by step, with a
resolver that may do anything. The history of a session is written down
beside it, the questions by the resolver itself (`Resolver.recorded`) and
the binds and clears as they are performed. What the calculator has bound
is what the history says (`Agrees`), from the first bind on: the
agreement is kept by looking a variable up, which is the only place where
an evaluation touches the bindings, hence by every step of the stack
machine, whether it goes on or fails, hence by evaluations and sessions
(`variables_of_run`).

Writing the history down changes nothing else, so both are shown at once
(`Tracks`): a recorded run does what the plain one does, and its history
agrees with the bindings it leaves.
-/
import Reckoner.Proofs.Calculator.History
import Reckoner.Proofs.Evaluation.Calculation

namespace Reckoner

open Evaluation History

-- ============================================================= the sessions

/-- A calculator and the copy of its variables that was handed out last,
which the user may edit. -/
structure Session where
  calculator : Calculator
  copy : Bindings := .empty

/-- What may be done in a session. -/
inductive Action where
  | evaluate (text : String)
  | tryEvaluate (text : String)
  | bind (name : String) (x : Float)
  | clear
  | copy
  | edit (change : Bindings → Bindings)

namespace Session

variable {m : Type → Type} [Monad m]

/-- A session on a new calculator. -/
def start (settings : Settings) (functions : Registry)
    (initial : List (String × Float)) : Session :=
  { calculator := .new settings functions initial }

/-- One action. Values and failures are for the user to see and have no
further effect. -/
def perform (resolver : Resolver m) (s : Session) : Action → m Session
  | .evaluate text => do
      let (_, calculator) ← s.calculator.evaluate resolver text
      pure { s with calculator }
  | .tryEvaluate text => do
      let (_, calculator) ← s.calculator.tryEvaluate resolver text
      pure { s with calculator }
  | .bind name x => pure { s with calculator := s.calculator.bind name x }
  | .clear => pure { s with calculator := s.calculator.clear }
  | .copy => pure { s with copy := s.calculator.bindings }
  | .edit change => pure { s with copy := change s.copy }

/-- Actions, one after the other. -/
def run (resolver : Resolver m) : Session → List Action → m Session
  | s, [] => pure s
  | s, action :: rest => do
      let s ← s.perform resolver action
      run resolver s rest

end Session

-- ============================================================ the recording

variable {σ : Type}

/-- A resolver that writes down what it was asked and what it answered. -/
def Resolver.recorded (resolver : Resolver (StateM σ)) :
    Resolver (StateM (History × σ)) where
  ask name := fun state =>
    let answered := (resolver.ask name).run state.2
    (answered.1, (.asked name answered.1 :: state.1, answered.2))

theorem Resolver.recorded_ask (resolver : Resolver (StateM σ)) (name : String)
    (history : History) (world : σ) :
    (resolver.recorded.ask name).run (history, world)
      = (((resolver.ask name).run world).1,
          (.asked name ((resolver.ask name).run world).1 :: history,
            ((resolver.ask name).run world).2)) := rfl

/-- What an action itself does to the variables. -/
def Action.events : Action → History
  | .bind name x => [.bound name x]
  | .clear => [.cleared]
  | .evaluate _ | .tryEvaluate _ | .copy | .edit _ => []

/-- The initial variables as binds. -/
def History.initial (initial : List (String × Float)) : History :=
  (initial.map fun (name, x) => .bound name x).reverse

namespace Session

/-- An action, with its events noted in the history. -/
def performRecorded (resolver : Resolver (StateM σ)) (s : Session)
    (action : Action) :
    StateM (History × σ) Session := do
  let s ← s.perform resolver.recorded action
  modify fun (history, world) => (action.events ++ history, world)
  pure s

/-- Actions one after the other, with their events noted. -/
def runRecorded (resolver : Resolver (StateM σ)) :
    Session → List Action → StateM (History × σ) Session
  | s, [] => pure s
  | s, action :: rest => do
      let s ← s.performRecorded resolver action
      runRecorded resolver s rest

end Session

-- ============================================================ the agreement

/-- Bindings are what a history says, in which nobody was asked for a
name that stood for something. -/
structure Agrees (history : History) (bindings : Bindings) : Prop where
  asked : history.AskedUnbound
  values : ∀ name, bindings.find? name = history.valueOf name

/-- The recorded computation does what the plain one does and keeps the
agreement of the history with the bindings; `after` finds those in the
result. -/
def Tracks {α : Type} (after : α → Bindings) (plain : StateM σ α)
    (recorded : StateM (History × σ) α) (bindings : Bindings) : Prop :=
  ∀ history world, Agrees history bindings →
    ∃ history', recorded.run (history, world)
        = ((plain.run world).1, (history', (plain.run world).2))
      ∧ Agrees history' (after (plain.run world).1)

section Agreement

variable {history : History} {bindings : Bindings} {α β : Type}

private theorem agrees_empty : Agrees [] .empty :=
  ⟨askedUnbound_nil, fun _ => rfl⟩

theorem Agrees.bound (h : Agrees history bindings) (name : String)
    (x : Float) :
    Agrees (.bound name x :: history) (bindings.insert name x) := by
  refine ⟨h.asked.cons (by simp), fun other => ?_⟩
  rw [NameMap.find?_insert, valueOf_bound, h.values]

theorem Agrees.cleared (h : Agrees history bindings) :
    Agrees (.cleared :: history) .empty :=
  ⟨h.asked.cons (by simp), fun _ => valueOf_cleared.symm⟩

/-- A question for a name that is not bound, whose answer is accepted. -/
theorem Agrees.accepted {name : String} {answer : Except Failure Value}
    {x : Float} (h : Agrees history bindings)
    (hunbound : bindings.find? name = none)
    (haccepted : Event.accepted? answer = some x) :
    Agrees (.asked name answer :: history) (bindings.insert name x) := by
  have hnone : history.valueOf name = none := by rw [← h.values, hunbound]
  refine ⟨h.asked.cons_asked hnone, fun other => ?_⟩
  rw [NameMap.find?_insert, valueOf_asked answer hnone, haccepted, h.values]

theorem Agrees.refused {name : String} {answer : Except Failure Value}
    (h : Agrees history bindings) (hunbound : bindings.find? name = none)
    (hrefused : Event.accepted? answer = none) :
    Agrees (.asked name answer :: history) bindings := by
  have hnone : history.valueOf name = none := by rw [← h.values, hunbound]
  refine ⟨h.asked.cons_asked hnone, fun other => ?_⟩
  rw [valueOf_asked answer hnone, hrefused]
  split
  · next heq => rw [heq, hunbound]
  · exact h.values other

theorem Agrees.initial (initial : List (String × Float)) :
    Agrees (.initial initial) (.ofList initial) := by
  -- the binds are performed in order but listed the latest first
  suffices key : ∀ (rest : List (String × Float)) {history : History}
      {bindings : Bindings}, Agrees history bindings →
      Agrees ((rest.map fun (name, x) => .bound name x).reverse ++ history)
        (rest.foldl (fun map binding => map.insert binding.1 binding.2)
          bindings) by
    have hall := key initial agrees_empty
    rwa [List.append_nil] at hall
  intro rest
  induction rest with
  | nil => exact fun h => h
  | cons binding rest ih =>
      intro history bindings h
      have hrest := ih (h.bound binding.1 binding.2)
      simpa using hrest

theorem Tracks.pure {after : α → Bindings} {a : α} (h : after a = bindings) :
    Tracks after (Pure.pure a : StateM σ α) (Pure.pure a) bindings := by
  intro history world hagrees
  exact ⟨history, rfl, h ▸ hagrees⟩

theorem Tracks.bind {after : α → Bindings} {after' : β → Bindings}
    {x : StateM σ α} {x' : StateM (History × σ) α} {f : α → StateM σ β}
    {f' : α → StateM (History × σ) β} (hx : Tracks after x x' bindings)
    (hf : ∀ a, Tracks after' (f a) (f' a) (after a)) :
    Tracks after' (x >>= f) (x' >>= f') bindings := by
  intro history world hagrees
  obtain ⟨middle, hrun, hmiddle⟩ := hx history world hagrees
  obtain ⟨last, hrest, hlast⟩ :=
    hf (x.run world).1 middle (x.run world).2 hmiddle
  refine ⟨last, ?_, hlast⟩
  rw [runWorld_bind, hrun]
  exact hrest

end Agreement

-- ============================================================== the machine

section Machine

variable {ctx : Context} {resolver : Resolver (StateM σ)}

/-- An answer is accepted as the history has it. -/
theorem accept_eq_ok_iff {token : Token} {answer : Except Failure Value}
    {x : Float} :
    accept ctx token answer = .ok x ↔ Event.accepted? answer = some x := by
  unfold accept Event.accepted?
  cases answer with
  | ok value =>
      dsimp only
      cases finiteValue value with
      | ok found => cases found <;> simp
      | error breakdown => simp
  | error failure =>
      cases failure with
      | diagnosed d =>
          dsimp only
          split <;> simp
      | broken breakdown => simp

theorem accepted?_of_accept_error {token : Token}
    {answer : Except Failure Value}
    {failure : Failure} (h : accept ctx token answer = .error failure) :
    Event.accepted? answer = none := by
  cases haccepted : Event.accepted? answer with
  | none => rfl
  | some x =>
      rw [accept_eq_ok_iff.mpr haccepted] at h
      cases h

/-- Looking a variable up keeps the agreement: a bound one is not asked
for, and the answer for any other is bound if it is accepted. -/
theorem tracks_variableValue (token : Token) (bindings : Bindings) :
    Tracks Prod.snd (variableValue ctx resolver token bindings)
      (variableValue ctx resolver.recorded token bindings) bindings := by
  cases hfind : bindings.find? token.text with
  | some x =>
      rw [variableValue_bound hfind, variableValue_bound hfind]
      exact Tracks.pure rfl
  | none =>
      intro history world h
      generalize hask : (resolver.ask token.text).run world = asked
      obtain ⟨answer, world'⟩ := asked
      -- both resolvers give the same answer, and it decides what is bound
      have hrecorded : (resolver.recorded.ask token.text).run (history, world)
          = (answer, (.asked token.text answer :: history, world')) := by
        rw [Resolver.recorded_ask, hask]
      cases haccept : accept ctx token answer with
      | ok x =>
          rw [variableValue_accepted hfind hask haccept,
            variableValue_accepted hfind hrecorded haccept]
          exact ⟨_, rfl, h.accepted hfind (accept_eq_ok_iff.mp haccept)⟩
      | error failure =>
          rw [variableValue_refused hfind hask haccept,
            variableValue_refused hfind hrecorded haccept]
          exact ⟨_, rfl, h.refused hfind (accepted?_of_accept_error haccept)⟩

/-- So does every step of the stack machine. -/
theorem tracks_step (token : Token) (stack : Stack) (bindings : Bindings) :
    Tracks Prod.snd (step ctx resolver token stack bindings)
      (step ctx resolver.recorded token stack bindings) bindings := by
  unfold step
  cases token.kind with
  | identifier =>
      exact (tracks_variableValue token bindings).bind fun _ => Tracks.pure rfl
  | _ => exact Tracks.pure rfl

/-- And every run, however it ends. -/
theorem tracks_run (tokens : List Token) (stack : Stack)
    (bindings : Bindings) :
    Tracks Prod.snd (run ctx resolver tokens stack bindings)
      (run ctx resolver.recorded tokens stack bindings) bindings := by
  induction tokens generalizing stack bindings with
  | nil => exact Tracks.pure rfl
  | cons token rest ih =>
      rw [run, run]
      refine (tracks_step token stack bindings).bind fun after => ?_
      dsimp only
      cases after.1.bind (checkDepth ctx token) with
      | ok stack => exact ih stack after.2
      | error failure => exact Tracks.pure rfl

end Machine

-- =========================================================== the calculator

section Evaluations

variable {resolver : Resolver (StateM σ)}

/-- An evaluation changes its bindings by what it asks for alone. -/
theorem tracks_evaluate (c : Calculator) (text : String) :
    Tracks (fun result => result.2.bindings) (c.evaluate resolver text)
      (c.evaluate resolver.recorded text) c.bindings := by
  unfold Calculator.evaluate
  cases c.toPostfix text with
  | error failure => exact Tracks.pure rfl
  | ok tokens =>
      have hvalue : Tracks Prod.snd
          (evaluatePostfix (c.context text) resolver tokens c.bindings)
          (evaluatePostfix (c.context text) resolver.recorded tokens
            c.bindings)
          c.bindings :=
        (tracks_run tokens [] c.bindings).bind fun _ => Tracks.pure rfl
      exact hvalue.bind fun _ => Tracks.pure rfl

private theorem tracks_tryEvaluate (c : Calculator) (text : String) :
    Tracks (fun result => result.2.bindings) (c.tryEvaluate resolver text)
      (c.tryEvaluate resolver.recorded text) c.bindings :=
  (tracks_evaluate c text).bind fun _ => Tracks.pure rfl

end Evaluations

-- ============================================================= the sessions

namespace Session

variable {resolver : Resolver (StateM σ)}

/-- Every action keeps the agreement, with its own events noted. -/
theorem tracks_perform (s : Session) (action : Action) :
    Tracks (fun s => s.calculator.bindings) (s.perform resolver action)
      (s.performRecorded resolver action) s.calculator.bindings := by
  cases action with
  | evaluate text =>
      have h : Tracks (fun s => s.calculator.bindings)
          (s.perform resolver (.evaluate text))
          (s.perform resolver.recorded (.evaluate text))
            s.calculator.bindings :=
        (tracks_evaluate s.calculator text).bind fun _ => Tracks.pure rfl
      exact h
  | tryEvaluate text =>
      have h : Tracks (fun s => s.calculator.bindings)
          (s.perform resolver (.tryEvaluate text))
          (s.perform resolver.recorded (.tryEvaluate text))
            s.calculator.bindings :=
        (tracks_tryEvaluate s.calculator text).bind fun _ => Tracks.pure rfl
      exact h
  | bind name x =>
      exact fun history world h =>
        ⟨.bound name x :: history, rfl, h.bound name x⟩
  | clear => exact fun history world h => ⟨.cleared :: history, rfl, h.cleared⟩
  | copy => exact fun history world h => ⟨history, rfl, h⟩
  | edit change => exact fun history world h => ⟨history, rfl, h⟩

/-- And so does every session. -/
theorem tracks_run (s : Session) (actions : List Action) :
    Tracks (fun s => s.calculator.bindings) (s.run resolver actions)
      (s.runRecorded resolver actions) s.calculator.bindings := by
  induction actions generalizing s with
  | nil => exact Tracks.pure rfl
  | cons action rest ih =>
      rw [run, runRecorded]
      exact (s.tracks_perform action).bind fun s => ih s

/-- However a calculator is used, with whatever resolver: its variables
are the names that were bound since the last clear, each with the value
it was bound to last, and the names for which an answer was accepted, with
the answer. The resolver was never asked for a name that stood for
something, and at no time had a second answer been accepted for a name
since the last clear. The history that says so is a by-product; without
it the session goes the same way. -/
theorem variables_of_run (settings : Settings) (functions : Registry)
    (initial : List (String × Float)) (resolver : Resolver (StateM σ))
    (actions : List Action) (world : σ) :
    ∃ history : History,
      let after :=
        ((start settings functions initial).run resolver actions).run world
      ((start settings functions initial).runRecorded resolver actions).run
          (.initial initial, world)
        = (after.1, (history, after.2))
      ∧ (∀ name, after.1.calculator.bindings.find? name
          = (history.bindsOf name).head?.or (history.answersFor name).head?)
      ∧ (∀ (later earlier : History) name answer,
          history = later ++ .asked name answer :: earlier →
            earlier.valueOf name = none)
      ∧ ∀ (later earlier : History) name, history = later ++ earlier →
          (earlier.answersFor name).length ≤ 1 := by
  have htracks : Tracks (fun s => s.calculator.bindings)
      ((start settings functions initial).run resolver actions)
      ((start settings functions initial).runRecorded resolver actions)
      (.ofList initial) := tracks_run _ _
  obtain ⟨history, hrun, hagrees⟩ := htracks _ world (Agrees.initial initial)
  refine ⟨history, hrun, hagrees.values,
    fun later earlier name answer =>
      hagrees.asked later name answer earlier, ?_⟩
  intro later earlier name heq
  have hearlier : AskedUnbound earlier := by
    intro later' name answer earliest hsplit
    refine hagrees.asked (later ++ later') name answer earliest ?_
    rw [heq, hsplit, List.append_assoc]
  exact hearlier.length_answersFor_le_one name

end Session

end Reckoner

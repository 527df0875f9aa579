/-
The dialogue: expressions are read line by line and answered one by one.

A turn writes the prompt, reads a line and acts on it. A blank line is
passed over, `exit` and `quit` in any case end the dialogue, and anything
else is evaluated and answered; while it is evaluated, its variables may
be asked for on the same terminal, which reads further lines. At the end
of the input the dialogue ends with a line feed.

Turns act in any monad that has a terminal. On a console the dialogue is
a function: every turn takes at least one line from the front of the
pending ones and puts none back (`consumes_respond`, `pending_turn_lt`),
so it ends.
-/
import Reckoner.Calculator
import Reckoner.Settings.Library
import Reckoner.Terminal

namespace Reckoner

-- ================================================================= answers

inductive Ending where
  | exit (code : Nat)
  | noSettings (problem : ReadProblem)
  | broken (breakdown : Breakdown)
  deriving DecidableEq, Repr

/-- The answer to an expression. -/
def answer : Except Diagnostic Float → String
  | .ok x => s!"Result: {formatValue x}\n"
  | .error d => s!"Error: {d.shown}\n"

namespace Dialogue

variable {m : Type → Type} [Monad m]

/-- Evaluates an expression, asking for variables on the terminal, and
writes the answer. Tells whether there was a value. -/
def evaluateLine (terminal : Terminal m) (c : Calculator)
    (expression : String) :
    m (Except Breakdown Bool × Calculator) := do
  let (verdict, c) ← c.tryEvaluate (.prompting terminal) expression
  match verdict with
  | .error breakdown => pure (.error breakdown, c)
  | .ok outcome => do
      terminal.write (answer outcome)
      pure (.ok outcome.isOk, c)

-- =================================================================== turns

def promptText : String := "> "

def banner : String :=
  "Enter an arithmetic expression (for example: x + y - 10)\n"

/-- What a line of the dialogue asks for. -/
inductive Request where
  | nothing
  | leave
  | evaluate (expression : String)
  deriving DecidableEq, Repr

def Request.ofLine (line : String) : Request :=
  let expression := Text.strip line
  let lower := expression.map Char.toLower
  if expression.isEmpty then .nothing
  else if lower = "exit" ∨ lower = "quit" then .leave
  else .evaluate expression

/-- Acts on a line: how the dialogue ends with it, unless it goes on, and
the calculator afterwards. -/
def respond (terminal : Terminal m) (c : Calculator) (line : String) :
    m (Option Ending × Calculator) :=
  match Request.ofLine line with
  | .nothing => pure (none, c)
  | .leave => pure (some (.exit 0), c)
  | .evaluate expression => do
      let (outcome, c) ← evaluateLine terminal c expression
      match outcome with
      | .ok _ => pure (none, c)
      | .error breakdown => pure (some (.broken breakdown), c)

/-- One turn: prompts for a line and acts on it, or ends the dialogue
where there is none. -/
def turn (terminal : Terminal m) (c : Calculator) :
    m (Option Ending × Calculator) := do
  terminal.write promptText
  match ← terminal.readLine with
  | some line => respond terminal c line
  | none =>
      terminal.write "\n"
      pure (some (.exit 0), c)

-- ====================================================== lines are used up

/-- An action that takes its lines from the front of the pending ones and
puts none back. -/
def Consumes {α : Type} (act : StateM Console α) : Prop :=
  ∀ console, (act console).2.pending <:+ console.pending

private theorem consumes_pure {α : Type} (a : α) :
    Consumes (pure a : StateM Console α) :=
  fun _ => List.suffix_refl _

private theorem consumes_bind {α β : Type} {act : StateM Console α}
    {next : α → StateM Console β} (hact : Consumes act)
    (hnext : ∀ a, Consumes (next a)) : Consumes (act >>= next) :=
  fun console => (hnext _ _).trans (hact console)

private theorem consumes_write (text : String) :
    Consumes (Console.terminal.write text) :=
  fun _ => List.suffix_refl _

private theorem consumes_ask (name : String) :
    Consumes ((Resolver.prompting Console.terminal).ask name) := by
  intro console
  rw [Resolver.prompting_console]
  exact List.tail_suffix _

private theorem consumes_step (ctx : Context) (token : Token)
    (stack : Evaluation.Stack) (bindings : Bindings) :
    Consumes (Evaluation.step ctx (.prompting Console.terminal) token stack
      bindings) := by
  unfold Evaluation.step
  cases token.kind with
  | identifier =>
      refine consumes_bind ?_ fun _ => consumes_pure _
      unfold Evaluation.variableValue
      cases bindings.find? token.text with
      | some x => exact consumes_pure _
      | none => exact consumes_bind (consumes_ask _) fun _ => consumes_pure _
  | _ => exact consumes_pure _

private theorem consumes_run (ctx : Context) (tokens : List Token) :
    ∀ (stack : Evaluation.Stack) (bindings : Bindings),
      Consumes (Evaluation.run ctx (.prompting Console.terminal) tokens stack
        bindings) := by
  induction tokens with
  | nil => exact fun _ _ => consumes_pure _
  | cons token rest ih =>
      intro stack bindings
      refine consumes_bind (consumes_step ctx token stack bindings) ?_
      intro (outcome, bindings')
      simp only
      cases outcome.bind (Evaluation.checkDepth ctx token) with
      | error failure => exact consumes_pure _
      | ok stack' => exact ih stack' bindings'

private theorem consumes_evaluateLine (c : Calculator) (expression : String) :
    Consumes (evaluateLine Console.terminal c expression) := by
  refine consumes_bind (consumes_bind ?_ fun _ => consumes_pure _) ?_
  · unfold Calculator.evaluate
    cases c.toPostfix expression with
    | error failure => exact consumes_pure _
    | ok tokens =>
        exact consumes_bind
          (consumes_bind (consumes_run _ tokens [] c.bindings)
            fun _ => consumes_pure _)
          fun _ => consumes_pure _
  · intro (verdict, c')
    cases verdict with
    | error breakdown => exact consumes_pure _
    | ok outcome => exact consumes_bind (consumes_write _) fun _ =>
        consumes_pure _

private theorem consumes_respond (c : Calculator) (line : String) :
    Consumes (respond Console.terminal c line) := by
  unfold respond
  cases Request.ofLine line with
  | nothing => exact consumes_pure _
  | leave => exact consumes_pure _
  | evaluate expression =>
      refine consumes_bind (consumes_evaluateLine c expression) ?_
      intro (outcome, c')
      cases outcome <;> exact consumes_pure _

/-- A turn that finds a line acts on it. -/
theorem turn_line (c : Calculator) (line : String) (rest : List String)
    (transcript : String) :
    turn Console.terminal c ⟨line :: rest, transcript⟩
      = respond Console.terminal c line ⟨rest, transcript ++ promptText⟩ := by
  simp only [turn, bind, StateT.bind, Console.terminal, Console.write,
    Console.readLine]

/-- A turn after which the dialogue goes on has read at least one
line. -/
theorem pending_turn_lt {c c' : Calculator} {console console' : Console}
    (h : turn Console.terminal c console = ((none, c'), console')) :
    console'.pending.length < console.pending.length := by
  obtain ⟨pending, transcript⟩ := console
  cases pending with
  | nil => cases h
  | cons line rest =>
      have hsuffix := consumes_respond c line ⟨rest, transcript ++ promptText⟩
      rw [← turn_line, h] at hsuffix
      exact Nat.lt_succ_of_le hsuffix.length_le

-- ================================================================ the whole

/-- The turns on a console, up to the one that ends the dialogue: how it
ends, and the calculator and the console afterwards. -/
def run (c : Calculator) (console : Console) : Ending × Calculator × Console :=
  match _h : turn Console.terminal c console with
  | ((some ending, c'), console') => (ending, c', console')
  | ((none, c'), console') => run c' console'
termination_by console.pending.length
decreasing_by exact pending_turn_lt ‹_›

end Dialogue

end Reckoner

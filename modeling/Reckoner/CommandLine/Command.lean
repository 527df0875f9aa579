/-
The command: arguments, settings, and then one expression or a dialogue.

The arguments are read first and the settings loaded next; a fault in
either ends the command with code 2 before anything is written. With an
expression the command answers it and ends with code 0 or 1; without one
it greets and holds a dialogue.

The command acts in any monad that has a host for it: a terminal, a way to
read a file, and a dialogue held to its end (`command`). On a console with
files as a value it is a function of everything it can see (`run`); the
program of `Main` is the same command on the real ones.

Main facts: the settings of a run are those of its files
(`loaded_console`), and a command that is refused writes nothing
(`run_refused`).
-/
import Reckoner.CommandLine.Arguments
import Reckoner.Dialogue
import Reckoner.Settings.Load

namespace Reckoner.CommandLine

-- ================================================================ the host

/-- What the command acts on. -/
structure Host (m : Type → Type) where
  terminal : Terminal m
  readFile : String → m (Except Settings.FileProblem String)
  /-- Holds a dialogue to its end. -/
  converse : Calculator → m Ending

/-- A console, and files as a value. -/
def Host.console (files : Settings.Files) : Host (StateM Console) where
  terminal := Console.terminal
  readFile path := pure (files path)
  converse c := fun console =>
    let (ending, _, console) := Dialogue.run c console
    (ending, console)

-- ============================================================= the reports

/-- How the command comes to its end. -/
inductive Conclusion where
  | refused (refusal : Refusal)
  | unsettled (problem : Settings.LoadProblem)
  | ended (ending : Ending)
  deriving DecidableEq, Repr

/-- What a run of the command leaves behind: how it ended, what it wrote,
and what it complained about. -/
structure Report where
  ending : Ending
  output : String := ""
  complaint : String := ""
  deriving DecidableEq, Repr

/-- The report on a conclusion, with what was written before it. Help is no
complaint, and settings that cannot be loaded for a reason without words
are left to the caller. -/
def Conclusion.report (output : String) : Conclusion → Report
  | .refused .help => { ending := .exit 0, output }
  | .refused (.usage message) =>
      { ending := .exit 2, output,
        complaint := s!"rpncalc: error: {message}\n" }
  | .unsettled problem =>
      match problem.message with
      | .ok message =>
          { ending := .exit 2, output
            complaint := s!"rpncalc: invalid configuration: {message}\n" }
      | .error problem => { ending := .noSettings problem, output }
  | .ended ending => { ending, output }

-- ================================================================ the steps

/-- The calculator that arguments and settings describe. -/
def calculator (arguments : Arguments) (settings : Settings) :
    Except Breakdown Calculator :=
  arguments.bindings.map (.new settings Registry.builtin)

/-- The code with which a single expression ends the command. -/
def endingOf : Except Breakdown Bool → Ending
  | .ok true => .exit 0
  | .ok false => .exit 1
  | .error breakdown => .broken breakdown

section Steps

variable {m : Type → Type} [Monad m]

/-- The calculation, once everything is settled. -/
def calculate (host : Host m) (c : Calculator) :
    Option String → m Ending
  | some expression => do
      let (outcome, _) ← Dialogue.evaluateLine host.terminal c expression
      pure (endingOf outcome)
  | none => do
      host.terminal.write Dialogue.banner
      host.converse c

/-- The settings of a run. At most one file is read for them. -/
def loaded (library : Library) (host : Host m) (path : Option String)
    (environment : Environment) :
    m (Except Settings.LoadProblem Settings) := do
  let content ←
    match Settings.filePath? path environment with
    | some file => host.readFile file
    | none => pure (.error .notFound)
  pure (Settings.load library (fun _ => content) path environment)

/-- The whole command. -/
def command (library : Library) (host : Host m) (environment : Environment)
    (argv : List String) : m Conclusion := do
  match Arguments.parse argv with
  | .error refusal => pure (.refused refusal)
  | .ok arguments =>
      match ← loaded library host arguments.config environment with
      | .error problem => pure (.unsettled problem)
      | .ok settings =>
          match calculator arguments settings with
          | .error breakdown => pure (.ended (.broken breakdown))
          | .ok c =>
              let ending ← calculate host c arguments.expression
              pure (.ended ending)

end Steps

/-- A run of the command on an input, with files as a value. -/
def run (library : Library) (argv : List String) (environment : Environment)
    (files : Settings.Files) (input : String) : Report :=
  let (conclusion, console) :=
    command library (.console files) environment argv (.ofText input)
  conclusion.report console.transcript

-- ============================================================== the facts

/-- The settings of a run are those of its files. -/
theorem loaded_console (library : Library) (files : Settings.Files)
    (path : Option String) (environment : Environment) :
    loaded library (.console files) path environment
      = pure (Settings.load library files path environment) := by
  unfold loaded Settings.load
  cases Settings.filePath? path environment with
  | none => rfl
  | some file => rfl

/-- A command whose arguments are refused writes nothing. -/
theorem run_refused {argv : List String} {refusal : Refusal}
    (h : Arguments.parse argv = .error refusal) (library : Library)
    (environment : Environment) (files : Settings.Files) (input : String) :
    (run library argv environment files input).output = "" := by
  have hrun : run library argv environment files input
      = (Conclusion.refused refusal).report "" := by
    unfold run command
    rw [h]
    rfl
  rw [hrun]
  cases refusal <;> rfl

end Reckoner.CommandLine

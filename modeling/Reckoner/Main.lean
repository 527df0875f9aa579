/-
The program: the command on the real terminal, environment and files.

Everything is decided by the command; here are the effects that it is given
to act with, and a dialogue takes its turns until one of them ends it.
-/
import Reckoner.CommandLine.Command
import Reckoner.Settings.Standard

namespace Reckoner

/-- The standard streams. Lines end at line feeds; the last line may lack
one. -/
def standardTerminal : Terminal IO where
  write text := do
    let stream ← IO.getStdout
    stream.putStr text
    stream.flush
  readLine := do
    let stream ← IO.getStdin
    let line ← stream.getLine
    pure <|
      if line.isEmpty then none
      else some ((line.dropSuffix "\n").toString)

/-- The variables of the environment that settings come from. -/
def standardEnvironment : IO Environment := do
  let names := [Settings.fileVariable, Settings.logLevelVariable,
    Settings.associativityVariable, Settings.limitVariable .expressionLength,
    Settings.limitVariable .tokens, Settings.limitVariable .stackDepth]
  let mut environment : Environment := .empty
  for name in names do
    if let some text ← IO.getEnv name then
      environment := environment.insert name text
  pure environment

/-- What is at a path: its text, or why it cannot be read. -/
def readSettingsFile (path : String) :
    IO (Except Settings.FileProblem String) := do
  try
    let text ← IO.FS.readFile path
    pure (.ok text)
  catch problem =>
    match problem with
    | .noFileOrDirectory .. => pure (.error .notFound)
    | .inappropriateType .. => pure (.error .isADirectory)
    | problem => pure (.error ⟨5, toString problem⟩)

/-- Turns of a dialogue until one ends it. -/
partial def converse (c : Calculator) : IO Ending := do
  match ← Dialogue.turn standardTerminal c with
  | (some ending, _) => pure ending
  | (none, c) => converse c

def standardHost : CommandLine.Host IO where
  terminal := standardTerminal
  readFile := readSettingsFile
  converse := converse

/-- Tells the outside how the command ended. -/
def deliver (conclusion : CommandLine.Conclusion) : IO UInt32 := do
  if conclusion = .refused .help then IO.print Arguments.helpText
  let report := conclusion.report ""
  IO.eprint report.complaint
  match report.ending with
  | .exit code => pure code.toUInt32
  | .noSettings problem =>
      IO.eprintln
        s!"rpncalc: the configuration file cannot be used: {repr problem}"
      pure 1
  | .broken breakdown =>
      IO.eprintln s!"rpncalc: {repr breakdown}"
      pure 1

end Reckoner

open Reckoner in
/-- The command on the arguments of the program. -/
def main (argv : List String) : IO UInt32 := do
  let environment ← standardEnvironment
  deliver (← CommandLine.command .standard standardHost environment argv)

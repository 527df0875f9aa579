/-
Terminals: where prompts are written and lines are read.

A terminal acts in a monad of the caller's choice. A `Console` is a
terminal as a value: the lines still to be read and the text written so
far. Lines end at line feeds and nowhere else; the text after the last
line feed is a line if it is not empty.

Main fact: a prompt on a console takes one pending line and no more
(`prompting_console`).
-/
import Reckoner.Resolver

namespace Reckoner

-- ============================================================== terminals

/-- A place to write text to and to read lines from. At the end of the
input there is no line. -/
structure Terminal (m : Type → Type) where
  write : String → m Unit
  readLine : m (Option String)

-- =============================================================== consoles

/-- The lines of a text without their line feeds. -/
def splitLines : List Char → List (List Char)
  | [] => []
  | c :: rest =>
      if c = '\n' then [] :: splitLines rest
      else
        match splitLines rest with
        | [] => [[c]]
        | line :: more => (c :: line) :: more

/-- The lines still to be read and the text written so far. -/
structure Console where
  pending : List String
  transcript : String := ""
  deriving DecidableEq, Repr

namespace Console

def ofText (text : String) : Console :=
  ⟨(splitLines text.toList).map String.ofList, ""⟩

def write (console : Console) (text : String) : Console :=
  { console with transcript := console.transcript ++ text }

def readLine (console : Console) : Option String × Console :=
  match console.pending with
  | [] => (none, console)
  | line :: rest => (some line, { console with pending := rest })

/-- A console as a terminal. -/
def terminal : Terminal (StateM Console) where
  write text := fun console => ((), console.write text)
  readLine := fun console => console.readLine

end Console

-- ============================================================== prompting

/-- What is written before the answer for a variable is read. -/
def Resolver.promptText (name : String) : String :=
  s!"Enter value for variable {name}: "

/-- The answer that a line gives for a variable: the number it spells. -/
def Resolver.answerOfLine (name : String) :
    Option String → Except Failure Value
  | none => .error (.diagnosed ⟨.endOfInput, none, none⟩)
  | some line =>
      let answer := Text.strip line
      match Decimal.read? answer with
      | some x => .ok (.float x)
      | none => .error (.diagnosed ⟨.invalidAnswer name answer, none, none⟩)

/-- Asks on a terminal. -/
def Resolver.prompting {m : Type → Type} [Monad m] (terminal : Terminal m) :
    Resolver m where
  ask name := do
    terminal.write (promptText name)
    let line ← terminal.readLine
    pure (answerOfLine name line)

-- ============================================================== the facts

/-- A prompt on a console writes its text and takes the first pending
line, if there is one. -/
theorem Resolver.prompting_console (name : String) (console : Console) :
    (prompting Console.terminal).ask name console =
      (answerOfLine name console.pending.head?,
        { pending := console.pending.tail
          transcript := console.transcript ++ promptText name }) := by
  obtain ⟨pending, transcript⟩ := console
  cases pending <;> rfl

end Reckoner

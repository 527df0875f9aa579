/-
The arguments of the command.

Each argument is first read on its own (`Word.read`): as an option, with
or without a value attached to it, as an option that does not exist, or
as a plain word. A long option may be shortened as long as it stays
unambiguous; a short one may have its value, or another short option,
attached without a space. What begins with a dash is still a plain word
if it looks like a negative number or holds a space.

Then the words are taken from left to right (`Arguments.take`). An option
that wants a value and has none attached takes the next word if that is
plain. An attached value that is the mark `--` counts as no value, and
whatever uses it has to make do without one. Words left over are refused
at the very end, so a request for help or a fault in an option that comes
before them goes first.

Readers of arguments are not all of one mind. Where they differ these are
the rules of an older one; the two places say what newer ones do
(`unbundle`, `attachedValue`).
-/
import Reckoner.CommandLine.Assignment
import Reckoner.Failure
import Reckoner.Settings

namespace Reckoner

open Text

-- ============================================================== the options

inductive Flag where
  | help
  | expression
  | variable
  | config
  | logLevel
  deriving DecidableEq, Repr

namespace Flag

def all : List Flag := [.help, .expression, .variable, .config, .logLevel]

def spellings : Flag → List String
  | .help => ["-h", "--help"]
  | .expression => ["-e", "--expr"]
  | .variable => ["--var"]
  | .config => ["--config"]
  | .logLevel => ["--log-level"]

def takesValue : Flag → Bool
  | .help => false
  | _ => true

def title (flag : Flag) : String := "/".intercalate flag.spellings

def ofSpelling? (spelling : List Char) : Option Flag :=
  all.find? fun flag => flag.spellings.any fun s => s.toList == spelling

/-- What a shortened long spelling may stand for: the options and their
full spellings. -/
def ofShortened (start : List Char) : List (Flag × String) :=
  all.flatMap fun flag =>
    (flag.spellings.filter fun s => start.isPrefixOf s.toList).map (flag, ·)

end Flag

/-- Why the arguments do not lead to a calculation. -/
inductive Refusal where
  | help
  /-- The arguments are wrong, as the message says. -/
  | usage (message : String)
  deriving DecidableEq, Repr

/-- A refusal on account of an option. -/
def Refusal.of (flag : Flag) (message : String) : Refusal :=
  .usage s!"argument {flag.title}: {message}"

-- ================================================================ the words

/-- One argument, read on its own. -/
inductive Word where
  /-- An option, whether its short spelling was used, and what is attached
  to it: directly or after an equals sign. -/
  | option (flag : Flag) (isShort : Bool) (attached : Option (List Char))
  | unknown (text : String)
  /-- The mark after which every word is plain. -/
  | endOfOptions
  | plain (text : String)
  deriving DecidableEq, Repr

namespace Word

/-- Whether a text looks like a negative number: a dash and digits, with
a point among them or in front. A line feed may follow. -/
def isNegativeNumber (cs : List Char) : Bool :=
  let isDigit (c : Char) := (digitValue? c).isSome
  let body := if cs.getLast? = some '\n' then cs.dropLast else cs
  match body with
  | '-' :: number =>
      match splitFirst '.' number with
      | (whole, none) => !whole.isEmpty && whole.all isDigit
      | (whole, some fraction) =>
          whole.all isDigit && !fraction.isEmpty && fraction.all isDigit
  | _ => false

/-- What begins with a dash and is no option. -/
def dashed (text : String) : Word :=
  if isNegativeNumber text.toList || text.toList.contains ' ' then .plain text
  else .unknown text

/-- One argument, read on its own. -/
def read (text : String) : Except Refusal Word :=
  let cs := text.toList
  match cs with
  | [] => .ok (.plain text)
  | [_] => .ok (.plain text)
  | first :: second :: more =>
      if first ≠ '-' then .ok (.plain text)
      else
        let isShort := second ≠ '-'
        let (start, value) := splitFirst '=' cs
        match Flag.ofSpelling? cs, Flag.ofSpelling? start with
        | some flag, _ => .ok (.option flag isShort none)
        | none, some flag => .ok (.option flag isShort value)
        | none, none =>
            if isShort then
              match Flag.ofSpelling? [first, second] with
              | some flag => .ok (.option flag true (some more))
              | none => .ok (dashed text)
            else
              match Flag.ofShortened start with
              | [(flag, _)] => .ok (.option flag false value)
              | [] => .ok (dashed text)
              | choices =>
                  let spellings := ", ".intercalate (choices.map (·.2))
                  .error (.usage
                    s!"ambiguous option: {text} could match {spellings}")

/-- All arguments, up to the first that cannot be read. -/
def readAll : List String → Except Refusal (List Word)
  | [] => .ok []
  | text :: rest =>
      if text = "--" then .ok (.endOfOptions :: rest.map .plain)
      else do
        let word ← read text
        let words ← readAll rest
        .ok (word :: words)

end Word

-- ============================================================ the arguments

structure Arguments where
  expression : Option String := none
  /-- The variables to bind, in order; where the option came without a
  value, there is none. -/
  assignments : List (Option Assignment) := []
  config : Option String := none
  logLevel : Option LogLevel := none
  deriving DecidableEq, Repr

namespace Arguments

/-- An option refuses what is attached to it. -/
def ignored (flag : Flag) (attached : List Char) : Refusal :=
  .of flag s!"ignored explicit argument {quoted (String.ofList attached)}"

/-- Short options that are written together: those that come first, which
want no value, and the last with the value that is attached to it. A letter
that is no option makes all of them be refused, so `-hx` is a fault. Newer
readers act on the options in front of it first, and print the help. -/
def unbundle (flag : Flag) :
    List Char → Except Refusal (List Flag × Flag × Option String)
  | [] => .ok ([], flag, none)
  | c :: more =>
      if flag.takesValue then .ok ([], flag, some (String.ofList (c :: more)))
      else
        match Flag.ofSpelling? ['-', c] with
        | none => .error (ignored flag (c :: more))
        | some next => do
            let (before, last, value) ← unbundle next more
            .ok (flag :: before, last, value)

/-- The options that one word comes to and the value of the last. -/
def options (flag : Flag) (isShort : Bool) :
    Option (List Char) → Except Refusal (List Flag × Flag × Option String)
  | none => .ok ([], flag, none)
  | some value =>
      if flag.takesValue then .ok ([], flag, some (String.ofList value))
      else if isShort && !value.isEmpty then unbundle flag value
      else .error (ignored flag value)

/-- The arguments with one more option, given its value. An option
without a value takes back what it said before; an expression without
one is empty. -/
def set (arguments : Arguments) (flag : Flag) (value : Option String) :
    Except Refusal Arguments :=
  match flag, value with
  | .help, _ => .error .help
  | .expression, value =>
      .ok { arguments with expression := some (value.getD "") }
  | .variable, none =>
      .ok { arguments with assignments := arguments.assignments ++ [none] }
  | .variable, some value =>
      match Assignment.read value with
      | .ok assignment =>
          .ok { arguments with
            assignments := arguments.assignments ++ [some assignment] }
      | .error fault => .error (.of .variable fault.message)
  | .config, value => .ok { arguments with config := value }
  | .logLevel, none => .ok { arguments with logLevel := none }
  | .logLevel, some value =>
      match LogLevel.ofName? value with
      | some level => .ok { arguments with logLevel := some level }
      | none =>
          let names :=
            ", ".intercalate (LogLevel.all.map fun level => quoted level.name)
          .error (.of .logLevel
            s!"invalid choice: {quoted value} (choose from {names})")

/-- What one word that is an option comes to. -/
structure Choice where
  before : List Flag
  last : Flag
  value : Option String
  /-- How many of the words after it are used for the value. -/
  used : Nat
  deriving DecidableEq, Repr

/-- What an attached value counts as: the mark of the end of options is
no value, so `--config=--` names no file. Newer readers keep the mark as the
value. -/
def attachedValue (value : String) : Option String :=
  some value |>.filter (· != "--")

/-- What an option comes to, given the word after it. A value that is
wanted and not attached is the next word, if that is plain. -/
def choose (flag : Flag) (isShort : Bool) (attached : Option (List Char))
    (next : Option Word) : Except Refusal Choice := do
  let (before, last, value) ← options flag isShort attached
  match value, last.takesValue, next with
  | some value, _, _ => .ok ⟨before, last, attachedValue value, 0⟩
  | none, false, _ => .ok ⟨before, last, none, 0⟩
  | none, true, some (.plain value) => .ok ⟨before, last, some value, 1⟩
  | none, true, _ => .error (.of last "expected one argument")

def apply (arguments : Arguments) (choice : Choice) :
    Except Refusal Arguments := do
  let arguments ←
    choice.before.foldlM (fun arguments flag => arguments.set flag none)
      arguments
  arguments.set choice.last choice.value

def leftText : Word → Option String
  | .option .. => none
  | .unknown text => some text
  | .endOfOptions => some "--"
  | .plain text => some text

/-- The arguments with what the words ask for, and the words left
over. -/
def take (arguments : Arguments) :
    List Word → Except Refusal (Arguments × List String)
  | [] => .ok (arguments, [])
  | .option flag isShort attached :: rest => do
      let choice ← choose flag isShort attached rest.head?
      let arguments ← arguments.apply choice
      take arguments (rest.drop choice.used)
  | word :: rest => do
      let (arguments, more) ← take arguments rest
      .ok (arguments, (leftText word).toList ++ more)
termination_by words => words.length
decreasing_by
  all_goals
    simp only [List.length_cons, List.length_drop]
    omega

/-- The variables to bind, unless an option for one came without a
value. -/
def bindings (arguments : Arguments) :
    Except Breakdown (List (String × Float)) :=
  match arguments.assignments.findIdx? Option.isNone with
  | some index => .error (.absentAssignment index)
  | none =>
      .ok (arguments.assignments.filterMap fun assignment =>
        assignment.map fun assignment => (assignment.name, assignment.value))

def parse (argv : List String) : Except Refusal Arguments := do
  let words ← Word.readAll argv
  let (arguments, left) ← take {} words
  if left.isEmpty then .ok arguments
  else
    let texts := " ".intercalate left
    .error (.usage s!"unrecognized arguments: {texts}")

def helpText : String :=
  "usage: rpncalc [-h] [-e EXPR] [--var NAME=VALUE] [--config CONFIG]\n"
    ++ "               [--log-level LEVEL]\n\n"
    ++ "Evaluate arithmetic expressions with + - * / ^, sin cos tan sqrt abs\n"
    ++ "and variables.\n\n"
    ++ "  -h, --help         show this help and exit\n"
    ++ "  -e, --expr EXPR    evaluate EXPR and exit\n"
    ++ "  --var NAME=VALUE   bind a variable before evaluating (repeatable)\n"
    ++ "  --config CONFIG    path of a settings file\n"
    ++ "  --log-level LEVEL  debug, info, warning, error or critical\n"

end Arguments

end Reckoner

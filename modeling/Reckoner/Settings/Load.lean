/-
Where settings come from: a file, overlaid by environment variables.

The file is named by the caller or, failing that, by the environment. A
variable that is set to a text that is not empty takes the place of the
file's field. The limits are overlaid one by one; a void `limits` field
counts as an empty mapping there, and one that is no mapping is left for
the validation to refuse.

The libraries that read and validate documents are a parameter (`Library`).
A problem that one of them has no words for is left to whoever asked for
the settings (`LoadProblem.message`).
-/
import Reckoner.NameMap
import Reckoner.Settings.FilePath
import Reckoner.Settings.Models

namespace Reckoner

/-- The environment: the texts of variables by name. -/
abbrev Environment := NameMap String

/-- The text of a variable, unless it is empty. -/
def Environment.text? (environment : Environment) (name : String) :
    Option String :=
  (environment.find? name).filter fun text => !text.isEmpty

namespace Settings

-- ============================================================ the variables

def fileVariable : String := "RPNCALC_CONFIG"

def logLevelVariable : String := "RPNCALC_LOG_LEVEL"

def associativityVariable : String := "RPNCALC_POWER_ASSOCIATIVITY"

def limitVariable : Resource → String
  | .expressionLength => "RPNCALC_MAX_EXPRESSION_LENGTH"
  | .tokens => "RPNCALC_MAX_TOKENS"
  | .stackDepth => "RPNCALC_MAX_STACK_DEPTH"

-- ============================================================== the overlay

/-- Entries with a field taken from a variable, if it is set. -/
def overlayField (environment : Environment) (variableName name : String)
    (entries : List (Document × Document)) : List (Document × Document) :=
  match environment.text? variableName with
  | some text => Document.putField entries name (.text text)
  | none => entries

/-- The limits that variables give. -/
def givenLimits (environment : Environment) : List (String × String) :=
  [Resource.expressionLength, .tokens, .stackDepth].filterMap fun resource =>
    (environment.text? (limitVariable resource)).map (resource.limitName, ·)

/-- Entries with the limits overlaid by those that variables give. -/
def overlayLimits (environment : Environment)
    (entries : List (Document × Document)) : List (Document × Document) :=
  let given := givenLimits environment
  let fromFile := (Document.field? entries limitsName).getD .null
  let merge (limits : List (Document × Document)) :=
    Document.putField entries limitsName <| .mapping <|
      given.foldl (fun limits (name, text) =>
        Document.putField limits name (.text text)) limits
  if given.isEmpty then entries
  else if fromFile.isVoid then merge []
  else
    match fromFile with
    | .mapping limits => merge limits
    | _ => entries

/-- Entries overlaid by all variables. -/
def overlay (environment : Environment)
    (entries : List (Document × Document)) :
    List (Document × Document) :=
  overlayLimits environment <|
    overlayField environment associativityVariable associativityName <|
      overlayField environment logLevelVariable logLevelName entries

-- ============================================================== the loading

/-- Why a file cannot be read: the system's error number and text. -/
structure FileProblem where
  number : Nat
  text : String
  deriving DecidableEq, Repr

namespace FileProblem

def notFound : FileProblem := ⟨2, "No such file or directory"⟩

def isADirectory : FileProblem := ⟨21, "Is a directory"⟩

end FileProblem

/-- Why settings cannot be loaded. -/
inductive LoadProblem where
  /-- The path holds a NUL, so there can be no such file. -/
  | impossiblePath
  | unreadable (problem : FileProblem) (path : String)
  | noDocument (problem : ReadProblem)
  | notMapping (path : String)
  /-- The validation has issues, and says so in the words that go with
  them. -/
  | invalid (issues : Issues) (message : String)
  deriving DecidableEq, Repr

/-- What is said of a problem, or the problem that nothing is said of. -/
def LoadProblem.message : LoadProblem → Except ReadProblem String
  | .impossiblePath => .ok "embedded null byte"
  | .unreadable problem path =>
      .ok s!"[Errno {problem.number}] {problem.text}: {Text.quoted path}"
  | .noDocument problem => problem.message?.elim (.error problem) .ok
  | .notMapping path =>
      .ok s!"Configuration file {path} must contain a mapping"
  | .invalid _ message => .ok message

/-- A way to get the text of the file at a path. -/
abbrev Files := String → Except FileProblem String

/-- The fields that a file gives. A file that says nothing gives none. -/
def fieldsOfFile (read : Reader) (files : Files) (path : String) :
    Except LoadProblem (List (Document × Document)) :=
  if path.toList.contains '\x00' then .error .impossiblePath
  else
    match files path with
    | .error problem => .error (.unreadable problem path)
    | .ok text =>
        match read text with
        | .error problem => .error (.noDocument problem)
        | .ok .null => .ok []
        | .ok (.mapping entries) => .ok entries
        | .ok _ => .error (.notMapping path)

/-- The path of the settings file, if there is one: the given one or
else that of the environment, in normal form. -/
def filePath? (path : Option String) (environment : Environment) :
    Option String :=
  ((path.filter fun path => !path.isEmpty).or
    (environment.text? fileVariable)).map FilePath.normal

/-- The settings that entries give, or what the validation says of them. -/
def validated (v : Validation) (entries : List (Document × Document)) :
    Except LoadProblem Settings :=
  let d := Document.mapping entries
  (ofDocument v d).mapError fun issues =>
    .invalid issues (v.message title d issues)

/-- The settings of a file and an environment. -/
def load (library : Library) (files : Files) (path : Option String)
    (environment : Environment) : Except LoadProblem Settings := do
  let entries ←
    match filePath? path environment with
    | some path => fieldsOfFile library.read files path
    | none => .ok []
  validated library.validation (overlay environment entries)

end Settings

end Reckoner

/-
The models that a settings file is validated by.

The top level has three fields: the limits, which are a model of their own,
and two texts out of a choice. A text is brought to its normal form before
it is compared with the choices: without blanks at its ends and in lower
case. The limits are whole numbers above zero. What is missing is what the
standard settings have.
-/
import Reckoner.Settings
import Reckoner.Settings.Library

namespace Reckoner.Settings

-- =============================================================== the names

/-- What a settings file is called when it is refused. -/
def title : String := "CalculatorConfig"

def limitsName : String := "limits"

def associativityName : String := "power_associativity"

def logLevelName : String := "log_level"

-- ============================================================== the models

/-- A text setting in the spelling that is compared: without blanks at
its ends and in lower case. -/
def normalText (s : String) : String := (Text.strip s).map Char.toLower

/-- A value in the form in which it is compared with the choices. What is
no text stays as it is, and so does a text without characters of its
own. -/
def prepared : Document → Document
  | .text s => .text (normalText s)
  | d => d

variable (v : Validation)

def limitsFields : Fields (Int × Int × Int × Unit) :=
  let limit {β : Type} (resource : Resource) (rest : Fields β) :
      Fields (Int × β) :=
    .field resource.limitName (({} : Limits).of resource) (v.integer 0) rest
  limit .expressionLength (limit .tokens (limit .stackDepth .none))

/-- The limits that a document gives. -/
def limitsOf (d : Document) : Checked Limits :=
  (v.model (limitsFields v) d).map fun (length, tokens, depth, ()) =>
    ⟨length, tokens, depth⟩

/-- The two settings that are texts out of a choice. -/
def choiceFields : Fields (Associativity × LogLevel × Unit) :=
  let standard : Settings := {}
  .field associativityName standard.powerAssociativity
    (fun d => v.choice Associativity.all Associativity.name (prepared d)) <|
  .field logLevelName standard.logLevel
    (fun d => v.choice LogLevel.all LogLevel.name (prepared d)) .none

def fields : Fields (Limits × Associativity × LogLevel × Unit) :=
  .field limitsName ({} : Settings).limits (limitsOf v) (choiceFields v)

/-- The settings that a document gives. -/
def ofDocument (d : Document) : Checked Settings :=
  (v.model (fields v) d).map fun (limits, associativity, logLevel, ()) =>
    ⟨associativity, logLevel, limits⟩

end Reckoner.Settings

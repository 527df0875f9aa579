/-
Settings: how `^` groups, how much is logged, and the limits of an
evaluation, with their names and the values they have when nothing is
said.
-/
import Reckoner.OperatorTable

namespace Reckoner

-- ============================================================= the choices

def Associativity.all : List Associativity := [.left, .right]

def Associativity.name : Associativity → String
  | .left => "left"
  | .right => "right"

/-- How much is logged. -/
inductive LogLevel where
  | debug
  | info
  | warning
  | error
  | critical
  deriving DecidableEq, Repr

namespace LogLevel

/-- All levels, the most talkative first. -/
def all : List LogLevel := [.debug, .info, .warning, .error, .critical]

def name : LogLevel → String
  | .debug => "debug"
  | .info => "info"
  | .warning => "warning"
  | .error => "error"
  | .critical => "critical"

def ofName? (name : String) : Option LogLevel :=
  all.find? fun level => level.name == name

end LogLevel

-- ============================================================ the settings

/-- The settings of a calculator. -/
structure Settings where
  powerAssociativity : Associativity := .left
  logLevel : LogLevel := .warning
  limits : Limits := {}
  deriving DecidableEq, Repr

/-- The operator table that the settings describe. -/
def Settings.operators (settings : Settings) : OperatorTable :=
  .grouping settings.powerAssociativity

end Reckoner

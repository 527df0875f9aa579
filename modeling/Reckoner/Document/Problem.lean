/-
Why a text cannot be read as a document.

Most problems are of form: the text is none, or a node of it stands where
its kind is not wanted. The others concern the value of a single scalar,
and say what they do not like about it.
-/
import Reckoner.Calendar
import Reckoner.Text.Quoted

namespace Reckoner.Document

/-- Why a text cannot be read. -/
inductive Problem where
  | illFormed
  /-- An escape names a code point beyond the last character. -/
  | noCharacter
  /-- An escape names a number that does not fit into a word. -/
  | oversizedCharacter
  /-- A text of which an integer is wanted does not spell one. -/
  | notInteger (base : Nat) (text : String)
  /-- A decimal integer has more digits than are read. -/
  | tooManyDigits (count : Nat)
  /-- A text of which a float is wanted does not spell one. -/
  | notFloat (text : String)
  /-- A number is wanted where there is nothing. -/
  | emptyNumber
  /-- A place of a number in base sixty is worth more than any float. -/
  | oversizedPlace
  | notTruthValue
  | notTime
  /-- The calendar does not have a date, a time of day or a clock. -/
  | noSuchTime (fault : Calendar.Fault)
  deriving DecidableEq, Repr

/-- What a problem says, where it concerns a value that could have been
another one. The others are left to whoever asked for the text to be
read. -/
def Problem.message? : Problem → Option String
  | .noCharacter => some "chr() arg not in range(0x110000)"
  | .notInteger base written =>
      some (s!"invalid literal for int() with base {base}: "
        ++ Text.quoted written)
  | .tooManyDigits count =>
      some <| "Exceeds the limit (4300 digits) for integer string conversion: "
        ++ s!"value has {count} digits; use sys.set_int_max_str_digits() to "
        ++ "increase the limit"
  | .notFloat written =>
      some s!"could not convert string to float: {Text.quoted written}"
  | .noSuchTime fault => some fault.message
  | .illFormed | .oversizedCharacter | .emptyNumber | .oversizedPlace
  | .notTruthValue | .notTime => none

end Reckoner.Document

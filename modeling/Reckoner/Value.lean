/-
What a resolver may answer: a number, or one of the things that are
offered by mistake in its place.

An evaluation accepts floats and integers and shows anything else in its
message, so each value has a shown form: results as they are printed,
integers in full, text in quotes.
-/
import Reckoner.Text.Quoted
import Reckoner.Number.Layout

namespace Reckoner

/-- An answer to the question what a variable stands for. -/
inductive Value where
  | float (x : Float)
  | int (n : Int)
  | text (s : String)
  | bool (b : Bool)
  | none
  deriving DecidableEq, Repr

/-- The form in which messages show a value. -/
def Value.shown : Value → String
  | .float x => formatValue x
  | .int n => toString n
  | .text s => Text.quoted s
  | .bool true => "True"
  | .bool false => "False"
  | .none => "None"

end Reckoner

/-
The libraries that run: the reader of `Document/Reader.lean` and the
validation of `Settings/Validation.lean`.
-/
import Reckoner.Document.Reader
import Reckoner.Settings.Validation

namespace Reckoner

/-- What the outside is told of a problem. What concerns the form alone is
one problem to it; where the reader itself fails, it learns over what. -/
def Document.Problem.outside (problem : Document.Problem) : ReadProblem :=
  match problem.message?, problem with
  | some message, _ => .impossibleValue message
  | none, .oversizedCharacter => .failure "oversized character"
  | none, .oversizedPlace => .failure "oversized place"
  | none, .emptyNumber => .failure "empty number"
  | none, .notTruthValue => .failure "no truth value"
  | none, .notTime => .failure "no time"
  | none, _ => .illFormed

def Reader.standard : Reader := fun text =>
  (Document.read text).mapError (·.outside)

def Library.standard : Library where
  read := .standard
  validation := .standard

end Reckoner

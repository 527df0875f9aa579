/-
Paths in normal form: one slash between components, no component `.`,
and no slash at the end. Two slashes at the front are kept, as the system
may give them a meaning of their own; more than two count as one.
-/
import Reckoner.Text.Split

namespace Reckoner.FilePath

/-- What the front of a path says about where it starts. -/
def anchor : List Char → String
  | '/' :: '/' :: '/' :: _ => "/"
  | '/' :: '/' :: _ => "//"
  | '/' :: _ => "/"
  | _ => ""

/-- The components of a path that lead anywhere. -/
def components (path : List Char) : List String :=
  ((Text.splitOn '/' path).filter fun part =>
    !part.isEmpty && part != ['.']).map String.ofList

/-- A path in normal form; the path that leads nowhere is `.`. -/
def normal (path : String) : String :=
  let text := anchor path.toList ++ "/".intercalate (components path.toList)
  if text.isEmpty then "." else text

end Reckoner.FilePath

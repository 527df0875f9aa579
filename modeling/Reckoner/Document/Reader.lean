/-
Reading documents from text.

The format is YAML 1.1 with the kinds of scalars of its core, in block and
flow style, with anchors, tags and directives. A text holds one document,
or none if it is blank but for comments; such a text says nothing.

The text is read in three stages: its characters come to marks, the marks
to a node, and the node to what it means. A stage that meets a problem
ends the reading.
-/
import Reckoner.Document.Mark.Scan
import Reckoner.Document.Node.Meaning

namespace Reckoner.Document

/-- The document that a text holds. -/
def read (s : String) : Except Problem Document := do
  let chars := unifyBreaks s.toList
  if chars.all isAllowed then
    match ← Node.ofMarks (Mark.ofText chars) with
    | some root => root.meaning.mapError (·.problem)
    | none => .ok .null
  else .error .illFormed

/-- A text is read if its characters are allowed, its marks come to a node
and the node has a meaning. -/
theorem read_eq_ok {s : String} {marks : List Mark} {root : Node}
    {d : Document} (hallowed : (unifyBreaks s.toList).all isAllowed = true)
    (hmarks : Mark.ofText (unifyBreaks s.toList) = marks)
    (hnode : Node.ofMarks marks = .ok (some root))
    (hmeaning : root.meaning = .ok d) : read s = .ok d := by
  unfold read
  rw [if_pos hallowed, hmarks, hnode]
  show root.meaning.mapError (·.problem) = .ok d
  rw [hmeaning]
  rfl

end Reckoner.Document

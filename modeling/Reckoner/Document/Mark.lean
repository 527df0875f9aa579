/-
The marks of a document's text: what its characters come to before
anything is said about how they hang together.

Block collections have no brackets of their own. Their begin and end are
marks all the same, which the columns of the text give rise to, and so is
the word that what follows is a key. A list of marks ends with the end of
the text or with the problem that kept it from being read further.
-/
import Reckoner.Document.Problem

namespace Reckoner.Document

/-- How a scalar is written. -/
inductive Style where
  /-- Without quotes: the text decides what kind of value it is. -/
  | plain
  /-- Between quotes or as a block: a text whatever it says. -/
  | quoted
  deriving DecidableEq, Repr

/-- What a line that begins with a percent sign says about the document
that follows it. -/
inductive Directive where
  /-- The version of the format, of which the number before the point
  matters. -/
  | version (major : Nat)
  /-- What a handle in front of a tag stands for. -/
  | handle (name meaning : String)
  | other
  deriving DecidableEq, Repr

inductive Mark where
  | directive (d : Directive)
  | documentStart
  | documentEnd
  | blockListStart
  | blockMappingStart
  /-- The end of a block collection of either kind. -/
  | blockEnd
  | listStart
  | listEnd
  | mappingStart
  | mappingEnd
  | comma
  | item
  | key
  | value
  | anchor (name : String)
  | alias (name : String)
  /-- A tag: a handle, if it has one, and what follows. -/
  | tag (handle : Option String) (text : String)
  /-- A scalar; its text, unless that holds code points to which no
  character can belong. -/
  | scalar (style : Style) (text : Option String)
  | textEnd
  | fault (problem : Problem)
  deriving DecidableEq, Repr

end Reckoner.Document

/-
Properties of nodes, and directives.

An anchor names a node and an alias stands for the node of that name. A tag
says of what kind a node is: in full between angle brackets, or after a
handle that begins, and may end, with an exclamation mark. Directives stand
on lines of their own and say what the handles mean.
-/
import Reckoner.Document.Cursor
import Reckoner.Document.Mark
import Reckoner.Document.Mark.Quoted
import Reckoner.Text.Digit

namespace Reckoner.Document.Mark.Property

open Text

-- ================================================================== the names

def isNameChar (c : Char) : Bool :=
  isAsciiDigit c || isAsciiLetter c || c == '-' || c == '_'

/-- The name that stands at a place, and the place after it. -/
def name (c : Cursor) : List Char × Cursor := c.span isNameChar

/-- The name of an anchor or an alias, from the place of its sign. -/
def reference? (c : Cursor) : Option (String × Cursor) := do
  let (name, c) := name c.next
  guard (!name.isEmpty)
  guard (startsWithGap c.rest
    || c.peek.any fun ch => "?:,]\x7d%@`".toList.contains ch)
  some (String.ofList name, c)

-- =================================================================== the tags

def isTagChar (c : Char) : Bool :=
  isAsciiDigit c || isAsciiLetter c
    || "-;/?:@&=+$,_.!~*'()[]%".toList.contains c

/-- The bytes that a tag spells, which may give some of them by two
hexadecimal digits after a percent sign. -/
def tagBytes : List Char → Option (List UInt8)
  | [] => some []
  | '%' :: a :: b :: rest => do
      let high ← Quoted.hexDigit? a
      let low ← Quoted.hexDigit? b
      let bytes ← tagBytes rest
      some ((16 * high + low).toUInt8 :: bytes)
  | c :: rest =>
      if c == '%' then none else (tagBytes rest).map (c.toNat.toUInt8 :: ·)

/-- The text of a tag that stands at a place, and the place after it. -/
def tagText? (c : Cursor) : Option (String × Cursor) := do
  let (chars, c) := c.span isTagChar
  guard (!chars.isEmpty)
  let text ← String.fromUTF8? ⟨(← tagBytes chars).toArray⟩
  some (text, c)

/-- The handle that stands at a place, and the place after it. -/
def handle? (c : Cursor) : Option (String × Cursor) := do
  guard (c.peek = some '!')
  if c.next.peek = some ' ' then some ("!", c.next)
  else
    let (name, c) := name c.next
    guard (c.peek = some '!')
    some (String.ofList ('!' :: name ++ ['!']), c.next)

/-- Whether a tag has a handle that ends with an exclamation mark, given
what follows its first character. -/
def hasHandle (cs : List Char) : Bool :=
  (cs.takeWhile fun c => c != ' ' && !isBreak c).contains '!'

/-- The tag that stands at a place, and the place after it. -/
def tag? (c : Cursor) : Option (Mark × Cursor) := do
  let (mark, c) ←
    if c.next.peek = some '<' then do
      let (content, c) ← tagText? c.next.next
      guard (c.peek = some '>')
      some (Mark.tag none content, c.next)
    else if startsWithGap c.next.rest then some (Mark.tag none "!", c.next)
    else do
      let (handle, c) ← if hasHandle c.next.rest then handle? c
                        else some ("!", c.next)
      let (content, c) ← tagText? c
      some (Mark.tag (some handle) content, c)
  guard (startsWithSpace c.rest)
  some (mark, c)

-- ============================================================= the directives

/-- The number that stands at a place, and the place after it. -/
def number? (c : Cursor) : Option (Nat × Cursor) := do
  let (digits, c) := c.span isAsciiDigit
  guard (!digits.isEmpty)
  some (digitsToNat (digits.map fun c => c.toNat - '0'.toNat), c)

/-- What follows the name of a directive for the version. -/
def version? (c : Cursor) : Option (Directive × Cursor) := do
  let (major, c) ← number? c.pastSpaces
  guard (c.peek = some '.')
  let (_, c) ← number? c.next
  guard (startsWithSpace c.rest)
  some (.version major, c)

/-- What follows the name of a directive for a handle. -/
def meaning? (c : Cursor) : Option (Directive × Cursor) := do
  let (handle, c) ← handle? c.pastSpaces
  guard (c.peek = some ' ')
  let (content, c) ← tagText? c.pastSpaces
  guard (startsWithSpace c.rest)
  some (.handle handle content, c)

/-- The directive that stands on a line, and the place after the line. -/
def directive? (c : Cursor) : Option (Directive × Cursor) := do
  let (name, c) := name c.next
  guard (!name.isEmpty && startsWithSpace c.rest)
  let (said, c) ←
    if name = "YAML".toList then version? c
    else if name = "TAG".toList then meaning? c
    else some (.other, c.past fun ch => !isBreak ch)
  some (said, ← c.pastLine?)

end Reckoner.Document.Mark.Property

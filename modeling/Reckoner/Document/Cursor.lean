/-
Places in the text of a document.

Whether a scalar may be the key of a mapping, and to which collection an
item belongs, depends on lines and columns. A cursor carries both beside
the text that is still to be read, and the number of characters that it
has passed.
-/
namespace Reckoner.Document

-- ============================================================== characters

def isBreak (c : Char) : Bool :=
  c == '\n' || c.toNat == 0x85 || c.toNat == 0x2028 || c.toNat == 0x2029

/-- The characters that end a word: spaces, tabs and line breaks. -/
def isGap (c : Char) : Bool := c == ' ' || c == '\t' || isBreak c

/-- Whether a text begins with a gap or is at its end. -/
def startsWithGap : List Char → Bool
  | [] => true
  | c :: _ => isGap c

def startsWithSpace : List Char → Bool
  | [] => true
  | c :: _ => c == ' ' || isBreak c

/-- The characters that a document may hold at all. -/
def isAllowed (c : Char) : Bool :=
  let n := c.toNat
  n == 0x09 || n == 0x0A || n == 0x0D || (0x20 ≤ n && n ≤ 0x7E) || n == 0x85
    || (0xA0 ≤ n && n ≤ 0xFFFD) || 0x10000 ≤ n

/-- The mark of byte order, which has no width. -/
def byteOrderMark : Char := '\uFEFF'

/-- Line ends of all systems as line feeds. -/
def unifyBreaks : List Char → List Char
  | [] => []
  | '\r' :: '\n' :: rest => '\n' :: unifyBreaks rest
  | '\r' :: rest => '\n' :: unifyBreaks rest
  | c :: rest => c :: unifyBreaks rest

-- ================================================================= cursors

/-- A place in a text. -/
structure Cursor where
  rest : List Char
  index : Nat := 0
  line : Nat := 0
  column : Nat := 0
  deriving DecidableEq, Repr

namespace Cursor

def next (c : Cursor) : Cursor :=
  match c.rest with
  | [] => c
  | ch :: rest =>
      if isBreak ch then ⟨rest, c.index + 1, c.line + 1, 0⟩
      else if ch == byteOrderMark then ⟨rest, c.index + 1, c.line, c.column⟩
      else ⟨rest, c.index + 1, c.line, c.column + 1⟩

def advance (c : Cursor) : Nat → Cursor
  | 0 => c
  | count + 1 => c.next.advance count

def peek (c : Cursor) : Option Char := c.rest.head?

/-- The characters of a class that stand here, and the place after
them. -/
def span (c : Cursor) (belongs : Char → Bool) : List Char × Cursor :=
  let chars := c.rest.takeWhile belongs
  (chars, c.advance chars.length)

/-- The place after the characters of a class. -/
def past (c : Cursor) (belongs : Char → Bool) : Cursor := (c.span belongs).2

def pastSpaces (c : Cursor) : Cursor := c.past (· == ' ')

def pastComment (c : Cursor) : Cursor :=
  if c.peek = some '#' then c.past fun ch => !isBreak ch else c

/-- The line break that stands here and the place after it. The separators
of lines and of paragraphs stand for themselves, the others for a line
feed. -/
def lineBreak? (c : Cursor) : Option (Char × Cursor) :=
  match c.rest with
  | ch :: _ =>
      if isBreak ch then
        some (if ch.toNat = 0x85 then '\n' else ch, c.next)
      else none
  | [] => none

def pastLine? (c : Cursor) : Option Cursor :=
  let c := c.pastSpaces.pastComment
  match c.lineBreak?, c.rest with
  | some (_, after), _ => some after
  | none, [] => some c
  | none, _ :: _ => none

/-- Whether a given mark of three characters stands here, followed by a
gap. -/
def atMarker (c : Cursor) (marker : Char) : Bool :=
  match c.rest with
  | a :: b :: d :: rest =>
      a == marker && b == marker && d == marker && startsWithGap rest
  | _ => false

def atSeparator (c : Cursor) : Bool := c.atMarker '-' || c.atMarker '.'

-- ============================================================== line breaks

/-- What line breaks within a scalar come to, given the first of them and
those after it: a single line feed is a space, and of several the first is
dropped. -/
def folded (first : Char) (others : List Char) : List Char :=
  if first ≠ '\n' then first :: others
  else if others.isEmpty then [' ']
  else others

end Cursor

end Reckoner.Document

/-
Block scalars: lines that stand deeper than what they belong to, word for
word after a bar, folded after a greater-than sign.

The header may say by how much the lines are indented and what becomes of
the line breaks at the end: all are kept after a plus, none after a minus,
and otherwise one. Without a number the first line that is not empty sets
the indentation. Folding joins two lines with a space where neither begins
with a blank and no empty line lies between them.
-/
import Reckoner.Document.Cursor
import Reckoner.Document.Mark

namespace Reckoner.Document.Mark.Block

-- ================================================================= the header

/-- What becomes of the line breaks at the end. -/
inductive Ending where
  | keep
  | clip
  | drop
  deriving DecidableEq, Repr

/-- What the header of a block scalar says. -/
structure Header where
  ending : Ending := .clip
  /-- How much deeper the lines are than what they belong to. -/
  indentation : Option Nat := none
  deriving DecidableEq, Repr

def ending? : Char → Option Ending
  | '+' => some .keep
  | '-' => some .drop
  | _ => none

/-- A digit other than zero; none for any other digit, and a missing number
for what is no digit. -/
def number? (c : Option Char) : Option (Option Nat) :=
  match c with
  | none => some none
  | some c =>
      if c == '0' then none
      else if '1' ≤ c && c ≤ '9' then some (some (c.toNat - '0'.toNat))
      else some none

/-- The header and the place after it, from the place after the bar. A sign
and a digit may come in either order. -/
def header? (c : Cursor) : Option (Header × Cursor) := do
  match c.peek.bind ending? with
  | some ending => do
      let indentation ← number? c.next.peek
      let after := if indentation.isSome then c.next.next else c.next
      some (⟨ending, indentation⟩, after)
  | none => do
      let indentation ← number? c.peek
      let after := if indentation.isSome then c.next else c
      match indentation, after.peek.bind ending? with
      | some _, some ending => some (⟨ending, indentation⟩, after.next)
      | _, _ => some ({ indentation }, after)

-- ================================================================== the lines

/-- The place after the spaces that stand before a column. -/
def pastIndentation (column : Nat) (c : Cursor) : Cursor :=
  let spaces := c.rest.takeWhile (· == ' ')
  c.advance (min spaces.length (column - c.column))

/-- The empty lines that begin here, up to the first line that goes beyond
a column, and the place where it does. -/
def emptyLines (column : Nat) : Nat → Cursor → List Char × Cursor
  | 0, c => ([], c)
  | fuel + 1, c =>
      let c := pastIndentation column c
      match c.lineBreak? with
      | none => ([], c)
      | some (ch, after) =>
          let (others, last) := emptyLines column fuel after
          (ch :: others, last)

/-- The empty lines that begin here, the deepest column that is reached
before the first line with a word in it, and the place of that word. -/
def firstLines : Nat → Cursor → List Char × Nat × Cursor
  | 0, c => ([], 0, c)
  | fuel + 1, c =>
      let c := c.pastSpaces
      match c.lineBreak? with
      | none => ([], c.column, c)
      | some (ch, after) =>
          let (others, deepest, last) := firstLines fuel after
          (ch :: others, max c.column deepest, last)

def isIndented (c : Cursor) : Bool := c.peek == some ' ' || c.peek == some '\t'

/-- What a block scalar comes to. -/
structure Lines where
  chars : List Char
  /-- The break after the last line. -/
  lineBreak : List Char
  others : List Char
  after : Cursor

/-- The lines at a column, where the breaks of some empty lines come
first. -/
def lines (isFolded : Bool) (column : Nat) : Nat → List Char → Cursor → Lines
  | 0, _, c => ⟨[], [], [], c⟩
  | fuel + 1, before, c =>
      let (line, atEnd) := c.span fun ch => !isBreak ch
      let (lineBreak, after) :=
        match atEnd.lineBreak? with
        | some (ch, after) => ([ch], after)
        | none => ([], atEnd)
      let (others, next) := emptyLines column after.rest.length.succ after
      if next.column = column ∧ !next.rest.isEmpty then
        let between :=
          if isFolded && lineBreak == ['\n'] && !isIndented c
            && !isIndented next then
            if others.isEmpty then [' '] else []
          else lineBreak
        let more := lines isFolded column fuel others next
        { more with chars := before ++ line ++ between ++ more.chars }
      else ⟨before ++ line, lineBreak, others, next⟩

-- ================================================================= the scalar

/-- The block scalar that stands at a place within a collection at a
column, and the place after it. -/
def scalar? (isFolded : Bool) (indent : Int) (c : Cursor) :
    Option (String × Cursor) := do
  let (header, c) ← header? c.next
  guard (startsWithSpace c.rest)
  let c ← c.pastLine?
  let least := (indent + 1).toNat.max 1
  let fuel := c.rest.length + 1
  let (column, others, start) :=
    match header.indentation with
    | some more =>
        let column := least + more - 1
        let (others, start) := emptyLines column fuel c
        (column, others, start)
    | none =>
        let (others, deepest, start) := firstLines fuel c
        (max least deepest, others, start)
  let read :=
    if start.column = column ∧ !start.rest.isEmpty then
      lines isFolded column fuel others start
    else ⟨[], [], others, start⟩
  let tail :=
    match header.ending with
    | .keep => read.lineBreak ++ read.others
    | .clip => read.lineBreak
    | .drop => []
  some (String.ofList (read.chars ++ tail), read.after)

end Reckoner.Document.Mark.Block

/-
Plain scalars: those without quotes.

A plain scalar is a run of words. It ends before a colon or a comment that
a gap sets off, within brackets also before a comma or a bracket, and in a
block before a line that is not indented deeper than the collection around
it. The line breaks between its words are folded.
-/
import Reckoner.Document.Cursor

namespace Reckoner.Document.Mark.Plain

-- ================================================================= the words

/-- Whether the word of a plain scalar ends before the given text. -/
def wordEnds (flow : Bool) : List Char → Bool
  | [] => true
  | ch :: rest =>
      isGap ch
        || (ch == ':' && (startsWithGap rest
          || (flow && rest.head?.any
            fun c => [',', '[', ']', '{', '}'].contains c)))
        || (flow && [',', '?', '[', ']', '{', '}'].contains ch)

/-- The number of characters of the word that a text begins with. -/
def wordLength (flow : Bool) : List Char → Nat
  | [] => 0
  | ch :: rest =>
      if wordEnds flow (ch :: rest) then 0 else wordLength flow rest + 1

/-- The characters that no plain scalar begins with. -/
def reserved : List Char := "-?:,[]\x7b\x7d#&*!|>'\"%@`".toList

def starts (flow : Bool) : List Char → Bool
  | [] => false
  | ch :: rest =>
      !(isGap ch || reserved.contains ch)
        || (!startsWithGap rest
          && (ch == '-' || (!flow && (ch == '?' || ch == ':'))))

-- ================================================= what stands between them

/-- What separates two words, or follows the last. -/
structure Space where
  /-- What it comes to within the scalar; nothing ends the scalar. -/
  chars : List Char
  endsLine : Bool
  after : Cursor

/-- The line breaks that follow one at the beginning of a line, and the
place after them and the spaces around them; none if a mark between
documents comes after one of them. -/
def breaks : Nat → Cursor → Option (List Char) × Cursor
  | 0, c => (some [], c)
  | fuel + 1, c =>
      let c := c.pastSpaces
      match c.lineBreak? with
      | none => (some [], c)
      | some (ch, after) =>
          if after.atSeparator then (none, after)
          else
            let (others, last) := breaks fuel after
            (others.map (ch :: ·), last)

/-- What stands between a word that ends here and the next. -/
def space (c : Cursor) : Space :=
  let (spaces, c) := c.span (· == ' ')
  match c.lineBreak? with
  | none => ⟨spaces, false, c⟩
  | some (first, c) =>
      if c.atSeparator then ⟨[], true, c⟩
      else
        match breaks c.rest.length c with
        | (some others, c) => ⟨Cursor.folded first others, true, c⟩
        | (none, c) => ⟨[], true, c⟩

-- =============================================================== the scalar

/-- A plain scalar that was read. -/
structure Scalar where
  chars : List Char
  /-- Whether the line ends after its last word. -/
  endsLine : Bool
  after : Cursor

/-- The plain scalar from a place on, within a collection at a column. -/
def words (flow : Bool) (indent : Int) : Nat → Cursor → Scalar
  | 0, c => ⟨[], false, c⟩
  | fuel + 1, c =>
      let count := wordLength flow c.rest
      let word := c.rest.take count
      let space := space (c.advance count)
      let isLast :=
        space.chars.isEmpty || space.after.peek == some '#'
          || (!flow && space.after.column ≤ indent)
          || wordEnds flow space.after.rest
      if isLast then ⟨word, space.endsLine, space.after⟩
      else
        let more := words flow indent fuel space.after
        { more with chars := word ++ space.chars ++ more.chars }

def scalar (flow : Bool) (indent : Int) (c : Cursor) : Scalar :=
  words flow indent (c.rest.length + 1) c

end Reckoner.Document.Mark.Plain

/-
Scalars between quotes.

Between single quotes every character stands for itself, but for a quote
that is written twice. Between double quotes a backslash begins an escape;
before a line break it joins two lines. Other line breaks are folded, and
the blanks around them are dropped. No mark between documents may begin a
line within a scalar.

An escape may name a code point to which no character can belong. The
scalar is then read to its end, but has no text.
-/
import Reckoner.Document.Cursor
import Reckoner.Document.Mark

namespace Reckoner.Document.Mark.Quoted

-- ================================================================ the escapes

def hexDigit? (c : Char) : Option Nat :=
  if '0' ≤ c && c ≤ '9' then some (c.toNat - '0'.toNat)
  else if 'a' ≤ c && c ≤ 'f' then some (c.toNat - 'a'.toNat + 10)
  else if 'A' ≤ c && c ≤ 'F' then some (c.toNat - 'A'.toNat + 10)
  else none

/-- The number that hexadecimal digits spell. -/
def hexNumber? (digits : List Char) : Option Nat :=
  digits.foldlM (fun n c => (hexDigit? c).map (16 * n + ·)) 0

/-- The character of a code point; none for the code points that no
character can have. -/
def character (n : Nat) : Except Problem (Option Char) :=
  if 0x7FFFFFFF < n then .error .oversizedCharacter
  else if 0x10FFFF < n then .error .noCharacter
  else if n.isValidChar then .ok (some (Char.ofNat n))
  else .ok none

/-- The code points of the escapes that are a single character. -/
def letters : List (Char × Nat) :=
  [('0', 0x00), ('a', 0x07), ('b', 0x08), ('t', 0x09), ('\t', 0x09),
    ('n', 0x0A), ('v', 0x0B), ('f', 0x0C), ('r', 0x0D), ('e', 0x1B),
    (' ', 0x20), ('"', 0x22), ('\\', 0x5C), ('/', 0x2F), ('N', 0x85),
    ('_', 0xA0), ('L', 0x2028), ('P', 0x2029)]

/-- The numbers of digits of the escapes that spell a code point. -/
def widths : List (Char × Nat) := [('x', 2), ('u', 4), ('U', 8)]

/-- What an escape stands for that follows a backslash, and how many
characters it has. -/
def escape : List Char → Except Problem (Option Char × Nat)
  | [] => .error .illFormed
  | c :: rest =>
      match letters.lookup c, widths.lookup c with
      | some n, _ => .ok (some (Char.ofNat n), 1)
      | none, some width =>
          let digits := rest.take width
          match hexNumber? digits with
          | some n =>
              if digits.length = width then (character n).map (·, width + 1)
              else .error .illFormed
          | none => .error .illFormed
      | none, none => .error .illFormed

-- ============================================================ the line breaks

/-- The line breaks that follow one at the beginning of a line, and the
place after them and the blanks around them. -/
def breaks : Nat → Cursor → Except Problem (List Char × Cursor)
  | 0, c => .ok ([], c)
  | fuel + 1, c =>
      if c.atSeparator then .error .illFormed
      else
        let c := c.past fun ch => ch == ' ' || ch == '\t'
        match c.lineBreak? with
        | none => .ok ([], c)
        | some (ch, after) =>
            (breaks fuel after).map fun (others, last) => (ch :: others, last)

/-- What blanks and line breaks come to that stand here, and the place
after them. -/
def blanks (c : Cursor) : Except Problem (List Char × Cursor) :=
  let (spaces, c) := c.span fun ch => ch == ' ' || ch == '\t'
  match c.lineBreak? with
  | none => .ok (spaces, c)
  | some (first, c) =>
      (breaks (c.rest.length + 1) c).map fun (others, last) =>
        (Cursor.folded first others, last)

-- ================================================================ the content

/-- What stands between quotes, from the place after the opening one: its
characters, of which some may be none, and the place after the closing
one. -/
def content (quote : Char) :
    Nat → Cursor → Except Problem (List (Option Char) × Cursor)
  | 0, _ => .error .illFormed
  | fuel + 1, c =>
      let goOn (chars : List (Option Char)) (c : Cursor) :=
        (content quote fuel c).map fun (more, last) => (chars ++ more, last)
      match c.rest with
      | [] => .error .illFormed
      | ch :: rest =>
          if ch == quote then
            if quote == '\'' && rest.head? == some '\'' then
              goOn [some '\''] c.next.next
            else .ok ([], c.next)
          else if quote == '"' && ch == '\\' then
            match c.next.lineBreak? with
            | some (_, after) => do
                let (others, after) ← breaks (after.rest.length + 1) after
                goOn (others.map some) after
            | none => do
                let (meant, count) ← escape rest
                goOn [meant] (c.next.advance count)
          else if isGap ch then do
            let (chars, after) ← blanks c
            goOn (chars.map some) after
          else goOn [some ch] c.next

def text? (chars : List (Option Char)) : Option String :=
  (chars.mapM id).map String.ofList

/-- The quoted scalar that stands at a place, and the place after it. -/
def scalar (quote : Char) (c : Cursor) :
    Except Problem (Option String × Cursor) :=
  (content quote (c.rest.length + 1) c.next).map
    fun (chars, last) => (text? chars, last)

end Reckoner.Document.Mark.Quoted

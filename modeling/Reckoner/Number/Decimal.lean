/-
Numbers read from text: the numerals of expressions, and the wider
grammar of answers, command-line values and hand-built number tokens.

The wider grammar is

    space [sign] (inf | infinity | nan) space
    space [sign] digits [. digits] [e [sign] digits] space

with the words and the `e` in either case, at least one digit on one of
the two sides of the point, a lone underscore allowed between two digits,
and digits of any script. The value is the exact decimal rounded once, to
the nearest double.
-/
import Reckoner.Text.Blank
import Reckoner.Text.Digit
import Reckoner.Number.Binary64

namespace Reckoner.Decimal

open Text

-- ============================================================ the value

/-- The double nearest to `m * 10 ^ scale`, where `m` has at most
`places` decimal digits. Values of 10^309 and more are infinite and
values up to 10^(-324) are zero whatever their digits, which keeps the
powers of ten small. -/
def nearest (places m : Nat) (scale : Int) : Float :=
  if m = 0 then 0.0
  else if (places : Int) + scale ≤ -324 then 0.0
  else if scale ≥ 309 then Binary64.infinity false
  else Float.ofScientific m (scale < 0) scale.natAbs

/-- The value of a numeral with the given digits before and after the
point and the given exponent. -/
def value (whole fraction : List Nat) (exponent : Int) : Float :=
  let digits := whole ++ fraction
  nearest digits.length (digitsToNat digits) (exponent - fraction.length)

-- ========================================================= the literals

/-- The value of a numeric literal of an expression: ASCII digits with
an optional fraction, and at least one digit on each side of the
point. -/
def literal? (cs : List Char) : Option Float :=
  let whole := cs.takeWhile isAsciiDigit
  let digitsOf := List.map fun c => c.toNat - '0'.toNat
  match whole, cs.dropWhile isAsciiDigit with
  | [], _ => none
  | _, [] => some (value (digitsOf whole) [] 0)
  | _, '.' :: fraction =>
      if !fraction.isEmpty && fraction.all isAsciiDigit then
        some (value (digitsOf whole) (digitsOf fraction) 0)
      else none
  | _, _ => none

-- =================================================== the wider grammar

def startsWithDigit (cs : List Char) : Bool :=
  match cs.head? with
  | some c => (digitValue? c).isSome
  | none => false

/-- The digits at the front of a text and what follows them. A lone
underscore may stand between two digits; `joined` says that the character
before was a digit. -/
def digitRun (joined : Bool) : List Char → List Nat × List Char
  | [] => ([], [])
  | c :: rest =>
      match digitValue? c with
      | some d =>
          let (digits, remainder) := digitRun true rest
          (d :: digits, remainder)
      | none =>
          if joined && c == '_' && startsWithDigit rest then
            digitRun false rest
          else ([], c :: rest)

/-- A sign at the front of a text, and whether it is a minus. -/
def sign : List Char → Bool × List Char
  | '-' :: rest => (true, rest)
  | '+' :: rest => (false, rest)
  | cs => (false, cs)

/-- The exponent that ends a numeral: nothing, or `e` and a signed run
of digits up to the end of the text. -/
def exponent? : List Char → Option Int
  | [] => some 0
  | e :: rest =>
      if e == 'e' || e == 'E' then
        let (negative, rest) := sign rest
        match digitRun false rest with
        | ([], _) => none
        | (digits, []) =>
            let n : Int := digitsToNat digits
            some (if negative then -n else n)
        | _ => none
      else none

/-- The magnitude of a numeral without its sign. -/
def magnitude? (cs : List Char) : Option Float :=
  let (whole, rest) := digitRun false cs
  let (fraction, rest) :=
    match rest with
    | '.' :: rest => digitRun false rest
    | rest => ([], rest)
  if whole.isEmpty && fraction.isEmpty then none
  else (exponent? rest).map (value whole fraction)

/-- The values that are written as words, in either case. -/
def word? (cs : List Char) : Option Float :=
  let lower := cs.map Char.toLower
  if lower = "inf".toList ∨ lower = "infinity".toList then
    some (Binary64.infinity false)
  else if lower = "nan".toList then some Binary64.nan
  else none

/-- The number that a text spells, white space around it disregarded. -/
def read? (s : String) : Option Float :=
  let (negative, cs) := sign (trimBoth isWhiteSpace s.toList)
  ((word? cs).or (magnitude? cs)).map fun x => if negative then -x else x

end Reckoner.Decimal

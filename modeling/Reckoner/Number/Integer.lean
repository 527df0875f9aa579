/-
Whole numbers read from text and from doubles, as settings may give
them.

The text of a whole number is

    space [sign] {0 | _} digits [. zeros] space

with ASCII digits and a lone underscore allowed between two of them. What
comes before the first digit that is no zero counts for nothing; a minus
may stand directly before that digit instead of in front of the text. A
point must be followed by at least one zero and by nothing else. Numbers
of more than 4300 characters are refused as too large.
-/
import Reckoner.Text.Blank
import Reckoner.Text.Digit
import Reckoner.Text.Split
import Reckoner.Number.Binary64

namespace Reckoner.Integer

open Text

/-- Why a text spells no whole number. -/
inductive Fault where
  | unreadable
  | tooLarge
  deriving DecidableEq, Repr

-- ============================================================ the clearing

/-- Digits other than zero. -/
def isNonzeroDigit (c : Char) : Bool := '1' ≤ c && c ≤ '9'

/-- A text without the zeros in front of it and the underscores among
them. The last of them is kept if the text ends there or goes on with a
point. -/
def withoutZeros? : List Char → Option (List Char)
  | [] => none
  | c :: rest =>
      if c == '0' then go c rest
      else if isNonzeroDigit c || c == '-' then some (c :: rest)
      else none
where
  /-- What is left of the text after its first zero, given the last
  character that was taken off. -/
  go (last : Char) : List Char → Option (List Char)
    | [] => some [last]
    | c :: rest =>
        if c == '0' || c == '_' then go c rest
        else if c == '.' then some (last :: c :: rest)
        else if isNonzeroDigit c || c == '-' then some (c :: rest)
        else none

/-- A text without the point and the zeros that may end it. -/
def withoutFraction (cs : List Char) : List Char :=
  match splitFirst '.' cs with
  | (whole, some fraction) =>
      if !fraction.isEmpty && fraction.all (· == '0') then whole else cs
  | (_, none) => cs

/-- A text without its underscores, each of which must stand alone between
two other characters. -/
def withoutGaps (cs : List Char) : List Char :=
  let groups := splitOn '_' cs
  if groups.any List.isEmpty then cs else groups.flatten

/-- What a text without its sign comes to when all that counts for nothing
is taken off. -/
def clear? (cs : List Char) : Option (List Char) :=
  (withoutZeros? cs).map fun cs => withoutGaps (withoutFraction cs)

-- ============================================================= the reading

/-- The most characters that a number may have, its minus included. -/
def maxLength : Nat := 4300

/-- The number of a given sign that digits spell, of which the first may
be a zero only if it is the last as well. -/
def ofDigits (negative : Bool) (cs : List Char) : Except Fault Int :=
  let digits := cs.takeWhile isAsciiDigit
  if digits.head? = some '0' ∧ 1 < cs.length then .error .unreadable
  else if maxLength < digits.length + negative.toNat then .error .tooLarge
  else if digits.isEmpty ∨ digits.length < cs.length then .error .unreadable
  else
    let n : Int := digitsToNat (digits.map fun c => c.toNat - '0'.toNat)
    .ok (if negative then -n else n)

/-- The number that a cleared text spells; its minus may be in it or have
been in front. -/
def ofCleared (negative : Bool) : List Char → Except Fault Int
  | '-' :: digits =>
      if negative then .error .unreadable else ofDigits true digits
  | digits => ofDigits negative digits

/-- The sign of a text, and what follows it. -/
def sign? : List Char → Option (Bool × List Char)
  | '+' :: '-' :: _ => none
  | '+' :: rest => some (false, rest)
  | '-' :: rest => some (true, rest)
  | cs => some (false, cs)

/-- The whole number that a text spells. -/
def read (s : String) : Except Fault Int :=
  match sign? (trimBoth isWhiteSpace s.toList) with
  | none => .error .unreadable
  | some (negative, cs) =>
      match clear? cs with
      | none => .error .unreadable
      | some cs => ofCleared negative cs

/-- The value of a whole double. -/
def ofFloat? (x : Float) : Option Int :=
  let parts := Binary64.parts x
  match parts with
  | .finite negative m q =>
      if parts.isWhole then
        let n : Int := (m * Nat.pow 2 q.toNat / Nat.pow 2 (-q).toNat : Nat)
        some (if negative then -n else n)
      else none
  | _ => none

end Reckoner.Integer

/-
What a scalar of a document means.

A scalar without quotes is null, a truth value, a number, a date, a moment,
the sign of a merge or of a default or, failing these, a text. Truth values
are the words `yes no true false on off` in three spellings each. Integers
are decimal, octal after a leading zero, hexadecimal after `0x`, binary
after `0b`, or groups of base sixty joined by colons; underscores between
their digits are passed over. A number with a point is a float, and so are
groups of base sixty of which the last has a point.

A scalar can look like a value of its kind and be none: a date that the
calendar does not have, or an integer whose digits are all underscores. A
scalar whose kind is given by a tag need not even look like one.

Bytes are written in base sixty-four, four characters for three of them,
and always under a tag.
-/
import Reckoner.Document
import Reckoner.Document.Problem
import Reckoner.Number.Decimal
import Reckoner.Text.Split

namespace Reckoner.Document.Scalar

open Text

/-- The kinds of scalars. -/
inductive Kind where
  | null
  | bool
  | int
  | float
  | time
  | binary
  /-- The sign that the entries of other mappings are to be taken over. -/
  | merge
  /-- The sign of the default value of a mapping. -/
  | default
  | text
  /-- A kind that only others know. -/
  | foreign
  deriving DecidableEq, Repr

-- ================================================================ the words

def spellings (word : String) : List String :=
  [word, word.capitalize, word.map Char.toUpper]

def truthWords : List (String × Bool) :=
  [("yes", true), ("no", false), ("true", true), ("false", false),
    ("on", true), ("off", false)]

def looksBool (s : String) : Bool :=
  truthWords.any fun (word, _) => (spellings word).contains s

def bool (s : String) : Except Problem Bool :=
  (truthWords.lookup (s.map Char.toLower)).elim (.error .notTruthValue) .ok

def isNull (s : String) : Bool :=
  s.isEmpty || s == "~" || (spellings "null").contains s

-- ===================================================== the looks of numbers

def dense (cs : List Char) : List Char := cs.filter (· != '_')

/-- The value of a digit in a base up to sixteen. -/
def digitIn? (base : Nat) (c : Char) : Option Nat :=
  let worth :=
    if isAsciiDigit c then some (c.toNat - '0'.toNat)
    else if 'a' ≤ c && c ≤ 'f' then some (c.toNat - 'a'.toNat + 10)
    else if 'A' ≤ c && c ≤ 'F' then some (c.toNat - 'A'.toNat + 10)
    else none
  worth.filter (· < base)

/-- Whether a text consists of digits of a base and underscores. -/
def areDigits (base : Nat) (cs : List Char) : Bool :=
  (dense cs).all fun c => (digitIn? base c).isSome

/-- Whether a text consists of a decimal digit and further digits and
underscores. -/
def isWhole (cs : List Char) : Bool :=
  cs.head?.any isAsciiDigit && areDigits 10 cs

/-- Whether a text is a group after the first in base sixty: one digit, or
two digits below sixty. -/
def isSixtieth : List Char → Bool
  | [a] => isAsciiDigit a
  | [a, b] => '0' ≤ a && a ≤ '5' && isAsciiDigit b
  | _ => false

/-- Whether a text looks like the magnitude of an integer. -/
def looksMagnitude (cs : List Char) : Bool :=
  match cs with
  | '0' :: 'b' :: digits => !digits.isEmpty && areDigits 2 digits
  | '0' :: 'x' :: digits => !digits.isEmpty && areDigits 16 digits
  | '0' :: digits => areDigits 8 digits
  | cs =>
      match splitOn ':' cs with
      | first :: groups => isWhole first && groups.all isSixtieth
      | [] => false

def looksInt (s : String) : Bool := looksMagnitude (Decimal.sign s.toList).2

/-- Whether a text is nothing or an exponent: `e`, a sign that must be
there, and digits. -/
def isExponent : List Char → Bool
  | [] => true
  | e :: sign :: digits =>
      (e == 'e' || e == 'E') && (sign == '+' || sign == '-')
        && !digits.isEmpty && digits.all isAsciiDigit
  | _ => false

/-- Whether a text looks like a magnitude in decimal notation, which has a
point. Where nothing comes before the point, there must be no sign and the
first character after it must be a digit. -/
def looksDecimal (isSigned : Bool) (cs : List Char) : Bool :=
  match splitFirst '.' cs with
  | (whole, some rest) =>
      let isDigitOrGap (c : Char) := isAsciiDigit c || c == '_'
      let startsWell :=
        if whole.isEmpty then !isSigned && rest.head?.any isAsciiDigit
        else isWhole whole
      startsWell && isExponent (rest.dropWhile isDigitOrGap)
  | (_, none) => false

/-- Whether a text looks like a magnitude in base sixty: at least two
groups, of which the last alone has a point, and after it digits and
underscores at most. -/
def looksSexagesimal (cs : List Char) : Bool :=
  match splitOn ':' cs with
  | first :: second :: more =>
      let last := splitFirst '.' ((second :: more).getLastD [])
      isWhole first && (second :: more).dropLast.all isSixtieth
        && isSixtieth last.1 && last.2.any (areDigits 10)
  | _ => false

/-- Whether a scalar looks like a float, the words for infinity and NaN
included. -/
def looksFloat (s : String) : Bool :=
  let cs := (Decimal.sign s.toList).2
  [".nan", ".NaN", ".NAN"].contains s
    || ([".inf", ".Inf", ".INF"].any fun word => word.toList == cs)
    || looksDecimal (cs != s.toList) cs || looksSexagesimal cs

-- ==================================================== the values of numbers

/-- The most decimal digits of an integer that are read. -/
def maxDigits : Nat := 4300

/-- The integer that a text spells in a base, white space around it
disregarded. -/
def intIn (base : Nat) (cs : List Char) : Except Problem Int :=
  let (negative, digits) := Decimal.sign (trimBoth isWhiteSpace cs)
  match digits.mapM (digitIn? base) with
  | none | some [] => .error (.notInteger base (String.ofList cs))
  | some digits =>
      if base = 10 ∧ maxDigits < digits.length then
        .error (.tooManyDigits digits.length)
      else
        let n := digits.foldl (fun n d => base * n + d) 0
        .ok (if negative then -(n : Int) else n)

/-- The integer of a text without sign and underscores: its first characters
tell the base, and colons that the base is sixty. -/
def magnitude (cs : List Char) : Except Problem Int :=
  match cs with
  | [] => .error .emptyNumber
  | ['0'] => .ok 0
  | '0' :: 'b' :: digits => intIn 2 digits
  | '0' :: 'x' :: digits => intIn 16 digits
  | '0' :: _ => intIn 8 cs
  | _ =>
      ((splitOn ':' cs).mapM (intIn 10)).map fun groups =>
        groups.foldl (fun n group => 60 * n + group) 0

def int (s : String) : Except Problem Int :=
  let (negative, cs) := Decimal.sign (dense s.toList)
  (magnitude cs).map fun n => if negative then -n else n

def floatOf (cs : List Char) : Except Problem Float :=
  (Decimal.read? (String.ofList cs)).elim
    (.error (.notFloat (String.ofList cs))) .ok

/-- What groups in base sixty are worth, the last of them first, given what
those before them came to and what the next place is worth. -/
def sixtieths (total : Float) (place : Nat) : List Float → Except Problem Float
  | [] => .ok total
  | group :: more =>
      match Binary64.ofInt? place with
      | some worth => sixtieths (total + group * worth) (place * 60) more
      | none => .error .oversizedPlace

/-- The float that a text spells, in which underscores count for nothing.
Colons tell that the base is sixty. -/
def float (s : String) : Except Problem Float := do
  let chars := (dense s.toList).map Char.toLower
  let (negative, cs) := Decimal.sign chars
  if chars.isEmpty then .error .emptyNumber
  else
    let signed (x : Float) := if negative then -x else x
    if cs = ".inf".toList then .ok (signed (Binary64.infinity false))
    else if cs = ".nan".toList then .ok Binary64.nan
    else if cs.contains ':' then do
      let groups ← (splitOn ':' cs).mapM floatOf
      let total ← sixtieths 0.0 1 groups.reverse
      .ok (signed total)
    else (floatOf cs).map signed

-- ================================================================= the times

def figure? (least greatest : Nat) (cs : List Char) :
    Option (Nat × List Char) :=
  let digits := (cs.take greatest).takeWhile isAsciiDigit
  if digits.length < least then none
  else
    some (digitsToNat (digits.map fun c => c.toNat - '0'.toNat),
      cs.drop digits.length)

def after? (c : Char) : List Char → Option (List Char)
  | first :: rest => if first = c then some rest else none
  | [] => none

/-- A date with a month and a day of one digit or two each, and what follows
it. -/
def dateFigures? (cs : List Char) : Option (Calendar.Date × List Char) := do
  let (year, rest) ← figure? 4 4 cs
  let (month, rest) ← figure? 1 2 (← after? '-' rest)
  let (day, rest) ← figure? 1 2 (← after? '-' rest)
  some (⟨year, month, day⟩, rest)

/-- The fraction of a second that may follow a point, in microseconds, and
what follows it. Further digits are dropped. -/
def fraction (cs : List Char) : Nat × List Char :=
  match cs with
  | '.' :: rest =>
      let digits := rest.takeWhile isAsciiDigit
      let six := (digits ++ List.replicate 6 '0').take 6
      (digitsToNat (six.map fun c => c.toNat - '0'.toNat),
        rest.drop digits.length)
  | cs => (0, cs)

/-- The clock that a moment is shown by, as the end of a text says it:
nothing, `Z`, or a sign, hours and perhaps minutes. -/
def clock? (cs : List Char) : Option (Option Int) :=
  match cs with
  | [] => some none
  | _ =>
      match cs.dropWhile (fun c => c == ' ' || c == '\t') with
      | ['Z'] => some (some 0)
      | sign :: rest => do
          guard (sign == '+' || sign == '-')
          let (hours, rest) ← figure? 1 2 rest
          let minutes ←
            match rest with
            | [] => some 0
            | ':' :: rest => do
                let (minutes, rest) ← figure? 2 2 rest
                guard rest.isEmpty
                some minutes
            | _ => none
          let offset : Int := 60 * hours + minutes
          some (some (if sign == '-' then -offset else offset))
      | [] => none

/-- What stands between a date and a time of day: a `T`, or blanks. -/
def afterDate? : List Char → Option (List Char)
  | c :: rest =>
      if c == 'T' || c == 't' then some rest
      else if c == ' ' || c == '\t' then
        some (rest.dropWhile fun c => c == ' ' || c == '\t')
      else none
  | [] => none

/-- The date or moment that a scalar spells, whether or not the calendar
has it. -/
def time? (s : String) : Option (Except Problem Document) := do
  let (day, rest) ← dateFigures? s.toList
  if rest.isEmpty then some ((day.check.mapError .noSuchTime).map .date)
  else
    let (hour, rest) ← figure? 1 2 (← afterDate? rest)
    let (minute, rest) ← figure? 2 2 (← after? ':' rest)
    let (second, rest) ← figure? 2 2 (← after? ':' rest)
    let (microsecond, rest) := fraction rest
    let offset ← clock? rest
    let m : Calendar.Moment := ⟨day, hour, minute, second, microsecond, offset⟩
    some ((m.check.mapError .noSuchTime).map .moment)

def looksTime (s : String) : Bool := 10 ≤ s.length && (time? s).isSome

-- ================================================================ the bytes

/-- The value of a digit in base sixty-four. -/
def sixtyFourth? (c : Char) : Option Nat :=
  if 'A' ≤ c && c ≤ 'Z' then some (c.toNat - 'A'.toNat)
  else if 'a' ≤ c && c ≤ 'z' then some (c.toNat - 'a'.toNat + 26)
  else if isAsciiDigit c then some (c.toNat - '0'.toNat + 52)
  else if c == '+' then some 62
  else if c == '/' then some 63
  else none

/-- The bytes that a group of digits in base sixty-four is worth. -/
def groupBytes : List Nat → List UInt8
  | a :: b :: more => .ofNat (4 * a + b / 16) :: groupBytes.rest b more
  | _ => []
where
  rest (b : Nat) : List Nat → List UInt8
  | [] => []
  | [c] => [.ofNat (b % 16 * 16 + c / 4)]
  | c :: d :: _ => [.ofNat (b % 16 * 16 + c / 4), .ofNat (c % 4 * 64 + d)]

/-- The bytes that characters in base sixty-four spell, given the digits of
a group and how many signs for missing ones came since the last of them.
Such signs end the text where they fill the group, and count for nothing
before it has two digits; characters that are no digits are passed over. -/
def sixtyFourBytes (group : List Nat) (missing : Nat) :
    List Char → Option (List UInt8)
  | [] => if group.isEmpty then some [] else none
  | c :: more =>
      if c == '=' then
        if group.length < 2 then sixtyFourBytes group missing more
        else if 4 ≤ group.length + missing + 1 then some (groupBytes group)
        else sixtyFourBytes group (missing + 1) more
      else
        match sixtyFourth? c with
        | none => sixtyFourBytes group missing more
        | some digit =>
            if group.length < 3 then
              sixtyFourBytes (group ++ [digit]) 0 more
            else
              (sixtyFourBytes [] 0 more).map
                (groupBytes (group ++ [digit]) ++ ·)

def binary (s : String) : Except Problem (List UInt8) :=
  if s.toList.all (·.toNat < 0x80) then
    (sixtyFourBytes [] 0 s.toList).elim (.error .illFormed) .ok
  else .error .illFormed

-- =============================================================== the meaning

def impliedKind (s : String) : Kind :=
  if isNull s then .null
  else if looksBool s then .bool
  else if looksFloat s then .float
  else if looksInt s then .int
  else if looksTime s then .time
  else if s == "<<" then .merge
  else if s == "=" then .default
  else .text

/-- What a scalar of a kind means. The signs of a merge and of a default
mean nothing by themselves. -/
def meaning (kind : Kind) (s : String) : Except Problem Document :=
  match kind with
  | .null => .ok .null
  | .bool => (bool s).map .bool
  | .int => (int s).map .int
  | .float => (float s).map .float
  | .time => (time? s).getD (.error .notTime)
  | .binary => (binary s).map .bytes
  | .text => .ok (.text s)
  | .merge | .default | .foreign => .error .illFormed

end Reckoner.Document.Scalar

/-
How a result is written: the shortest digits that read back equal, laid
out by one record of choices.

`Layout.result` is the layout of results: positional from `0.0001` up
to below `10 ^ 16`, always with at least one decimal, and beyond that a
point after the first digit (left out where there is only one digit) and
an exponent of at least two digits that always has its sign.
-/
import Reckoner.Number.Shortest

namespace Reckoner

-- ============================================================ the choices

/-- The choices that turn digits into text. -/
structure Layout where
  leastPositional : Int
  greatestPositional : Int
  /-- What ends a positional whole number. -/
  wholeEnding : String
  exponentMark : String
  /-- The fewest digits of an exponent. -/
  exponentWidth : Nat
  infinityText : String
  nanText : String

/-- The layout of results. -/
def Layout.result : Layout where
  leastPositional := -4
  greatestPositional := 15
  wholeEnding := ".0"
  exponentMark := "e"
  exponentWidth := 2
  infinityText := "inf"
  nanText := "nan"

namespace Layout

-- ============================================================= the layout

/-- A run of zeros. -/
def zeros (count : Nat) : String := String.ofList (List.replicate count '0')

/-- A signed exponent, padded to the layout's width. -/
def exponentText (layout : Layout) (exponent : Int) : String :=
  let digits := toString exponent.natAbs
  (if exponent < 0 then "-" else "+")
    ++ zeros (layout.exponentWidth - digits.length) ++ digits

/-- Digits with the point after the first one and an exponent. -/
def scientific (layout : Layout) (digits : String) (exponent : Int) : String :=
  let fraction := digits.drop 1
  (digits.take 1).toString
    ++ (if fraction.isEmpty then "" else "." ++ fraction.toString)
    ++ layout.exponentMark ++ layout.exponentText exponent

/-- Digits with the point where it belongs. -/
def positional (layout : Layout) (digits : String) (exponent : Int) : String :=
  if exponent < 0 then "0." ++ zeros (-exponent - 1).toNat ++ digits
  else
    let wholeWidth := exponent.toNat + 1
    if digits.length ≤ wholeWidth then
      digits ++ zeros (wholeWidth - digits.length) ++ layout.wholeEnding
    else (digits.take wholeWidth).toString ++ "."
      ++ (digits.drop wholeWidth).toString

/-- A decimal in the given layout. The exponent is that of the first
digit. -/
def decimal (layout : Layout) (d : Shortest.Decimal) : String :=
  let digits := toString d.digits
  let exponent := d.scale + digits.length - 1
  if layout.leastPositional ≤ exponent
    && exponent ≤ layout.greatestPositional then
    layout.positional digits exponent
  else layout.scientific digits exponent

/-- A double in the given layout. -/
def render (layout : Layout) (x : Float) : String :=
  match Binary64.parts x with
  | .nan => layout.nanText
  | .infinite negative => (if negative then "-" else "") ++ layout.infinityText
  | .finite negative m q =>
      (if negative then "-" else "") ++ layout.decimal (Shortest.ofFinite m q)

end Layout

def formatValue (x : Float) : String := Layout.result.render x

end Reckoner

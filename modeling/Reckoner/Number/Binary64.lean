/-
Doubles taken apart: sign, whole significand and binary exponent, so
that questions about a double's exact value (is it whole, is it odd, how
far is its neighbour) are questions about natural numbers.

A finite double is `significand * 2 ^ exponent` up to its sign; the
significand stays below `2 ^ 53` and the exponent never falls under
-1074. Everything that prints or classifies a double starts from `parts`.
-/
namespace Reckoner.Binary64

-- ============================================================= the parts

/-- What the 64 bits of a double stand for. -/
inductive Parts where
  | nan
  | infinite (negative : Bool)
  | finite (negative : Bool) (significand : Nat) (exponent : Int)
  deriving DecidableEq, Repr

/-- The parts that a bit pattern stands for: one sign bit, eleven bits
of biased exponent, 52 bits of fraction. -/
def partsOfBits (bits : Nat) : Parts :=
  let negative := bits / Nat.pow 2 63 % 2 == 1
  let biased : Nat := bits / Nat.pow 2 52 % Nat.pow 2 11
  let fraction := bits % Nat.pow 2 52
  if biased = 2047 then
    if fraction = 0 then .infinite negative else .nan
  else if biased = 0 then .finite negative fraction (-1074)
  else .finite negative (Nat.pow 2 52 + fraction) ((biased : Int) - 1075)

def parts (x : Float) : Parts := partsOfBits x.toBits.toNat

-- ======================================================== classification

/-- Whether the value has no fractional part. -/
def Parts.isWhole : Parts → Bool
  | .finite _ m q => 0 ≤ q || m % Nat.pow 2 (-q).toNat == 0
  | _ => false

/-- Whether the value is an odd whole number. A whole number whose unit
is two or more is even. -/
def Parts.isOdd : Parts → Bool
  | .finite _ m q =>
      q ≤ 0 && m % Nat.pow 2 (-q).toNat == 0
        && m / Nat.pow 2 (-q).toNat % 2 == 1
  | _ => false

def Parts.isFinite : Parts → Bool
  | .finite .. => true
  | _ => false

def Parts.isInfinite : Parts → Bool
  | .infinite _ => true
  | _ => false

def Parts.isZero : Parts → Bool
  | .finite _ m _ => m == 0
  | _ => false

/-- The sign bit of a value that is not NaN. -/
def Parts.isNegative : Parts → Bool
  | .finite negative _ _ => negative
  | .infinite negative => negative
  | .nan => false

/-- Odd numbers are whole. -/
theorem Parts.isWhole_of_isOdd {p : Parts} (h : p.isOdd = true) :
    p.isWhole = true := by
  cases p with
  | nan => cases h
  | infinite negative => cases h
  | finite negative m q =>
      simp only [isOdd, Bool.and_eq_true] at h
      simp only [isWhole, h.1.2, Bool.or_true]

-- ========================================================= constructions

def infinity (negative : Bool) : Float :=
  if negative then Float.ofBits 0xFFF0000000000000
  else Float.ofBits 0x7FF0000000000000

def nan : Float := Float.ofBits 0x7FF8000000000000

/-- The double nearest to an integer, ties to the even significand;
none where that would be an infinity. -/
def ofInt? (n : Int) : Option Float :=
  let x := Float.ofInt n
  if x.isFinite then some x else none

end Reckoner.Binary64

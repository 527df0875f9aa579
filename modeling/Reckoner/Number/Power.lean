/-
Raising to a power, with a value for every pair of doubles.

The checked power of numerical libraries refuses two kinds of finite
arguments: those whose power has no real value (a zero to a negative
exponent, a negative base to a fractional one), and those whose power is
too large for a double. `power` gives the refused ones the values that
the floating-point standard prescribes: NaN for a negative base to a
fractional exponent, and otherwise an infinity. A power of zero takes its
sign from the base, a large one is negative if the base is, and both only
where the exponent is odd.

Main facts: on the refused arguments the exponent decides alone whether
the sign of the base counts (`power_of_zero`, `powerOfRangeFault_eq`).
-/
import Reckoner.Number.Binary64

namespace Reckoner

open Binary64

-- ================================================== the refused arguments

/-- Finite arguments whose power has no real value. -/
def powDomainFault (base exponent : Parts) : Bool :=
  base.isFinite && exponent.isFinite
    && ((base.isZero && exponent.isNegative && !exponent.isZero)
      || (base.isNegative && !base.isZero && !exponent.isWhole))

/-- Finite arguments whose power, given as the third argument, is too
large for a double. -/
def powRangeFault (base exponent result : Parts) : Bool :=
  base.isFinite && exponent.isFinite && !base.isZero && result.isInfinite

-- ================================================================= power

/-- The power of refused arguments of the first kind. -/
def powerOfDomainFault (base exponent : Parts) : Float :=
  if base.isZero then
    if exponent.isOdd then infinity base.isNegative else infinity false
  else nan

/-- The power of refused arguments of the second kind. -/
def powerOfRangeFault (base exponent : Parts) : Float :=
  if base.isNegative && exponent.isOdd then infinity true else infinity false

/-- `base` to the power `exponent`, defined for every pair of doubles. -/
def power (base exponent : Float) : Float :=
  let result := base.pow exponent
  if powDomainFault (parts base) (parts exponent) then
    powerOfDomainFault (parts base) (parts exponent)
  else if powRangeFault (parts base) (parts exponent) (parts result) then
    powerOfRangeFault (parts base) (parts exponent)
  else result

-- ============================================================== the facts

/-- Of a refused power of zero the sign is that of the base where the
exponent is odd. -/
theorem power_of_zero {base exponent : Parts} (h : base.isZero = true) :
    powerOfDomainFault base exponent
      = infinity (base.isNegative && exponent.isOdd) := by
  simp only [powerOfDomainFault, h, if_true]
  cases exponent.isOdd <;> simp

/-- Of a power that is too large the sign is that of the base where the
exponent is odd. -/
theorem powerOfRangeFault_eq (base exponent : Parts) :
    powerOfRangeFault base exponent
      = infinity (base.isNegative && exponent.isOdd) := by
  unfold powerOfRangeFault
  cases base.isNegative <;> cases exponent.isOdd <;> rfl

end Reckoner

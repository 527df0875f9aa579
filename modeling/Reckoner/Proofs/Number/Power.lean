/-
Powers where a checked power refuses.

A checked power of doubles gives the power of the floating-point standard or
refuses its arguments. Which ones is said of their exact values (`value?`),
which are rational: a power that is no real number is refused (`NoRealPower`),
one that is too large may be (`ChecksPower`). The guarded power has a value
for what is refused. Where the sign depends on the parity of the exponent it
converts the exponent to an integer, which infinities and NaN do not have;
they are ruled out first, so the conversion never fails (`isOddWhole_eq`).

The definition that runs goes by significand and binary exponent instead. It
is the guarded power over the checked power that refuses all it may
(`guardedPower_checkedPower`).
-/
import Mathlib.Algebra.Order.Field.Power
import Mathlib.Algebra.Ring.Int.Parity
import Mathlib.Data.Nat.Cast.Field
import Mathlib.Tactic.NormNum
import Mathlib.Tactic.Positivity
import Reckoner.Number.Power

namespace Reckoner

open Binary64

namespace Binary64.Parts

-- ============================================================== the values

/-- The exact value of a finite double. -/
def value? : Parts → Option ℚ
  | .finite negative m q => some (if negative then -(m * 2 ^ q) else m * 2 ^ q)
  | _ => none

/-- What `m * 2 ^ q` is without its fraction. -/
def wholePart (m : Nat) (q : Int) : Nat :=
  if 0 ≤ q then m * 2 ^ q.toNat else m / 2 ^ (-q).toNat

section Whole

variable {negative : Bool} {m : Nat} {q : Int}

/-- With a unit below one, whole numbers are the multiples of what the unit is
the part of. -/
theorem isWhole_negSucc_iff {k : Nat} :
    (finite negative m (.negSucc k)).isWhole = true ↔ 2 ^ (k + 1) ∣ m := by
  have hwhole :
      (finite negative m (.negSucc k)).isWhole = (m % 2 ^ (k + 1) == 0) := rfl
  rw [hwhole, beq_iff_eq, Nat.dvd_iff_mod_eq_zero]

private theorem eq_wholePart (h : (finite negative m q).isWhole = true) :
    (m * 2 ^ q : ℚ) = wholePart m q := by
  cases q with
  | ofNat k => simp [wholePart]
  | negSucc k =>
      have hdvd := isWhole_negSucc_iff.mp h
      have hwhole : wholePart m (.negSucc k) = m / 2 ^ (k + 1) := rfl
      rw [hwhole, Nat.cast_div hdvd (by positivity), zpow_negSucc,
        div_eq_mul_inv]
      push_cast
      rfl

private theorem isWhole_of_eq {n : Int} (h : (m * 2 ^ q : ℚ) = n) :
    (finite negative m q).isWhole = true := by
  cases q with
  | ofNat k => rfl
  | negSucc k =>
      have hm : (m : ℚ) = 2 ^ (k + 1) * n := by
        rw [← h, zpow_negSucc, mul_comm, inv_mul_cancel_right₀ (by positivity)]
      have hdvd : ((2 ^ (k + 1) : Nat) : Int) ∣ m := ⟨n, by exact_mod_cast hm⟩
      exact isWhole_negSucc_iff.mpr (Int.natCast_dvd_natCast.mp hdvd)

/-- An odd number is one that is whole and odd as such. -/
theorem isOdd_finite : (finite negative m q).isOdd
    = ((finite negative m q).isWhole && wholePart m q % 2 == 1) := by
  cases q with
  | ofNat k =>
      cases k with
      | zero => simp [isOdd, isWhole, wholePart, Nat.mod_one]
      | succ k =>
          -- from a unit of two on, all numbers are even
          have hodd : (finite negative m (k + 1 : Nat)).isOdd = false := rfl
          have hwhole : wholePart m (k + 1 : Nat) = m * 2 ^ (k + 1) := rfl
          have heven : m * 2 ^ (k + 1) % 2 = 0 := by
            rw [Nat.pow_succ, ← Nat.mul_assoc, Nat.mul_mod_left]
          show (finite negative m (k + 1 : Nat)).isOdd
            = (true && wholePart m (k + 1 : Nat) % 2 == 1)
          rw [hodd, hwhole, heven]
          rfl
  | negSucc k => rfl

end Whole

section Value

variable {p : Parts} {x : ℚ}

private theorem isFinite_iff : p.isFinite = true ↔ ∃ x, p.value? = some x := by
  cases p <;> simp [isFinite, value?]

/-- The parts are those of zero exactly for the value zero. -/
theorem isZero_iff (h : p.value? = some x) : p.isZero = true ↔ x = 0 := by
  cases p with
  | nan | infinite => cases h
  | finite negative m q =>
      have hunit : (2 ^ q : ℚ) ≠ 0 := by positivity
      cases negative <;> cases h <;> simp [isZero, hunit]

/-- The sign of the parts is that of the value, zero apart. -/
theorem isNegative_iff (h : p.value? = some x) (hx : x ≠ 0) :
    p.isNegative = true ↔ x < 0 := by
  cases p with
  | nan | infinite => cases h
  | finite negative m q =>
      have hvalue : (0 : ℚ) ≤ m * 2 ^ q := by positivity
      cases negative with
      | false =>
          cases h
          simpa [isNegative] using hvalue
      | true =>
          cases h
          have hpos : (0 : ℚ) < m * 2 ^ q :=
            lt_of_le_of_ne hvalue (by simpa using hx.symm)
          simpa [isNegative] using hpos

/-- A double is below zero if it has a sign and is not zero. -/
theorem isNegative_and_iff (h : p.value? = some x) :
    p.isNegative = true ∧ p.isZero = false ↔ x < 0 := by
  rw [Bool.eq_false_iff, ne_eq, isZero_iff h]
  constructor
  · rintro ⟨hnegative, hx⟩
    exact (isNegative_iff h hx).mp hnegative
  · intro hx
    exact ⟨(isNegative_iff h hx.ne).mpr hx, hx.ne⟩

end Value

-- ========================================================== the conversion

/-- What cannot be converted to an integer. -/
inductive NotConverted where
  | infinite
  | nan
  deriving DecidableEq, Repr

/-- A finite double as an integer, without its fraction. -/
def toInt : Parts → Except NotConverted Int
  | .nan => .error .nan
  | .infinite _ => .error .infinite
  | .finite negative m q =>
      .ok (if negative then -wholePart m q else wholePart m q)

/-- Whether a double is an odd whole number, by its conversion to an
integer. -/
def isOddWhole (p : Parts) : Except NotConverted Bool :=
  if p.isFinite then do
    let n ← p.toInt
    .ok (p.value? = some (n : ℚ) ∧ n % 2 = 1)
  else .ok false

section Conversion

variable {p : Parts} {x : ℚ}

/-- A whole number is converted to itself. -/
theorem exists_toInt (h : p.isWhole = true) :
    ∃ n : Int, p.toInt = .ok n ∧ p.value? = some (n : ℚ)
      ∧ (n % 2 = 1 ↔ p.isOdd = true) := by
  cases p with
  | nan | infinite => cases h
  | finite negative m q =>
      have hvalue := eq_wholePart h
      have hodd : (finite negative m q).isOdd = true
          ↔ wholePart m q % 2 = 1 := by
        rw [isOdd_finite, h, Bool.true_and, beq_iff_eq]
      refine ⟨_, rfl, ?_, ?_⟩
      · cases negative <;> simp [value?, hvalue]
      · rw [hodd]
        cases negative <;> simp <;> omega

/-- Parts are whole if the value is an integer. -/
theorem isWhole_iff (h : p.value? = some x) : p.isWhole = true
    ↔ ∃ n : Int, x = n := by
  constructor
  · intro hwhole
    obtain ⟨n, -, hvalue, -⟩ := exists_toInt hwhole
    exact ⟨n, Option.some.inj (h.symm.trans hvalue)⟩
  · rintro ⟨n, rfl⟩
    cases p with
    | nan | infinite => cases h
    | finite negative m q =>
        have hvalue := Option.some.inj h
        cases negative with
        | false => exact isWhole_of_eq hvalue
        | true => exact isWhole_of_eq (n := -n) (by simp [← hvalue])

/-- They are odd if it is an odd one. -/
theorem isOdd_iff (h : p.value? = some x) :
    p.isOdd = true ↔ ∃ n : Int, Odd n ∧ x = n := by
  constructor
  · intro hodd
    obtain ⟨n, -, hvalue, hparity⟩ := exists_toInt (isWhole_of_isOdd hodd)
    exact ⟨n, Int.odd_iff.mpr (hparity.mpr hodd),
      Option.some.inj (h.symm.trans hvalue)⟩
  · rintro ⟨n, hodd, rfl⟩
    obtain ⟨n', -, hvalue, hparity⟩ :=
      exists_toInt ((isWhole_iff h).mpr ⟨n, rfl⟩)
    obtain rfl : n = n' :=
      Int.cast_injective (Option.some.inj (h.symm.trans hvalue))
    exact hparity.mp (Int.odd_iff.mp hodd)

/-- The conversion does not fail, and the parity is that of the parts. -/
theorem isOddWhole_eq (p : Parts) : p.isOddWhole = .ok p.isOdd := by
  cases hfinite : p.isFinite with
  | false => cases p <;> first | rfl | cases hfinite
  | true =>
      obtain ⟨n, hn⟩ : ∃ n, p.toInt = .ok n := by
        cases p <;> first | exact ⟨_, rfl⟩ | cases hfinite
      have hresult :
          p.isOddWhole = .ok (p.value? = some (n : ℚ) ∧ n % 2 = 1) := by
        rw [isOddWhole, hfinite, hn]
        rfl
      rw [hresult, Except.ok.injEq, Bool.eq_iff_iff, decide_eq_true_iff]
      constructor
      · rintro ⟨hvalue, hparity⟩
        exact (isOdd_iff hvalue).mpr ⟨n, Int.odd_iff.mpr hparity, rfl⟩
      · intro hodd
        obtain ⟨n', hn', hvalue, hparity⟩ :=
          exists_toInt (isWhole_of_isOdd hodd)
        obtain rfl : n = n' := Except.ok.inj (hn.symm.trans hn')
        exact ⟨hvalue, hparity.mpr hodd⟩

end Conversion

end Binary64.Parts

open Parts

-- ======================================================= the checked power

/-- Why a checked power refuses its arguments. -/
inductive PowerRefusal where
  | domain
  | range
  deriving DecidableEq, Repr

/-- A power that gives a double or refuses its arguments. -/
abbrev CheckedPower := Float → Float → Except PowerRefusal Float

/-- Whether a power is no real number: one of zero to a negative exponent, or
one of a negative base to a fractional exponent. -/
def NoRealPower (base exponent : ℚ) : Prop :=
  base = 0 ∧ exponent < 0 ∨ base < 0 ∧ ¬ ∃ n : Int, exponent = n

/-- A checked power refuses finite arguments whose power is no real number and
no others as outside its domain. As outside its range it may refuse finite
arguments whose power is too large. Otherwise it gives the power of the
floating-point standard. -/
structure ChecksPower (checked : CheckedPower) : Prop where
  domain_iff : ∀ base exponent, checked base exponent = .error .domain ↔
    ∃ x y, (parts base).value? = some x ∧ (parts exponent).value? = some y
      ∧ NoRealPower x y
  range : ∀ base exponent, checked base exponent = .error .range →
    (∃ x y, (parts base).value? = some x ∧ (parts exponent).value? = some y
      ∧ x ≠ 0)
      ∧ (parts (base.pow exponent)).isInfinite = true
  returned : ∀ base exponent x, checked base exponent = .ok x →
    x = base.pow exponent

/-- The checked power that refuses all that it may. -/
def checkedPower : CheckedPower := fun base exponent =>
  let result := base.pow exponent
  if powDomainFault (parts base) (parts exponent) then .error .domain
  else if powRangeFault (parts base) (parts exponent) (parts result) then
      .error .range
  else .ok result

/-- The domain is left where no real power exists. -/
theorem powDomainFault_iff {base exponent : Parts} :
    powDomainFault base exponent = true ↔
      ∃ x y, base.value? = some x ∧ exponent.value? = some y
        ∧ NoRealPower x y := by
  have hvalues : ∀ x y, base.value? = some x → exponent.value? = some y →
      (powDomainFault base exponent = true ↔ NoRealPower x y) := by
    intro x y hx hy
    have hbase : base.isFinite = true := isFinite_iff.mpr ⟨x, hx⟩
    have hexponent : exponent.isFinite = true := isFinite_iff.mpr ⟨y, hy⟩
    simp only [powDomainFault, hbase, hexponent, Bool.true_and,
      Bool.or_eq_true, Bool.and_eq_true, Bool.not_eq_true', and_assoc]
    rw [NoRealPower, ← isZero_iff hx, ← isNegative_and_iff hy,
      ← isNegative_and_iff hx, ← isWhole_iff hy, Bool.not_eq_true, and_assoc]
  constructor
  · intro h
    have hfinite := h
    simp only [powDomainFault, Bool.and_eq_true] at hfinite
    obtain ⟨x, hx⟩ := isFinite_iff.mp hfinite.1.1
    obtain ⟨y, hy⟩ := isFinite_iff.mp hfinite.1.2
    exact ⟨x, y, hx, hy, (hvalues x y hx hy).mp h⟩
  · rintro ⟨x, y, hx, hy, h⟩
    exact (hvalues x y hx hy).mpr h

private theorem values_of_powRangeFault {base exponent result : Parts}
    (h : powRangeFault base exponent result = true) :
    (∃ x y, base.value? = some x ∧ exponent.value? = some y ∧ x ≠ 0)
      ∧ result.isInfinite = true := by
  simp only [powRangeFault, Bool.and_eq_true, Bool.not_eq_true'] at h
  obtain ⟨⟨⟨hbase, hexponent⟩, hzero⟩, hresult⟩ := h
  obtain ⟨x, hx⟩ := isFinite_iff.mp hbase
  obtain ⟨y, hy⟩ := isFinite_iff.mp hexponent
  refine ⟨⟨x, y, hx, hy, ?_⟩, hresult⟩
  rwa [Bool.eq_false_iff, ne_eq, isZero_iff hx] at hzero

/-- The power that runs is checked as it has to be. -/
theorem checksPower_checkedPower : ChecksPower checkedPower where
  domain_iff base exponent := by
    rw [← powDomainFault_iff, checkedPower]
    split
    · next h => simp [h]
    · next h => split <;> simp [h]
  range base exponent h := by
    rw [checkedPower] at h
    split at h
    · cases h
    · split at h
      · next hrange => exact values_of_powRangeFault hrange
      · cases h
  returned base exponent x h := by
    rw [checkedPower] at h
    split at h
    · cases h
    · split at h
      · cases h
      · exact (Except.ok.inj h).symm

-- ======================================================= the guarded power

/-- The value for refused arguments: of those outside the range by the sign of
the base, unless it is zero, and the parity of the exponent, and of those
outside the domain also by whether the base is zero. -/
def powerOfRefused (base exponent : Parts) :
    PowerRefusal → Except NotConverted Float
  | .range =>
      if base.isNegative && !base.isZero then do
        let odd ← exponent.isOddWhole
        .ok (if odd then infinity true else infinity false)
      else .ok (infinity false)
  | .domain =>
      if base.isZero then do
        let odd ← exponent.isOddWhole
        .ok (if odd then infinity base.isNegative else infinity false)
      else .ok nan

/-- A checked power with a value for what it refuses. -/
def guardedPower (checked : CheckedPower) (base exponent : Float) :
    Except NotConverted Float :=
  match checked base exponent with
  | .ok x => .ok x
  | .error refusal => powerOfRefused (parts base) (parts exponent) refusal

private theorem powerOfRefused_domain (base exponent : Parts) :
    powerOfRefused base exponent .domain
      = .ok (powerOfDomainFault base exponent) := by
  rw [powerOfRefused, isOddWhole_eq, powerOfDomainFault]
  cases base.isZero <;> rfl

private theorem powerOfRefused_range {base : Parts} (exponent : Parts)
    (h : base.isZero = false) :
    powerOfRefused base exponent .range
      = .ok (powerOfRangeFault base exponent) := by
  rw [powerOfRefused, isOddWhole_eq, powerOfRangeFault, h]
  cases base.isNegative <;> rfl

/-- The power that runs is the guarded one. -/
theorem guardedPower_checkedPower (base exponent : Float) :
    guardedPower checkedPower base exponent = .ok (power base exponent) := by
  by_cases hdomain : powDomainFault (parts base) (parts exponent) = true
  · simp only [guardedPower, checkedPower, power, hdomain, if_true]
    exact powerOfRefused_domain _ _
  · by_cases hrange :
      powRangeFault (parts base) (parts exponent) (parts (base.pow exponent))
        = true
    · have hzero : (parts base).isZero = false := by
        simp only [powRangeFault, Bool.and_eq_true, Bool.not_eq_true']
          at hrange
        exact hrange.1.2
      simp only [guardedPower, checkedPower, power, hdomain, hrange, if_true]
      exact powerOfRefused_range _ hzero
    · simp [guardedPower, checkedPower, power, hdomain, hrange]

private theorem parts_infinity (negative : Bool) :
    parts (infinity negative) = .infinite negative := by
  cases negative <;> decide +kernel

private theorem parts_nan : parts nan = .nan := by decide +kernel

/-- The sign of an infinity for refused arguments. -/
theorem infinite_of_eq {base exponent : Parts} {y : ℚ} {result : Float}
    (hy : exponent.value? = some y)
    (h : result = infinity (base.isNegative && exponent.isOdd)) :
    ∃ negative, parts result = .infinite negative ∧ (negative = true ↔
      base.isNegative = true ∧ ∃ n : Int, Odd n ∧ y = n) := by
  refine ⟨_, h ▸ parts_infinity _, ?_⟩
  rw [Bool.and_eq_true, isOdd_iff hy]

/-- The guarded power has a value for all doubles, whatever checked power it
is built on; built on the one that refuses all it may, it is the power that
runs. What is not refused has the plain power. What is refused is finite, and
its power is NaN if the base is below zero and the exponent is no whole
number. Otherwise it is an infinity, which is negative if and only if the base
has a sign and the exponent is odd. -/
theorem guardedPower_prescribed :
    (∀ base exponent,
      guardedPower checkedPower base exponent = .ok (power base exponent))
    ∧ ∀ checked, ChecksPower checked → ∀ base exponent, ∃ result,
      guardedPower checked base exponent = .ok result
      ∧ (∀ x, checked base exponent = .ok x → result = base.pow exponent)
      ∧ ∀ refusal, checked base exponent = .error refusal →
        ∃ x y, (parts base).value? = some x ∧ (parts exponent).value? = some y
          ∧ ((x < 0 ∧ ¬ ∃ n : Int, y = n) → parts result = .nan)
          ∧ (¬ (x < 0 ∧ ¬ ∃ n : Int, y = n) →
            ∃ negative, parts result = .infinite negative ∧ (negative = true ↔
              (parts base).isNegative = true ∧ ∃ n : Int, Odd n ∧ y = n)) := by
  refine ⟨guardedPower_checkedPower, fun checked hchecked base exponent => ?_⟩
  rw [guardedPower]
  cases hpower : checked base exponent with
  | ok x =>
      refine ⟨x, rfl, fun _ _ => hchecked.returned _ _ _ hpower, ?_⟩
      intro _ hrefused
      cases hrefused
  | error refusal =>
      have hnone (result x : Float)
          (h : (.error refusal : Except PowerRefusal Float) = .ok x) :
          result = base.pow exponent := by
        cases h
      cases refusal with
      | domain =>
          obtain ⟨x, y, hx, hy, hdomain⟩ := (hchecked.domain_iff _ _).mp hpower
          refine ⟨_, powerOfRefused_domain _ _, hnone _, fun _ _ =>
            ⟨x, y, hx, hy, ?_⟩⟩
          rcases hdomain with ⟨rfl, -⟩ | hfraction
          · have hzero : (parts base).isZero = true := (isZero_iff hx).mpr rfl
            exact ⟨fun h => absurd h.1 (lt_irrefl 0),
              fun _ => infinite_of_eq hy (power_of_zero hzero)⟩
          · refine ⟨fun _ => ?_, fun h => absurd hfraction h⟩
            rw [powerOfDomainFault,
              ((isNegative_and_iff hx).mpr hfraction.1).2]
            exact parts_nan
      | range =>
          obtain ⟨⟨x, y, hx, hy, hne⟩, -⟩ := hchecked.range _ _ hpower
          have hzero : (parts base).isZero = false := by
            rwa [Bool.eq_false_iff, ne_eq, isZero_iff hx]
          refine ⟨_, powerOfRefused_range _ hzero, hnone _, fun _ _ =>
            ⟨x, y, hx, hy, ?_, ?_⟩⟩
          · -- as outside the domain it would have been refused for that
            intro hfraction
            have hdomain :=
              (hchecked.domain_iff _ _).mpr ⟨x, y, hx, hy, .inr hfraction⟩
            rw [hpower] at hdomain
            cases hdomain
          · exact fun _ => infinite_of_eq hy (powerOfRangeFault_eq _ _)

/-- A negative zero to the power of -3 is refused, and the guarded power is
the negative infinity. -/
theorem guardedPower_prescribed_negative_zero :
    ChecksPower checkedPower ∧ checkedPower (-0.0) (-3.0) = .error .domain
      ∧ ∃ result, guardedPower checkedPower (-0.0) (-3.0) = .ok result
        ∧ parts result = .infinite true := by
  have hrefused : checkedPower (-0.0) (-3.0) = .error .domain := by
    have hdomain : powDomainFault (parts (-0.0)) (parts (-3.0)) = true := by
      decide +kernel
    simp only [checkedPower, hdomain, if_true]
  have hbase : (parts (-0.0)).value? = some 0 := by
    have hparts : parts (-0.0) = .finite true 0 (-1074) := by decide +kernel
    rw [hparts]
    simp [value?]
  have hexponent : (parts (-3.0)).value? = some (-3) := by
    have hparts : parts (-3.0) = .finite true (3 * 2 ^ 51) (-51) := by
      decide +kernel
    rw [hparts]
    norm_num [value?]
  obtain ⟨result, hresult, -, hprescribed⟩ :=
    guardedPower_prescribed.2 checkedPower checksPower_checkedPower (-0.0)
      (-3.0)
  obtain ⟨x, y, hx, hy, -, hinfinite⟩ := hprescribed _ hrefused
  obtain rfl : 0 = x := Option.some.inj (hbase.symm.trans hx)
  obtain rfl : -3 = y := Option.some.inj (hexponent.symm.trans hy)
  obtain ⟨negative, hparts, hsign⟩ := hinfinite (by simp)
  have hnegative : negative = true :=
    hsign.mpr ⟨by decide +kernel, -3, by decide, by norm_num⟩
  exact ⟨checksPower_checkedPower, hrefused, result, hresult,
    hnegative ▸ hparts⟩

end Reckoner

/-
The numerals of expressions.

A numeral is one or more digits, or digits on both sides of a point
(`IsNumeral`). The literals of expressions are exactly these
(`exists_literal?_iff`), and they mean what the wider grammar of numbers
lets them mean (`read?_of_literal?`): white space, signs, words, exponents
and underscores are not among their characters, so nothing of that grammar
is left but two runs of digits.
-/
import Mathlib.Data.List.TakeWhile
import Reckoner.Number.Decimal

namespace Reckoner.Decimal

open Text

-- =========================================================== the numerals

/-- One or more digits. -/
def IsDigits (cs : List Char) : Prop :=
  cs ≠ [] ∧ ∀ c ∈ cs, isAsciiDigit c = true

/-- Digits, or digits on both sides of a point. -/
def IsNumeral (cs : List Char) : Prop :=
  IsDigits cs ∨ ∃ whole fraction, IsDigits whole ∧ IsDigits fraction
    ∧ cs = whole ++ '.' :: fraction

/-- The values of ASCII digits. -/
def digitsOf (cs : List Char) : List Nat := cs.map fun c => c.toNat - '0'.toNat

theorem isAsciiDigit_iff {c : Char} :
    isAsciiDigit c = true ↔ 48 ≤ c.toNat ∧ c.toNat ≤ 57 := by
  simp only [isAsciiDigit, Bool.and_eq_true, decide_eq_true_eq, Char.le_def,
    UInt32.le_iff_toNat_le]
  exact Iff.rfl

-- =========================================================== the literals

/-- Digits alone are a whole number. -/
theorem literal?_digits {cs : List Char} (h : IsDigits cs) :
    literal? cs = some (value (digitsOf cs) [] 0) := by
  obtain ⟨hne, hall⟩ := h
  have htake : cs.takeWhile isAsciiDigit = cs :=
    List.takeWhile_eq_self_iff.mpr hall
  have hdrop : cs.dropWhile isAsciiDigit = [] :=
    List.dropWhile_eq_nil_iff.mpr hall
  unfold literal?
  rw [htake, hdrop]
  cases cs with
  | nil => exact absurd rfl hne
  | cons c rest => rfl

/-- With a point they are a number with a fraction. -/
theorem literal?_point {whole fraction : List Char} (hwhole : IsDigits whole)
    (hfraction : IsDigits fraction) :
    literal? (whole ++ '.' :: fraction)
      = some (value (digitsOf whole) (digitsOf fraction) 0) := by
  obtain ⟨hne, hall⟩ := hwhole
  have htake : (whole ++ '.' :: fraction).takeWhile isAsciiDigit = whole := by
    rw [List.takeWhile_append_of_pos hall,
      List.takeWhile_cons_of_neg (by decide), List.append_nil]
  have hdrop :
      (whole ++ '.' :: fraction).dropWhile isAsciiDigit = '.' :: fraction := by
    rw [List.dropWhile_append_of_pos hall,
      List.dropWhile_cons_of_neg (by decide)]
  have hdigits : (!fraction.isEmpty && fraction.all isAsciiDigit) = true := by
    rw [List.all_eq_true.mpr hfraction.2, Bool.and_true, Bool.not_eq_true',
      List.isEmpty_eq_false_iff]
    exact hfraction.1
  unfold literal?
  rw [htake, hdrop]
  cases whole with
  | nil => exact absurd rfl hne
  | cons c rest =>
      show (if (!fraction.isEmpty && fraction.all isAsciiDigit)
        = true then _ else _) = _
      rw [if_pos hdigits]
      rfl

/-- The numerals are the literals. -/
theorem exists_literal?_iff {cs : List Char} :
    (∃ x, literal? cs = some x) ↔ IsNumeral cs := by
  constructor
  · rintro ⟨x, h⟩
    have hparts :
        cs.takeWhile isAsciiDigit ++ cs.dropWhile isAsciiDigit = cs :=
      List.takeWhile_append_dropWhile
    have hall : ∀ c ∈ cs.takeWhile isAsciiDigit, isAsciiDigit c = true :=
      List.all_eq_true.mp (List.all_takeWhile)
    unfold literal? at h
    dsimp only at h
    generalize cs.takeWhile isAsciiDigit = whole at h hparts hall
    generalize cs.dropWhile isAsciiDigit = rest at h hparts
    split at h
    · cases h
    · next hne =>
        rw [List.append_nil] at hparts
        exact Or.inl ⟨fun hnil => hne (hparts.trans hnil), hparts ▸ hall⟩
    · next fraction hne =>
        split at h
        · next hdigits =>
            rw [Bool.and_eq_true, Bool.not_eq_true', List.isEmpty_eq_false_iff,
              List.all_eq_true] at hdigits
            exact Or.inr ⟨_, _, ⟨hne, hall⟩, hdigits, hparts.symm⟩
        · cases h
    · cases h
  · rintro (h | ⟨whole, fraction, hwhole, hfraction, rfl⟩)
    · exact ⟨_, literal?_digits h⟩
    · exact ⟨_, literal?_point hwhole hfraction⟩

-- ================================================== in the wider grammar

section Reading

variable {c : Char} {cs whole fraction rest : List Char}

/-- A digit is worth as much among the digits of all scripts. -/
theorem digitValue?_ascii (h : isAsciiDigit c = true) :
    digitValue? c = some (c.toNat - '0'.toNat) := by
  obtain ⟨hlow, hhigh⟩ := isAsciiDigit_iff.mp h
  have hzero :
      (decide (0x30 ≤ c.toNat) && decide (c.toNat < 0x30 + 10)) = true := by
    rw [Bool.and_eq_true, decide_eq_true_eq, decide_eq_true_eq]
    omega
  have hfind :
      (digitZeros.find? fun base => base ≤ c.toNat && c.toNat < base + 10)
      = some 0x30 := List.find?_cons_of_pos hzero
  rw [digitValue?, hfind]
  rfl

/-- The run of digits at the front of a text ends where the digits do. -/
theorem digitRun_digits (hall : ∀ c ∈ cs, isAsciiDigit c = true)
    (joined : Bool) (hrest : ∀ joined, digitRun joined rest = ([], rest)) :
    digitRun joined (cs ++ rest) = (digitsOf cs, rest) := by
  induction cs generalizing joined with
  | nil => exact hrest joined
  | cons c cs ih =>
      have hvalue := digitValue?_ascii (hall c (by simp))
      rw [List.cons_append, digitRun, hvalue]
      dsimp only
      rw [ih (fun d hd => hall d (by simp [hd])) true]
      rfl

private theorem digitRun_point (joined : Bool) (rest : List Char) :
    digitRun joined ('.' :: rest) = ([], '.' :: rest) := by
  have hvalue : digitValue? '.' = none := by decide
  rw [digitRun, hvalue]
  cases joined <;> rfl

/-- A text that starts with a digit has no sign. -/
theorem sign_digit (h : isAsciiDigit c = true) :
    sign (c :: rest) = (false, c :: rest) := by
  unfold sign
  split
  · next heq =>
      obtain ⟨rfl, -⟩ := List.cons.inj heq
      exact absurd h (by decide)
  · next heq =>
      obtain ⟨rfl, -⟩ := List.cons.inj heq
      exact absurd h (by decide)
  · rfl

private theorem toLower_digit (h : isAsciiDigit c = true) : c.toLower = c := by
  obtain ⟨-, hhigh⟩ := isAsciiDigit_iff.mp h
  unfold Char.toLower
  rw [dif_neg]
  rintro ⟨hletter, -⟩
  have hlow : 65 ≤ c.toNat := UInt32.le_iff_toNat_le.mp hletter
  omega

/-- And it is no word. -/
theorem word?_digit (h : isAsciiDigit c = true) :
    word? (c :: rest) = none := by
  have hne : ∀ d : Char, isAsciiDigit d = false →
      ∀ more, (c :: rest).map Char.toLower ≠ d :: more := by
    intro d hd more heq
    rw [List.map_cons, toLower_digit h] at heq
    obtain ⟨rfl, -⟩ := List.cons.inj heq
    rw [h] at hd
    cases hd
  unfold word?
  dsimp only
  rw [if_neg, if_neg]
  · exact hne 'n' rfl _
  · rintro (heq | heq)
    · exact hne 'i' rfl _ heq
    · exact hne 'i' rfl _ heq

private theorem isWhiteSpace_digit (h : isAsciiDigit c = true) :
    isWhiteSpace c = false := by
  obtain ⟨hlow, hhigh⟩ := isAsciiDigit_iff.mp h
  simp only [isWhiteSpace, isBlank, Bool.and_eq_false_iff,
    Bool.or_eq_false_iff, decide_eq_false_iff_not, beq_eq_false_iff_ne]
  omega

/-- Of a text that starts with a digit and has no white space, only the
magnitude is read. -/
theorem read?_digit (h : isAsciiDigit c = true)
    (hspace : ∀ d ∈ rest, isWhiteSpace d = false) :
    read? (String.ofList (c :: rest)) = magnitude? (c :: rest) := by
  have htrim : trimBoth isWhiteSpace (c :: rest) = c :: rest := by
    refine trimBoth_of_none fun d hd => ?_
    rcases List.mem_cons.mp hd with rfl | hd
    · exact isWhiteSpace_digit h
    · exact hspace d hd
  rw [read?, String.toList_ofList, htrim, sign_digit h]
  dsimp only
  rw [word?_digit h, Option.none_or]
  exact Option.map_id'

private theorem isEmpty_digitsOf (h : IsDigits cs) :
    (digitsOf cs).isEmpty = false := by
  rw [List.isEmpty_eq_false_iff]
  exact fun hnil => h.1 (List.map_eq_nil_iff.mp hnil)

private theorem magnitude?_digits (h : IsDigits cs) :
    magnitude? cs = some (value (digitsOf cs) [] 0) := by
  have hrun : digitRun false (cs ++ []) = (digitsOf cs, []) :=
    digitRun_digits h.2 false fun _ => rfl
  rw [List.append_nil] at hrun
  simp only [magnitude?, hrun, isEmpty_digitsOf h, Bool.false_and]
  rfl

/-- The reader of a magnitude sees no sign and no exponent in it. -/
theorem magnitude?_point (hwhole : IsDigits whole)
    (hfraction : IsDigits fraction) :
    magnitude? (whole ++ '.' :: fraction)
      = some (value (digitsOf whole) (digitsOf fraction) 0) := by
  have hbefore : digitRun false (whole ++ '.' :: fraction)
      = (digitsOf whole, '.' :: fraction) :=
    digitRun_digits hwhole.2 false fun joined => digitRun_point joined fraction
  have hafter : digitRun false (fraction ++ []) = (digitsOf fraction, []) :=
    digitRun_digits hfraction.2 false fun _ => rfl
  rw [List.append_nil] at hafter
  simp only [magnitude?, hbefore, hafter, isEmpty_digitsOf hwhole,
    Bool.false_and]
  rfl

/-- A literal is read as the same number by the wider grammar. -/
theorem read?_of_literal? {x : Float} (h : literal? cs = some x) :
    read? (String.ofList cs) = some x := by
  rcases exists_literal?_iff.mp ⟨x, h⟩ with hdigits
    | ⟨whole, fraction, hwhole, hfraction, rfl⟩
  · rw [literal?_digits hdigits] at h
    cases cs with
    | nil => exact absurd rfl hdigits.1
    | cons c rest =>
        rw [read?_digit (hdigits.2 c (by simp)), magnitude?_digits hdigits, h]
        exact fun d hd => isWhiteSpace_digit (hdigits.2 d (by simp [hd]))
  · rw [literal?_point hwhole hfraction] at h
    have hmagnitude := magnitude?_point hwhole hfraction
    cases whole with
    | nil => exact absurd rfl hwhole.1
    | cons c rest =>
        rw [List.cons_append] at hmagnitude ⊢
        rw [read?_digit (hwhole.2 c (by simp)), hmagnitude, h]
        intro d hd
        rcases List.mem_append.mp hd with hd | hd
        · exact isWhiteSpace_digit (hwhole.2 d (by simp [hd]))
        · rcases List.mem_cons.mp hd with rfl | hd
          · rfl
          · exact isWhiteSpace_digit (hfraction.2 d hd)

end Reading

end Reckoner.Decimal

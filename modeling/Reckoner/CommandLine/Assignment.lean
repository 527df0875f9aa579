/-
Variables given on the command line, as `name=value`.

The name is what stands before the first equals sign, without blanks at
its ends, and must be a name that expressions can hold: ASCII letters
alone. The value is everything after the sign, read as a number.

Main fact: a text of letters, an equals sign and a number is read as just
that (`read_eq_ok`).
-/
import Reckoner.Number.Decimal
import Reckoner.Text.Split

namespace Reckoner

/-- A variable and its value. -/
structure Assignment where
  name : String
  value : Float
  deriving DecidableEq, Repr

/-- What can be wrong with the text of an assignment. -/
inductive AssignmentFault where
  | notAnAssignment (text : String)
  | invalidValue (name value : String)
  deriving DecidableEq, Repr

def AssignmentFault.message : AssignmentFault → String
  | .notAnAssignment text => s!"expected name=value, got '{text}'"
  | .invalidValue name value => s!"invalid value for {name}: '{value}'"

namespace Assignment

open Text

def isName (name : List Char) : Bool := !name.isEmpty && name.all isAsciiLetter

/-- The assignment that a text spells. -/
def read (text : String) : Except AssignmentFault Assignment :=
  match splitFirst '=' text.toList with
  | (_, none) => .error (.notAnAssignment text)
  | (before, some after) =>
      let name := trimBoth isBlank before
      let value := String.ofList after
      if isName name then
        match Decimal.read? value with
        | some x => .ok ⟨String.ofList name, x⟩
        | none => .error (.invalidValue (String.ofList name) value)
      else .error (.notAnAssignment text)

-- ============================================================== the facts

theorem isBlank_of_isAsciiLetter {c : Char} (h : isAsciiLetter c = true) :
    isBlank c = false := by
  simp only [isAsciiLetter, Bool.or_eq_true, Bool.and_eq_true,
    decide_eq_true_eq, Char.le_def, UInt32.le_iff_toNat_le] at h
  simp only [isBlank, Bool.or_eq_false_iff, Bool.and_eq_false_iff,
    decide_eq_false_iff_not, beq_eq_false_iff_ne, Char.toNat]
  have ha : ('a' : Char).val.toNat = 97 := rfl
  have hz : ('z' : Char).val.toNat = 122 := rfl
  have hA : ('A' : Char).val.toNat = 65 := rfl
  have hZ : ('Z' : Char).val.toNat = 90 := rfl
  omega

private theorem not_isAsciiLetter_equals : isAsciiLetter '=' = false := rfl

/-- A name, an equals sign and the text of a number are an assignment of
that number to that name. -/
theorem read_eq_ok {name value : List Char} {x : Float}
    (hname : isName name = true)
    (hvalue : Decimal.read? (String.ofList value) = some x) :
    read (String.ofList (name ++ '=' :: value))
      = .ok ⟨String.ofList name, x⟩ := by
  have hletters : ∀ c ∈ name, isAsciiLetter c = true := by
    intro c hc
    simp only [isName, Bool.and_eq_true, List.all_eq_true] at hname
    exact hname.2 c hc
  have hequals : '=' ∉ name := by
    intro hmem
    have hletter := hletters '=' hmem
    rw [not_isAsciiLetter_equals] at hletter
    cases hletter
  have htrim : trimBoth isBlank name = name :=
    trimBoth_of_none fun c hc => isBlank_of_isAsciiLetter (hletters c hc)
  simp [read, splitFirst_append hequals, htrim, hname, hvalue]

end Assignment

end Reckoner

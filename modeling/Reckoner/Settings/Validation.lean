/-
The validation that runs.

Every field is checked and every unknown key reported, so a document is
told all that is wrong with it at once: first the fields in their order,
then the keys in theirs. Whole numbers are taken from integers, truth
values, floats without fraction, and texts or bytes that spell one.

The message names the title, how many issues there are, and each of them by
its place and its code.

Main fact: two checks side by side pass exactly when each passes
(`both_eq_ok_iff`).
-/
import Reckoner.Number.Integer
import Reckoner.Settings.Library

namespace Reckoner.Validation

-- ============================================================== the values

def rejected {α : Type} (code : String) : Checked α :=
  .error (.single ⟨[], code⟩)

/-- A whole number from a float that has no fraction and lies within the
range of words of 64 bits. -/
def wholeFloat (x : Float) : Checked Int :=
  if !x.isFinite then rejected "finite_number"
  else
    match Integer.ofFloat? x with
    | none => rejected "int_from_float"
    | some n =>
        if n.natAbs < Nat.pow 2 63 then .ok n else rejected "int_parsing_size"

/-- A whole number from a text that spells one. -/
def wholeText (s : String) : Checked Int :=
  match Integer.read s with
  | .ok n => .ok n
  | .error .unreadable => rejected "int_parsing"
  | .error .tooLarge => rejected "int_parsing_size"

/-- A whole number: an integer, a float without fraction, a truth value as
one or zero, or a text that spells a whole number, in characters or in
bytes. -/
def whole : Document → Checked Int
  | .int n => .ok n
  | .bool b => .ok (if b then 1 else 0)
  | .float x => wholeFloat x
  | .text s => wholeText s
  | .bytes bs =>
      (String.fromUTF8? ⟨bs.toArray⟩).elim (rejected "int_parsing") wholeText
  | .brokenText => rejected "string_unicode"
  | _ => rejected "int_type"

def wholeAbove (bound : Int) (d : Document) : Checked Int := do
  let n ← whole d
  if bound < n then .ok n else rejected "greater_than"

/-- One of a set of named choices. -/
def named {α : Type} (all : List α) (name : α → String) :
    Document → Checked α
  | .text s =>
      (all.find? fun a => name a == s).elim (rejected "literal_error") .ok
  | .brokenText => rejected "string_unicode"
  | _ => rejected "literal_error"

-- ============================================================== the models

/-- Two checks side by side, with the issues of both. -/
def both {α β : Type} : Checked α → Checked β → Checked (α × β)
  | .ok a, .ok b => .ok (a, b)
  | .ok _, .error issues => .error issues
  | .error issues, .ok _ => .error issues
  | .error issues, .error more => .error (issues.append more)

/-- The named field of some entries, or what it is when missing. -/
def readField {α : Type} (entries : List (Document × Document))
    (name : String) (missing : α) (read : Document → Checked α) : Checked α :=
  match Document.field? entries name with
  | none => .ok missing
  | some d => (read d).mapError (·.under name)

/-- All fields, one after the other. -/
def readFields (entries : List (Document × Document)) :
    {α : Type} → Fields α → Checked α
  | _, .none => .ok ()
  | _, .field name missing read rest =>
      both (readField entries name missing read) (readFields entries rest)

/-- The issue of a key that names no field. -/
def strangeKey : Document → Issue
  | .text s => ⟨[s], "extra_forbidden"⟩
  | key => ⟨[key.keyName], "invalid_key"⟩

/-- Reports every entry whose key is not among the names. -/
def onlyNamed (entries : List (Document × Document)) (names : List String) :
    Checked Unit :=
  let strange := entries.filter fun entry =>
    !names.any fun name => entry.1.isSameKey (.text name)
  match strange.map fun entry => strangeKey entry.1 with
  | [] => .ok ()
  | first :: more => .error ⟨first, more⟩

/-- A model: its fields and no other keys. A key that is broken text keeps
anything else from being checked. -/
def modelOf {α : Type} (fields : Fields α) : Document → Checked α
  | .mapping entries =>
      if Document.hasBrokenKey entries then rejected "string_unicode"
      else
        (both (readFields entries fields)
          (onlyNamed entries fields.names)).map Prod.fst
  | _ => rejected "model_type"

/-- The message: how many issues there are, and a line for the place of
each and one for its code. -/
def messageOf (title : String) (issues : Issues) : String :=
  let count := issues.toList.length
  let noun := if count = 1 then "error" else "errors"
  let lines := issues.toList.flatMap fun issue =>
    [".".intercalate issue.place, "  " ++ issue.code]
  "\n".intercalate (s!"{count} validation {noun} for {title}" :: lines)

/-- The validation that runs. -/
def standard : Validation where
  integer := wholeAbove
  choice := named
  model := modelOf
  unknownKey := strangeKey
  message title _ issues := messageOf title issues

-- =============================================================== the facts

theorem both_eq_ok_iff {α β : Type} {first : Checked α} {second : Checked β}
    {a : α} {b : β} :
    both first second = .ok (a, b) ↔ first = .ok a ∧ second = .ok b := by
  cases first <;> cases second <;> simp [both]

end Reckoner.Validation

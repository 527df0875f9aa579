/-
Structured documents: what a settings file says before anybody asks
whether it makes sense.

A mapping has its entries in the order in which their keys first
appeared; a key that appears again replaces what it had. Keys are
scalars, not only texts: a reader that wants names has to refuse the
others. Beside lists and mappings there are sets, which have members
without values, and lists of pairs, which may repeat a key.

Main facts: a field that was put in is found (`field?_putField_self`),
and no other one is touched (`field?_putField_of_ne`).
-/
import Reckoner.Calendar
import Reckoner.Number.Integer
import Reckoner.Number.Layout
import Reckoner.Text.Quoted

namespace Reckoner

inductive Document where
  | null
  | bool (b : Bool)
  | int (n : Int)
  | float (x : Float)
  | text (s : String)
  /-- A text that holds code points to which no character can belong. -/
  | brokenText
  | bytes (bs : List UInt8)
  | date (d : Calendar.Date)
  | moment (m : Calendar.Moment)
  | list (items : List Document)
  | pairs (items : List (Document × Document))
  | set (members : List Document)
  | mapping (entries : List (Document × Document))
  deriving Inhabited

namespace Document

-- ==================================================================== keys

/-- The whole number that a key is; a truth value is one or zero. -/
def wholeNumber? : Document → Option Int
  | .bool b => some (if b then 1 else 0)
  | .int n => some n
  | .float x => Integer.ofFloat? x
  | _ => none

/-- Whether two scalars are one key. Numbers of the same value are,
whatever their kind, and so is whatever is no number. -/
def isSameKey : Document → Document → Bool
  | .null, .null => true
  | .text s, .text t => s == t
  | .brokenText, .brokenText => true
  | .bytes bs, .bytes cs => bs == cs
  | .date d, .date e => d == e
  | .moment m, .moment n => m.isSame n
  | first, second =>
      match first.wholeNumber?, second.wholeNumber?, first, second with
      | some m, some n, _, _ => m == n
      | none, none, .float x, .float y => x == y || (x.isNaN && y.isNaN)
      | _, _, _, _ => false

-- ================================================================= entries

/-- Entries with a key put in last, or in its place if it is there. -/
def putEntry (entries : List (Document × Document)) (key value : Document) :
    List (Document × Document) :=
  if entries.any fun entry => entry.1.isSameKey key then
    entries.map fun entry =>
      if entry.1.isSameKey key then (entry.1, value) else entry
  else entries ++ [(key, value)]

/-- What entries have under a name. -/
def field? (entries : List (Document × Document)) (name : String) :
    Option Document :=
  (entries.find? fun entry => entry.1.isSameKey (.text name)).map Prod.snd

/-- Entries with a name put in, or replaced. -/
def putField (entries : List (Document × Document)) (name : String)
    (value : Document) : List (Document × Document) :=
  putEntry entries (.text name) value

/-- Whether some key is a broken text. -/
def hasBrokenKey (entries : List (Document × Document)) : Bool :=
  entries.any fun entry => entry.1.isSameKey .brokenText

-- ========================================================== words for them

/-- Documents that say nothing: null, false, zero, and whatever is
empty. -/
def isVoid : Document → Bool
  | .null => true
  | .bool b => !b
  | .int n => n == 0
  | .float x => x == 0
  | .text s => s.isEmpty
  | .bytes bs => bs.isEmpty
  | .brokenText | .date _ | .moment _ => false
  | .list items => items.isEmpty
  | .pairs items => items.isEmpty
  | .set members => members.isEmpty
  | .mapping entries => entries.isEmpty

/-- A byte inside the given quotes. -/
def escapedByte (quote : Char) (b : UInt8) : List Char :=
  let c := Char.ofNat b.toNat
  if b < 0x80 then Text.escaped quote c
  else '\\' :: 'x' :: Text.hexadecimal 2 b.toNat

/-- Bytes as messages show them. -/
def quotedBytes (bs : List UInt8) : String :=
  let quote := Text.quoteFor (bs.map fun b => Char.ofNat b.toNat)
  String.ofList ('b' :: quote :: bs.flatMap (escapedByte quote) ++ [quote])

/-- What a key is called where names are wanted. -/
def keyName : Document → String
  | .null => "None"
  | .bool b => if b then "1" else "0"
  | .int n => toString n
  | .float x => formatValue x
  | .text s => s
  | .brokenText => "text"
  | .bytes bs => quotedBytes bs
  | .date d => d.text
  | .moment m => m.text
  | .list _ => "list"
  | .pairs _ => "pairs"
  | .set _ => "set"
  | .mapping _ => "mapping"

-- =============================================================== the facts

/-- A key is a name exactly when it is that text. -/
@[simp]
theorem isSameKey_text_iff {key : Document} {name : String} :
    key.isSameKey (.text name) = true ↔ key = .text name := by
  cases key <;> simp [isSameKey, wholeNumber?]

/-- The first entry of a name, after values were replaced under another
or the same one. -/
private theorem field?_replaced (entries : List (Document × Document))
    (name other : String) (value : Document) :
    field? (entries.map fun entry =>
        if entry.1.isSameKey (.text name) then (entry.1, value)
        else entry) other
      = if name = other then (field? entries other).map fun _ => value
        else field? entries other := by
  induction entries with
  | nil => simp [field?]
  | cons entry rest ih =>
      simp only [field?] at ih
      by_cases hname : entry.1 = .text name
        <;> by_cases hother : entry.1 = .text other
        <;> by_cases h : name = other <;> simp_all [field?]

/-- A field that was put in is found. -/
theorem field?_putField_self (entries : List (Document × Document))
    (name : String) (value : Document) :
    field? (putField entries name value) name = some value := by
  unfold putField putEntry
  split
  case isTrue h =>
    obtain ⟨entry, hentry⟩ : ∃ entry, entries.find? (fun entry =>
        entry.1.isSameKey (.text name)) = some entry := by
      rw [← Option.isSome_iff_exists, List.find?_isSome]
      simpa using h
    rw [field?_replaced]
    simp [field?, hentry]
  case isFalse h =>
    have hnone : entries.find?
        (fun entry => entry.1.isSameKey (.text name)) = none := by
      rw [List.find?_eq_none]
      intro entry hmem hkey
      exact h (List.any_eq_true.mpr ⟨entry, hmem, hkey⟩)
    simp [field?, List.find?_append, hnone]

/-- Putting in a field touches no other. -/
theorem field?_putField_of_ne {name other : String} (h : name ≠ other)
    (entries : List (Document × Document)) (value : Document) :
    field? (putField entries name value) other = field? entries other := by
  unfold putField putEntry
  split
  case isTrue => rw [field?_replaced, if_neg h]
  case isFalse =>
    simp only [field?, List.find?_append]
    simp [h]

end Document

end Reckoner

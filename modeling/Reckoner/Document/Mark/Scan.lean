/-
From the text of a document to its marks.

Marks are read one by one. A scalar or a flow collection that might be the
key of a mapping is remembered as a candidate, one for each level of
brackets, until a colon on the same line and not more than 1024 characters
later makes it a key, or something else shows that it is none. The marks
that say so belong in front of the candidate, and are kept with it.

In blocks the columns of the text are watched. The dash of an item or a key
in a column deeper than all collections that are open begins a new one, and
the first word in a lesser column ends those that are deeper.

If the text cannot be read further the marks end with the problem. Those
from the first candidate that is still open are then left out, as they were
never settled.
-/
import Reckoner.Document.Mark.Block
import Reckoner.Document.Mark.Plain
import Reckoner.Document.Mark.Property

namespace Reckoner.Document.Mark

-- ================================================================== the state

/-- What may turn out to be a key. -/
structure Candidate where
  position : Nat
  isRequired : Bool
  index : Nat
  line : Nat
  column : Nat
  deriving DecidableEq, Repr

/-- A mark and those that turned out to belong in front of it. -/
structure Slot where
  mark : Mark
  before : List Mark := []
  deriving DecidableEq, Repr

/-- A text that is read up to some place. -/
structure Scan where
  cursor : Cursor
  slots : Array Slot := #[]
  /-- The columns of the block collections that are open, innermost
  first. -/
  columns : List Nat := []
  /-- The candidate of each level of brackets, innermost first. -/
  candidates : List (Option Candidate) := [none]
  /-- Whether a key may begin here. -/
  keyAllowed : Bool := true
  isDone : Bool := false

namespace Scan

abbrev Step := Except Problem Scan

def inFlow (s : Scan) : Bool := 1 < s.candidates.length

/-- The column of the innermost block collection. -/
def indent (s : Scan) : Int := s.columns.head?.elim (-1) Int.ofNat

def push (s : Scan) (mark : Mark) : Scan :=
  { s with slots := s.slots.push ⟨mark, []⟩ }

def pass (s : Scan) (count : Nat) : Scan :=
  { s with cursor := s.cursor.advance count }

-- ============================================================= the candidates

/-- Whether a candidate can still become a key at a place. -/
def isOpen (c : Cursor) (candidate : Candidate) : Bool :=
  candidate.line == c.line && c.index ≤ candidate.index + 1024

def dropStale (s : Scan) : Step :=
  let isStale (candidate : Candidate) := !isOpen s.cursor candidate
  if s.candidates.any fun c => c.any fun c => isStale c && c.isRequired then
    .error .illFormed
  else
    .ok { s with
      candidates := s.candidates.map (·.filter (isOpen s.cursor)) }

def dropCandidate (s : Scan) : Step :=
  match s.candidates with
  | some candidate :: outer =>
      if candidate.isRequired then .error .illFormed
      else .ok { s with candidates := none :: outer }
  | _ => .ok s

/-- Makes what begins here a candidate, if a key may begin here. -/
def addCandidate (s : Scan) : Step :=
  if s.keyAllowed then do
    let isRequired := !s.inFlow && s.indent == s.cursor.column
    let candidate :=
      ⟨s.slots.size, isRequired, s.cursor.index, s.cursor.line,
        s.cursor.column⟩
    let s ← s.dropCandidate
    .ok { s with candidates := some candidate :: s.candidates.drop 1 }
  else .ok s

-- ================================================================ the columns

/-- Opens a block collection at a column if it is deeper than those that
are open. -/
def open? (s : Scan) (column : Nat) : Option Scan :=
  if s.indent < column then some { s with columns := column :: s.columns }
  else none

/-- Opens a block collection here if need be, with the mark of its
kind. -/
def openHere (s : Scan) (mark : Mark) : Scan :=
  ((s.open? s.cursor.column).map (·.push mark)).getD s

/-- Ends the block collections that are deeper than a column. -/
def unwind (s : Scan) (column : Int) : Scan :=
  if s.inFlow then s
  else
    let ended := s.columns.takeWhile fun (deep : Nat) => column < deep
    ended.foldl (fun s _ => s.push .blockEnd)
      { s with columns := s.columns.drop ended.length }

-- ======================================================== between the marks

/-- The place of the next word, past spaces, comments and line breaks, and
whether there was a break. -/
def idle : Nat → Cursor → Bool × Cursor
  | 0, c => (false, c)
  | fuel + 1, c =>
      let c := c.pastSpaces.pastComment
      match c.lineBreak? with
      | none => (false, c)
      | some (_, after) => (true, (idle fuel after).2)

/-- Goes to the next word. A mark of byte order may begin the text. -/
def skip (s : Scan) : Scan :=
  let c := s.cursor
  let c := if c.index = 0 ∧ c.peek = some byteOrderMark then c.next else c
  let (isNewLine, c) := idle (c.rest.length + 1) c
  { s with cursor := c, keyAllowed := s.keyAllowed
    || (isNewLine && !s.inFlow) }

-- ================================================================ the marks

def textEnd (s : Scan) : Step := do
  let s ← (s.unwind (-1)).dropCandidate
  .ok { s.push .textEnd with isDone := true }

def directive (s : Scan) : Step := do
  let s ← (s.unwind (-1)).dropCandidate
  match Property.directive? s.cursor with
  | some (said, after) =>
      .ok { s.push (.directive said) with
        keyAllowed := false, cursor := after }
  | none => .error .illFormed

def separator (s : Scan) (mark : Mark) : Step := do
  let s ← (s.unwind (-1)).dropCandidate
  .ok { (s.push mark).pass 3 with keyAllowed := false }

def flowStart (s : Scan) (mark : Mark) : Step := do
  let s ← s.addCandidate
  .ok { (s.push mark).pass 1 with
    keyAllowed := true, candidates := none :: s.candidates }

def flowEnd (s : Scan) (mark : Mark) : Step := do
  let s ← s.dropCandidate
  let outer := if s.inFlow then s.candidates.drop 1 else s.candidates
  .ok { (s.push mark).pass 1 with keyAllowed := false, candidates := outer }

def comma (s : Scan) : Step := do
  let s ← s.dropCandidate
  .ok { (s.push .comma).pass 1 with keyAllowed := true }

/-- The dash of an item. -/
def item (s : Scan) : Step := do
  if !s.inFlow && !s.keyAllowed then .error .illFormed
  else
    let s := if s.inFlow then s else s.openHere .blockListStart
    let s ← s.dropCandidate
    .ok { (s.push .item).pass 1 with keyAllowed := true }

/-- The question mark of a key. -/
def explicitKey (s : Scan) : Step := do
  if !s.inFlow && !s.keyAllowed then .error .illFormed
  else
    let s := if s.inFlow then s else s.openHere .blockMappingStart
    let s ← s.dropCandidate
    .ok { (s.push .key).pass 1 with keyAllowed := !s.inFlow }

/-- The colon of a value. It makes the candidate a key, if there is
one. -/
def colon (s : Scan) : Step := do
  let s ←
    match s.candidates with
    | some candidate :: outer =>
        let s := { s with candidates := none :: outer, keyAllowed := false }
        let opened := if s.inFlow then none else s.open? candidate.column
        let before := (if opened.isSome then [.blockMappingStart] else [])
          ++ [.key]
        let settle (slot : Slot) :=
          { slot with before := before ++ slot.before }
        .ok { opened.getD s with
          slots := s.slots.modify candidate.position settle }
    | _ =>
        if s.inFlow then .ok { s with keyAllowed := false }
        else if s.keyAllowed then .ok (s.openHere .blockMappingStart)
        else .error .illFormed
  .ok ((s.push .value).pass 1)

def reference (s : Scan) (mark : String → Mark) : Step := do
  let s ← s.addCandidate
  match Property.reference? s.cursor with
  | some (name, after) =>
      .ok { s.push (mark name) with keyAllowed := false, cursor := after }
  | none => .error .illFormed

def tag (s : Scan) : Step := do
  let s ← s.addCandidate
  match Property.tag? s.cursor with
  | some (mark, after) =>
      .ok { s.push mark with keyAllowed := false, cursor := after }
  | none => .error .illFormed

def block (s : Scan) (isFolded : Bool) : Step := do
  let s ← s.dropCandidate
  match Block.scalar? isFolded s.indent s.cursor with
  | some (content, after) =>
      .ok { s.push (.scalar .quoted (some content)) with
        keyAllowed := true, cursor := after }
  | none => .error .illFormed

def quoted (s : Scan) (quote : Char) : Step := do
  let s ← s.addCandidate
  let (content?, after) ← Quoted.scalar quote s.cursor
  .ok { s.push (.scalar .quoted content?) with
    keyAllowed := false, cursor := after }

/-- A plain scalar. A key may begin after it where its line has ended. -/
def plain (s : Scan) : Step := do
  let s ← s.addCandidate
  let read := Plain.scalar s.inFlow s.indent s.cursor
  .ok { s.push (.scalar .plain (some (String.ofList read.chars))) with
    keyAllowed := read.endsLine, cursor := read.after }

/-- The mark that stands at the next word. -/
def mark (s : Scan) : Step :=
  let c := s.cursor
  let atStart := c.column = 0
  match c.rest with
  | [] => s.textEnd
  | ch :: rest =>
      if atStart ∧ ch = '%' then s.directive
      else if atStart ∧ c.atMarker '-' then s.separator .documentStart
      else if atStart ∧ c.atMarker '.' then s.separator .documentEnd
      else
        match ch with
        | '[' => s.flowStart .listStart
        | '{' => s.flowStart .mappingStart
        | ']' => s.flowEnd .listEnd
        | '}' => s.flowEnd .mappingEnd
        | ',' => s.comma
        | '*' => s.reference .alias
        | '&' => s.reference .anchor
        | '!' => s.tag
        | '\'' => s.quoted ch
        | '"' => s.quoted ch
        | _ =>
            if ch = '-' ∧ startsWithGap rest then s.item
            else if ch = '?' ∧ (s.inFlow ∨ startsWithGap rest) then
                s.explicitKey
            else if ch = ':' ∧ (s.inFlow ∨ startsWithGap rest) then s.colon
            else if ch = '|' ∧ !s.inFlow then s.block false
            else if ch = '>' ∧ !s.inFlow then s.block true
            else if Plain.starts s.inFlow c.rest then s.plain
            else .error .illFormed

-- ============================================================== the reading

/-- Reads one more mark, and those that the columns give rise to. -/
def step (s : Scan) : Step := do
  let s ← s.skip.dropStale
  (s.unwind s.cursor.column).mark

/-- The marks that are settled: all of them, or those before the first
candidate that is still open. -/
def settled (s : Scan) : List Mark :=
  let isOpen (candidate : Candidate) := isOpen s.cursor candidate
  let positions := s.candidates.filterMap
    fun c => (c.filter isOpen).map (·.position)
  let slots := s.slots.toList.take (positions.foldl min s.slots.size)
  slots.flatMap fun slot => slot.before ++ [slot.mark]

/-- The marks up to the end of the text or to a problem. Each step but the
last uses up a character of the text. -/
def run : Nat → Scan → List Mark
  | 0, s => s.settled ++ [.fault .illFormed]
  | fuel + 1, s =>
      match s.step with
      | .error problem => s.settled ++ [.fault problem]
      | .ok next =>
          if next.isDone then
            next.slots.toList.flatMap fun slot => slot.before ++ [slot.mark]
          else run fuel next

end Scan

/-- The marks of a text. -/
def ofText (text : List Char) : List Mark :=
  Scan.run (text.length + 1) { cursor := ⟨text, 0, 0, 0⟩ }

end Reckoner.Document.Mark

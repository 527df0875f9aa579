/-
The nodes of a document: how its marks hang together.

A node is a scalar with the kind that its tag or its look gives it, a list
or a mapping. Entries of a mapping are kept as they are written, in order
and with all repetitions. An alias is the node that it stands for; within
the very collection that it names it stands for an empty one.

The tag of a collection says what it is to be taken for: what it looks
like, a list of pairs, a set, or something that only others know.

The marks are read from left to right, one function for each kind of
collection, on a fuel that their number supplies.
-/
import Reckoner.Document.Mark
import Reckoner.Document.Scalar

namespace Reckoner.Document

/-- What a collection is taken for. -/
inductive Form where
  /-- What it looks like. -/
  | usual
  /-- A list of mappings of one entry each, as a list of pairs. -/
  | pairs
  /-- A mapping of which the keys alone matter. -/
  | set
  /-- Something that only others know. -/
  | foreign
  deriving DecidableEq, Inhabited, Repr

/-- A node of a document. -/
inductive Node where
  | scalar (kind : Scalar.Kind) (text : Option String)
  | list (form : Form) (items : List Node)
  | mapping (form : Form) (entries : List (Node × Node))
  deriving Inhabited

namespace Node

-- =================================================================== the tags

abbrev Handles := List (String × String)

/-- What the handles of every document stand for unless it says
otherwise. -/
def standardHandles : Handles := [("!", "!"), ("!!", "tag:yaml.org,2002:")]

/-- The kinds of scalars that have a tag. -/
def scalarTags : List (String × Scalar.Kind) :=
  [("tag:yaml.org,2002:null", .null), ("tag:yaml.org,2002:bool", .bool),
    ("tag:yaml.org,2002:int", .int), ("tag:yaml.org,2002:float", .float),
    ("tag:yaml.org,2002:timestamp", .time),
    ("tag:yaml.org,2002:merge", .merge), ("tag:yaml.org,2002:value", .default),
    ("tag:yaml.org,2002:str", .text), ("tag:yaml.org,2002:binary", .binary)]

/-- The forms of lists that have a tag. -/
def listTags : List (String × Form) :=
  [("tag:yaml.org,2002:seq", .usual), ("tag:yaml.org,2002:omap", .pairs),
    ("tag:yaml.org,2002:pairs", .pairs)]

/-- The forms of mappings that have a tag. -/
def mappingTags : List (String × Form) :=
  [("tag:yaml.org,2002:map", .usual), ("tag:yaml.org,2002:set", .set)]

/-- What is said about a node before it begins. -/
structure Properties where
  anchor : Option String := none
  tag : Option String := none
  deriving DecidableEq, Repr

/-- The tag that says how a node is to be read; a lone exclamation mark
leaves it to the node. -/
def Properties.given (p : Properties) : Option String :=
  p.tag.filter (· != "!")

/-- The scalar of a style and a text. Without quotes, or after a lone
exclamation mark, its look decides its kind. -/
def ofScalar (p : Properties) (style : Style) (text : Option String) : Node :=
  match p.given, text with
  | some tag, text => .scalar ((scalarTags.lookup tag).getD .foreign) text
  | none, some text =>
      let isPlain := style = .plain ∨ p.tag.isSome
      .scalar (if isPlain then Scalar.impliedKind text else .text) (some text)
  | none, none => .scalar .text none

/-- The form that a tag gives, if there is one. -/
def Properties.form (p : Properties) (tags : List (String × Form)) : Form :=
  match p.given with
  | none => .usual
  | some tag => (tags.lookup tag).getD .foreign

/-- A collection in the form that its tag gives it. -/
def ofCollection (p : Properties) : Node → Node
  | .list _ items => .list (p.form listTags) items
  | .mapping _ entries => .mapping (p.form mappingTags) entries
  | node => node

-- ================================================================ the reading

/-- Marks that are read up to some place, and the nodes that were named. -/
structure Progress where
  marks : List Mark
  anchors : List (String × Node) := []

/-- A reading of marks. -/
abbrev Reading := StateT Progress (Except Problem)

namespace Reading

def peek : Reading Mark := do return (← get).marks.head?.getD .textEnd

def drop : Reading Unit := modify fun p => { p with marks := p.marks.drop 1 }

/-- The problem of a mark that is not expected: the marks may end there
with a problem of their own. -/
def problemOf : Mark → Problem
  | .fault problem => problem
  | _ => .illFormed

def unexpected {α : Type} : Reading α := do throw (problemOf (← peek))

/-- Goes past a mark that must come next. -/
def expect (mark : Mark) : Reading Unit := do
  if (← peek) = mark then drop else unexpected

def record (p : Properties) (node : Node) : Reading Unit :=
  match p.anchor with
  | some name => modify fun r =>
      { r with anchors := (name, node) :: r.anchors }
  | none => pure ()

def anchor : Reading (Option String) := do
  match ← peek with
  | .anchor name => drop; pure (some name)
  | _ => pure none

/-- A tag in full, if one comes next. -/
def tag (handles : Handles) : Reading (Option String) := do
  match ← peek with
  | .tag none suffix => drop; pure (some suffix)
  | .tag (some handle) suffix =>
      match handles.lookup handle with
      | some start => drop; pure (some (start ++ suffix))
      | none => throw .illFormed
  | _ => pure none

/-- The properties of a node: an anchor and a tag, in either order. A name
is given once only. -/
def properties (handles : Handles) : Reading Properties := do
  let first ← anchor
  let tag ← tag handles
  let name ← if first.isSome then pure first else anchor
  let known := (← get).anchors.map Prod.fst
  if name.any known.contains then throw .illFormed
  else pure ⟨name, tag⟩

/-- A collection, which is known by its name within itself and after it. -/
def collection (p : Properties) (empty : Node) (read : Reading Node) :
    Reading Node := do
  record p (ofCollection p empty)
  let node := ofCollection p (← read)
  record p node
  pure node

def missing : Node := ofScalar {} .plain (some "")

def endsEntry (mark : Mark) : Bool :=
  [.key, .value, .blockEnd].contains mark

def endsFlowEntry (closing mark : Mark) : Bool :=
  [.comma, closing].contains mark

mutual

/-- The node that comes next. Only within blocks can it be a block
collection, and only as a key or a value of a block can it be a list whose
items stand below it without being deeper. -/
def node (handles : Handles) (inBlock isEntry : Bool) : Nat → Reading Node
  | 0 => throw .illFormed
  | fuel + 1 => do
      match ← peek with
      | .alias name =>
          match (← get).anchors.lookup name with
          | some node => drop; pure node
          | none => throw .illFormed
      | _ => do
          let p ← properties handles
          match ← peek with
          | .scalar style written => do
              drop
              let node := ofScalar p style written
              record p node
              pure node
          | .listStart => do
              drop
              collection p (.list .usual []) (flowItems handles true [] fuel)
          | .mappingStart => do
              drop
              collection p (.mapping .usual [])
                (flowEntries handles true [] fuel)
          | next =>
              if next = .item ∧ isEntry then
                collection p (.list .usual []) (looseItems handles [] fuel)
              else if next = .blockListStart ∧ inBlock then do
                drop
                collection p (.list .usual []) (blockItems handles [] fuel)
              else if next = .blockMappingStart ∧ inBlock then do
                drop
                collection p (.mapping .usual [])
                  (blockEntries handles [] fuel)
              else if p.anchor.isSome ∨ p.tag.isSome then do
                let node := ofScalar p .plain (some "")
                record p node
                pure node
              else unexpected

/-- The items of a block list after those already read. -/
def blockItems (handles : Handles) (items : List Node) : Nat → Reading Node
  | 0 => throw .illFormed
  | fuel + 1 => do
      match ← peek with
      | .item => do
          drop
          let next ← peek
          if next = .item ∨ next = .blockEnd then
            blockItems handles (items ++ [missing]) fuel
          else do
            let item ← node handles true false fuel
            blockItems handles (items ++ [item]) fuel
      | .blockEnd => do
          drop
          pure (.list .usual items)
      | _ => unexpected

/-- The items of a list that is not deeper than what it belongs to, after
those already read. -/
def looseItems (handles : Handles) (items : List Node) : Nat → Reading Node
  | 0 => throw .illFormed
  | fuel + 1 => do
      match ← peek with
      | .item => do
          drop
          let next ← peek
          if next = .item ∨ endsEntry next then
            looseItems handles (items ++ [missing]) fuel
          else do
            let item ← node handles true false fuel
            looseItems handles (items ++ [item]) fuel
      | _ => pure (.list .usual items)

/-- The entries of a block mapping after those already read. -/
def blockEntries (handles : Handles) (entries : List (Node × Node)) : Nat →
    Reading Node
  | 0 => throw .illFormed
  | fuel + 1 => do
      match ← peek with
      | .key => do
          drop
          let key ←
            if endsEntry (← peek) then pure missing
            else node handles true true fuel
          let value ← blockValue handles fuel
          blockEntries handles (entries ++ [(key, value)]) fuel
      | .blockEnd => do
          drop
          pure (.mapping .usual entries)
      | _ => unexpected

/-- The value of an entry of a block mapping; it may be missing. -/
def blockValue (handles : Handles) : Nat → Reading Node
  | 0 => throw .illFormed
  | fuel + 1 => do
      match ← peek with
      | .value => do
          drop
          if endsEntry (← peek) then pure missing
          else node handles true true fuel
      | _ => pure missing

/-- The items of a flow list after those already read. An item may be a
single entry of a mapping. -/
def flowItems (handles : Handles) (isFirst : Bool) (items : List Node) :
    Nat → Reading Node
  | 0 => throw .illFormed
  | fuel + 1 => do
      if (← peek) = .listEnd then do
        drop
        pure (.list .usual items)
      else do
        if !isFirst then expect .comma
        match ← peek with
        | .listEnd => do
            drop
            pure (.list .usual items)
        | .key => do
            drop
            let next ← peek
            let key ←
              if next = .value ∨ endsFlowEntry .listEnd next then pure missing
              else node handles false false fuel
            let value ← flowValue handles .listEnd fuel
            flowItems handles false
              (items ++ [.mapping .usual [(key, value)]]) fuel
        | _ => do
            let item ← node handles false false fuel
            flowItems handles false (items ++ [item]) fuel

/-- The entries of a flow mapping after those already read. An entry
without a key mark has no value. -/
def flowEntries (handles : Handles) (isFirst : Bool)
    (entries : List (Node × Node)) :
    Nat → Reading Node
  | 0 => throw .illFormed
  | fuel + 1 => do
      if (← peek) = .mappingEnd then do
        drop
        pure (.mapping .usual entries)
      else do
        if !isFirst then expect .comma
        match ← peek with
        | .mappingEnd => do
            drop
            pure (.mapping .usual entries)
        | .key => do
            drop
            let next ← peek
            let key ←
              if next = .value ∨ endsFlowEntry .mappingEnd next then
                pure missing
              else node handles false false fuel
            let value ← flowValue handles .mappingEnd fuel
            flowEntries handles false (entries ++ [(key, value)]) fuel
        | _ => do
            let key ← node handles false false fuel
            flowEntries handles false (entries ++ [(key, missing)]) fuel

/-- The value of an entry of a flow collection; it may be missing. -/
def flowValue (handles : Handles) (closing : Mark) : Nat → Reading Node
  | 0 => throw .illFormed
  | fuel + 1 => do
      match ← peek with
      | .value => do
          drop
          if endsFlowEntry closing (← peek) then pure missing
          else node handles false false fuel
      | _ => pure missing

end

-- =========================================================== the directives

/-- The handles of a document after those already read, and whether its
version was given. -/
def directives (hasVersion : Bool) (handles : Handles) : Nat → Reading Handles
  | 0 => throw .illFormed
  | fuel + 1 => do
      match ← peek with
      | .directive (.version major) => do
          drop
          if hasVersion || major != 1 then throw .illFormed
          else directives true handles fuel
      | .directive (.handle name start) => do
          drop
          if (handles.lookup name).isSome then throw .illFormed
          else directives hasVersion ((name, start) :: handles) fuel
      | .directive .other => do
          drop
          directives hasVersion handles fuel
      | _ => pure (handles ++ standardHandles)

/-- The end of the text, after any number of marks that end a document. A
second document is not read, but the text must be in order up to its
start. -/
def ending : Nat → Reading Unit
  | 0 => throw .illFormed
  | fuel + 1 => do
      match ← peek with
      | .documentEnd => do
          drop
          ending fuel
      | .textEnd => pure ()
      | _ => do
          let _ ← directives false [] fuel
          expect .documentStart
          throw .illFormed

/-- The one document of a text, on a given fuel. -/
def document (fuel : Nat) : Reading (Option Node) := do
  match ← peek with
  | .textEnd => pure none
  | .directive _ | .documentStart => do
      let handles ← directives false [] fuel
      expect .documentStart
      let root ←
        match ← peek with
        | .directive _ | .documentStart | .documentEnd | .textEnd =>
            pure missing
        | _ => node handles true false fuel
      ending fuel
      pure (some root)
  | _ => do
      let root ← node standardHandles true false fuel
      ending fuel
      pure (some root)

end Reading

/-- The node that marks make up; none if there are no words in the text.
Every mark is read in at most three steps. -/
def ofMarks (marks : List Mark) : Except Problem (Option Node) :=
  (Reading.document (4 * marks.length + 4)).run' { marks }

end Node

end Reckoner.Document

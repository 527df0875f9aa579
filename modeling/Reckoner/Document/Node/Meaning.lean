/-
What nodes mean.

Scalars mean values, lists the list of what their items mean, and mappings
what their entries come to when later ones replace earlier ones of the same
key. The value of a merge sign is a mapping, or a list of mappings, of which
the entries are taken over; an entry of the mapping itself goes before them,
and so does one of an earlier mapping of a list. A set means its keys, and a
list of pairs the one entry of each of its items, repetitions included.

Of several flaws the one nearest to the root counts, and of those equally
near the first. A value of the wrong form for a merge is found before any
entry is looked at.
-/
import Reckoner.Document.Node

namespace Reckoner.Document.Node

-- ================================================================== the flaws

/-- A problem and how far below the root it is. -/
structure Flaw where
  depth : Nat
  problem : Problem
  deriving DecidableEq, Repr

abbrev Meant := Except Flaw

/-- A flaw of the node itself. -/
def flawed {α : Type} (problem : Problem) : Meant α := .error ⟨0, problem⟩

/-- The meaning of a part of a collection. Scalars are read with the
collection itself; what is wrong within other collections lies one level
deeper. -/
def asPart {α : Type} (part : Node) (meant : Meant α) : Meant α :=
  match part with
  | .scalar .. | .list .foreign _ | .mapping .foreign _ => meant
  | _ => meant.mapError fun flaw => { flaw with depth := flaw.depth + 1 }

/-- The meanings of two parts, or the nearer of their flaws. -/
def both {α β : Type} : Meant α → Meant β → Meant (α × β)
  | .ok a, .ok b => .ok (a, b)
  | .ok _, .error flaw => .error flaw
  | .error flaw, .ok _ => .error flaw
  | .error flaw, .error other =>
      .error (if other.depth < flaw.depth then other else flaw)

-- =============================================================== the merges

mutual

/-- Whether the merges of a mapping are well formed, those of what it takes
over included. -/
def canMerge : List (Node × Node) → Bool
  | [] => true
  | (.scalar .merge _, source) :: rest => isSource source && canMerge rest
  | _ :: rest => canMerge rest

def isSource : Node → Bool
  | .mapping _ entries => canMerge entries
  | .list _ items => areMappings items
  | _ => false

/-- Whether all nodes are mappings whose entries can be taken over. -/
def areMappings : List Node → Bool
  | [] => true
  | .mapping _ entries :: rest => canMerge entries && areMappings rest
  | _ :: _ => false

end

-- ============================================================== the meaning

def scalarMeaning (kind : Scalar.Kind) : Option String → Meant Document
  | some written => (Scalar.meaning kind written).mapError fun problem =>
      ⟨0, problem⟩
  | none => if kind = .text then .ok .brokenText else flawed .illFormed

/-- What a key means. The sign of a default is a text there, and a
collection cannot be a key. -/
def keyMeaning : Node → Meant Document
  | .scalar kind written =>
      scalarMeaning (if kind = .default then .text else kind) written
  | _ => flawed .illFormed

abbrev Entries := List (Document × Document)

/-- Entries of which later ones have replaced earlier ones. -/
def settled (entries : Entries) : Entries :=
  entries.foldl (fun known (key, value) => putEntry known key value) []

/-- Entries that are taken over, and then those of the mapping itself. -/
def joined (first second : Meant Entries) : Meant Entries :=
  (both first second).map fun (first, second) => first ++ second

/-- What the entries of a mapping come to, given those that it takes over
and its own. -/
def combined (entries : List (Node × Node)) (taken own : Meant Entries) :
    Meant Entries :=
  if canMerge entries then (joined taken own).map settled
  else flawed .illFormed

mutual

def meaning : Node → Meant Document
  | .scalar kind written => scalarMeaning kind written
  | .list .usual items => (itemsMeaning items).map .list
  | .list .pairs items => (pairsMeaning items).map .pairs
  | .list _ _ => flawed .illFormed
  | .mapping form entries =>
      let entries := combined entries (taken entries) (own entries)
      match form with
      | .usual => entries.map .mapping
      | .set => entries.map fun entries => .set (entries.map Prod.fst)
      | _ => flawed .illFormed

def itemsMeaning : List Node → Meant (List Document)
  | [] => .ok []
  | item :: rest =>
      (both (asPart item (meaning item)) (itemsMeaning rest)).map
        fun (item, rest) => item :: rest

/-- The pairs of a list, of which each is a mapping of one entry. -/
def pairsMeaning : List Node → Meant Entries
  | [] => .ok []
  | .mapping _ [(key, value)] :: rest =>
      (both (both (asPart key (meaning key)) (asPart value (meaning value)))
          (pairsMeaning rest)).map fun (pair, rest) => pair :: rest
  | _ :: _ => flawed .illFormed

/-- The entries of a mapping that are its own. -/
def own : List (Node × Node) → Meant Entries
  | [] => .ok []
  | (.scalar .merge _, _) :: rest => own rest
  | (key, value) :: rest =>
      (both (both (keyMeaning key) (asPart value (meaning value)))
        (own rest)).map
        fun (entry, rest) => entry :: rest

/-- The entries that a mapping takes over. -/
def taken : List (Node × Node) → Meant Entries
  | [] => .ok []
  | (.scalar .merge _, source) :: rest =>
      joined (contribution source) (taken rest)
  | _ :: rest => taken rest

/-- The entries that are taken over from a node. -/
def contribution : Node → Meant Entries
  | .mapping _ entries => joined (taken entries) (own entries)
  | .list _ items => contributions items
  | _ => .ok []

/-- The entries that are taken over from mappings, those of later ones
first. -/
def contributions : List Node → Meant Entries
  | [] => .ok []
  | .mapping _ entries :: rest =>
      joined (contributions rest) (joined (taken entries) (own entries))
  | _ :: rest => contributions rest

end

end Reckoner.Document.Node

/-
Operator tables: what precedence, grouping, arity and meaning each
operator has.

In the standard table `+ -` bind weakest, then `* /`, then `^` and unary
minus on one level; every binary operator groups from the left. A table
may leave operators out and may give any others any precedence; a table
without a single operator stands for the standard one wherever a table is
optional.

Main facts: giving `^` a grouping changes no other operator
(`find?_grouping`), grouping it from the left changes nothing at all
(`grouping_left`), and the standard table regrouped is the table of that
grouping (`withPowerAssociativity_standard`).
-/
import Reckoner.Failure
import Reckoner.Number.Power

namespace Reckoner

-- ========================================================== the routines

/-- A numeric routine, applied to its arguments leftmost first. A
routine that does not take that many arguments breaks down.

It is a function of its arguments: a routine that keeps a state of its own
between calls, or acts on anything else, has no counterpart here. -/
abbrev Routine := List Float → Except Breakdown Float

namespace Routine

def unary (f : Float → Float) : Routine
  | [x] => .ok (f x)
  | _ => .error .argumentCount

def binary (f : Float → Float → Float) : Routine
  | [x, y] => .ok (f x y)
  | _ => .error .argumentCount

/-- Division, which breaks down on a zero divisor of either sign. -/
def divide : Routine
  | [x, y] => if y == 0 then .error .zeroDivisor else .ok (x / y)
  | _ => .error .argumentCount

end Routine

/-- The routine that an operator has by default. -/
def Operator.routine : Operator → Routine
  | .add => .binary (· + ·)
  | .subtract => .binary (· - ·)
  | .multiply => .binary (· * ·)
  | .divide => .divide
  | .power => .binary Reckoner.power
  | .negate => .unary (- ·)

-- ============================================================= the tables

/-- What a table says about one operator. -/
structure OperatorSpec where
  precedence : Int
  associativity : Associativity
  arity : Nat
  routine : Routine

/-- What an operator has by default. -/
def Operator.spec : Operator → OperatorSpec
  | .add => ⟨1, .left, 2, Operator.add.routine⟩
  | .subtract => ⟨1, .left, 2, Operator.subtract.routine⟩
  | .multiply => ⟨2, .left, 2, Operator.multiply.routine⟩
  | .divide => ⟨2, .left, 2, Operator.divide.routine⟩
  | .power => ⟨3, .left, 2, Operator.power.routine⟩
  | .negate => ⟨3, .right, 1, Operator.negate.routine⟩

/-- A choice of operators and of what each of them has. -/
structure OperatorTable where
  find? : Operator → Option OperatorSpec

namespace OperatorTable

def standard : OperatorTable := ⟨fun op => some op.spec⟩

def contains (table : OperatorTable) (op : Operator) : Bool :=
  (table.find? op).isSome

def isEmpty (table : OperatorTable) : Bool :=
  Operator.all.all fun op => !table.contains op

def insert (table : OperatorTable) (op : Operator) (spec : OperatorSpec) :
    OperatorTable :=
  ⟨fun op' => if op' = op then some spec else table.find? op'⟩

def erase (table : OperatorTable) (op : Operator) : OperatorTable :=
  ⟨fun op' => if op' = op then none else table.find? op'⟩

/-- The table that is meant where a table is optional: an empty one
stands for the standard one. -/
def orStandard (table : OperatorTable) : OperatorTable :=
  if table.isEmpty then standard else table

/-- What a table says about an operator that it is expected to have. -/
def lookup (table : OperatorTable) (op : Operator) :
    Except Breakdown OperatorSpec :=
  match table.find? op with
  | some spec => .ok spec
  | none => .error (.absentOperator op)

/-- The table with `^` grouping as given, which must have `^`. -/
def withPowerAssociativity (table : OperatorTable)
    (associativity : Associativity) : Except Breakdown OperatorTable :=
  match table.orStandard.lookup .power with
  | .error breakdown => .error breakdown
  | .ok spec =>
      .ok (table.orStandard.insert .power { spec with associativity })

/-- The standard table with `^` grouping as given. -/
def grouping (associativity : Associativity) : OperatorTable :=
  standard.insert .power { Operator.power.spec with associativity }

-- ============================================================== the facts

/-- Regrouping `^` changes nothing else. -/
theorem find?_grouping {associativity : Associativity} {op : Operator}
    (h : op ≠ .power) : (grouping associativity).find? op = some op.spec := by
  simp [grouping, insert, standard, h]

/-- Grouping from the left is the standard. -/
theorem grouping_left : grouping .left = standard := by
  unfold grouping insert standard
  congr
  funext op
  split
  · next h => subst h; rfl
  · rfl

/-- The standard table has a `^` to regroup. -/
theorem withPowerAssociativity_standard (associativity : Associativity) :
    standard.withPowerAssociativity associativity
      = .ok (grouping associativity) :=
  rfl

end OperatorTable

end Reckoner

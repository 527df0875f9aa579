/-
The operators of expressions and their symbols.

Unary minus is an operator of its own, `negate`; it shares its symbol
with subtraction and is never what a symbol alone stands for.

Main fact: the symbol of every operator but `negate` names it
(`ofSymbol?_eq_some_iff`).
-/
namespace Reckoner

-- ========================================================== the operators

inductive Operator where
  | add
  | subtract
  | multiply
  | divide
  | power
  | negate
  deriving DecidableEq, Repr

/-- How operators of one precedence group: `a - b - c` from the left is
`(a - b) - c`. -/
inductive Associativity where
  | left
  | right
  deriving DecidableEq, Repr

namespace Operator

def all : List Operator :=
  [.add, .subtract, .multiply, .divide, .power, .negate]

-- ============================================================ the symbols

/-- The character that an expression shows for an operator. -/
def symbol : Operator → Char
  | .add => '+'
  | .subtract => '-'
  | .multiply => '*'
  | .divide => '/'
  | .power => '^'
  | .negate => '-'

/-- The binary operator that a character stands for. -/
def ofSymbol? : Char → Option Operator
  | '+' => some .add
  | '-' => some .subtract
  | '*' => some .multiply
  | '/' => some .divide
  | '^' => some .power
  | _ => none

/-- The binary operator that a text of one character stands for. -/
def ofText? (s : String) : Option Operator :=
  match s.toList with
  | [c] => ofSymbol? c
  | _ => none

/-- A character stands for an operator exactly when it is the symbol of
that operator and the operator is not unary minus. -/
theorem ofSymbol?_eq_some_iff {c : Char} {op : Operator} :
    ofSymbol? c = some op ↔ op ≠ .negate ∧ c = op.symbol := by
  constructor
  · intro h
    unfold ofSymbol? at h
    split at h <;> cases h <;> decide
  · rintro ⟨hne, rfl⟩
    cases op <;> first | rfl | exact absurd rfl hne

end Operator

end Reckoner

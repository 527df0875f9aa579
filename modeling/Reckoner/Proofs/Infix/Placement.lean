/-
What infix notation forbids next to what.

Two properties of token lists that can be told in one pass from left to
right, without a grammar: no operand begins where one has just ended
(`operandsApart`), and every comma stands directly in the parentheses of
a call (`commasInCalls`). Phrases of the infix grammar have both
(`Infix.operandsApart_eq`, `Infix.commasInCalls_eq`). The converter
checks neither.
-/
import Reckoner.Proofs.Infix.Phrase

namespace Reckoner

-- ============================================================ the properties

/-- The kinds of tokens that begin an operand. -/
def TokenKind.startsOperand : TokenKind → Bool
  | .number | .identifier | .function | .leftParen => true
  | _ => false

namespace Token

/-- Whether no operand begins where one has just ended, given whether one
has just ended before the first token. -/
def operandsApart (ended : Bool) : List Token → Bool
  | [] => true
  | token :: rest =>
      !(ended && token.kind.startsOperand)
        && operandsApart token.kind.endsOperand rest

/-- Whether every comma stands directly in the parentheses of a call.
The parentheses that are open are told by whether they belong to a call,
innermost first; `called` says that a function has just been read. -/
def commasInCalls (calls : List Bool) (called : Bool) : List Token → Bool
  | [] => true
  | token :: rest =>
      match token.kind with
      | .leftParen => commasInCalls (called :: calls) false rest
      | .rightParen => commasInCalls calls.tail false rest
      | .comma => calls.head? == some true && commasInCalls calls false rest
      | .function => commasInCalls calls true rest
      | .number | .identifier | .operator => commasInCalls calls false rest

end Token

open Token

namespace Infix

variable {table : OperatorTable} {registry : Registry} {tokens : List Token}

-- ============================================================= the operands

/-- What reading a phrase means for the operands apart: a tail begins
where an operand has ended, any other phrase where one may begin, and
each ends where an operand has ended. Only an empty list of arguments
ends where it began. -/
def LeavesOperandsApart : Phrase → List Token → Prop
  | .arguments 0, tokens => tokens = []
  | .tail, tokens =>
      ∀ rest, operandsApart true (tokens ++ rest) = operandsApart true rest
  | _, tokens =>
      ∀ rest, operandsApart false (tokens ++ rest) = operandsApart true rest

/-- Phrases keep operands apart. -/
theorem leavesOperandsApart {phrase : Phrase}
    (h : Infix table registry phrase tokens) :
    LeavesOperandsApart phrase tokens := by
  induction h with
  | number hkind | identifier hkind =>
      intro rest
      simp [operandsApart, hkind, TokenKind.endsOperand]
  | group hopening hclosing _ ih =>
      intro rest
      simp only [LeavesOperandsApart] at ih
      simp [operandsApart, hopening, hclosing, TokenKind.endsOperand,
        TokenKind.startsOperand, ih]
  | @call _ _ _ spec _ hfunction _ hopening hclosing _ ih =>
      intro rest
      -- without arguments there are no tokens between the brackets to speak
      -- of
      cases harity : spec.arity with
      | zero =>
          rw [harity] at ih
          obtain rfl := ih
          simp [operandsApart, hfunction, hopening, hclosing,
            TokenKind.endsOperand]
      | succ count =>
          rw [harity] at ih
          simp only [LeavesOperandsApart] at ih
          simp [operandsApart, hfunction, hopening, hclosing,
            TokenKind.endsOperand, TokenKind.startsOperand, ih]
  | bare _ ih => exact ih
  | minus hminus _ _ _ ih =>
      intro rest
      have hkind := kind_of_meant? hminus
      simp only [LeavesOperandsApart] at ih
      simp [operandsApart, hkind, TokenKind.endsOperand, ih]
  | stop => exact fun _ => rfl
  | next hop _ _ _ _ ih ihothers =>
      intro rest
      have hkind := kind_of_meant? hop
      simp only [LeavesOperandsApart] at ih ihothers
      simp [operandsApart, hkind, TokenKind.endsOperand,
        TokenKind.startsOperand, ih, ihothers]
  | level _ _ ih ihothers =>
      intro rest
      rw [List.append_assoc, ih, ihothers]
  | noArguments => rfl
  | argument _ ih => exact ih
  | moreArguments _ hcomma _ ih ihothers =>
      intro rest
      simp only [LeavesOperandsApart] at ih ihothers
      simp [operandsApart, hcomma, TokenKind.endsOperand,
        TokenKind.startsOperand, ih, ihothers]

/-- No two operands of an expression stand side by side. -/
theorem operandsApart_eq (h : Infix table registry .level tokens) :
    operandsApart false tokens = true := by
  have hapart := leavesOperandsApart h []
  rwa [List.append_nil] at hapart

-- =============================================================== the commas

/-- What reading a phrase means for the commas: it is over when all its
parentheses are closed again, and only arguments have commas of their
own. -/
def LeavesCommas : Phrase → List Token → Prop
  | .arguments _, tokens => ∀ calls rest,
      commasInCalls (true :: calls) false (tokens ++ rest)
        = commasInCalls (true :: calls) false rest
  | _, tokens => ∀ calls rest,
      commasInCalls calls false (tokens ++ rest)
        = commasInCalls calls false rest

/-- Phrases have commas only in the parentheses of their calls. -/
theorem leavesCommas {phrase : Phrase}
    (h : Infix table registry phrase tokens) : LeavesCommas phrase tokens := by
  induction h with
  | number hkind | identifier hkind =>
      intro calls rest
      simp [commasInCalls, hkind]
  | group hopening hclosing _ ih =>
      intro calls rest
      simp only [LeavesCommas] at ih
      simp [commasInCalls, hopening, hclosing, ih]
  | call hfunction _ hopening hclosing _ ih =>
      intro calls rest
      simp only [LeavesCommas] at ih
      simp [commasInCalls, hfunction, hopening, hclosing, ih]
  | bare _ ih => exact ih
  | minus hminus _ _ _ ih =>
      intro calls rest
      have hkind := kind_of_meant? hminus
      simp only [LeavesCommas] at ih
      simp [commasInCalls, hkind, ih]
  | stop => exact fun _ _ => rfl
  | next hop _ _ _ _ ih ihothers =>
      intro calls rest
      have hkind := kind_of_meant? hop
      simp only [LeavesCommas] at ih ihothers
      simp [commasInCalls, hkind, ih, ihothers]
  | level _ _ ih ihothers =>
      intro calls rest
      rw [List.append_assoc, ih, ihothers]
  | noArguments => exact fun _ _ => rfl
  | argument _ ih => exact fun calls => ih (true :: calls)
  | moreArguments _ hcomma _ ih ihothers =>
      intro calls rest
      simp only [LeavesCommas] at ih ihothers
      simp [commasInCalls, hcomma, ih, ihothers]

/-- Every comma of an expression stands in the parentheses of a call. -/
theorem commasInCalls_eq (h : Infix table registry .level tokens) :
    commasInCalls [] false tokens = true := by
  have hcommas := leavesCommas h [] []
  rwa [List.append_nil] at hcommas

end Infix

end Reckoner

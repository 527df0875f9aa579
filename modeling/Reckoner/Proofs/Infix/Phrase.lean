/-
The infix grammar, as a description of token lists:

    level   = operand (binary-operator operand)*
    operand = '-'* atom
    atom    = NUMBER | IDENTIFIER | '(' level ')'
            | FUNCTION '(' as many levels as it takes, with commas between ')'

The grammar says what stands next to what and nothing about grouping:
precedence is a matter of the operator table. It speaks of a table only
in asking that the table has the operators that occur, and of a registry
in asking how many arguments a function takes.
-/
import Reckoner.Proofs.Postfix.Emission

namespace Reckoner

/-- The kinds of phrases. A tail is what may follow the first operand of
a level. -/
inductive Phrase where
  | atom
  | operand
  | tail
  | level
  | arguments (count : Nat)

/-- The token lists of each kind of phrase. -/
inductive Infix (table : OperatorTable) (registry : Registry) :
    Phrase → List Token → Prop where
  | number {token} (hkind : token.kind = .number) :
      Infix table registry .atom [token]
  | identifier {token} (hkind : token.kind = .identifier) :
      Infix table registry .atom [token]
  | group {opening closing tokens} (hopening : opening.kind = .leftParen)
      (hclosing : closing.kind = .rightParen)
      (h : Infix table registry .level tokens) :
      Infix table registry .atom (opening :: tokens ++ [closing])
  | call {function opening closing spec tokens}
      (hfunction : function.kind = .function)
      (hspec : registry.find? function.text = some spec)
      (hopening : opening.kind = .leftParen)
        (hclosing : closing.kind = .rightParen)
      (h : Infix table registry (.arguments spec.arity) tokens) :
      Infix table registry .atom (function :: opening :: tokens ++ [closing])
  | bare {tokens} (h : Infix table registry .atom tokens) :
      Infix table registry .operand tokens
  | minus {token tokens} (hminus : token.meant? = some .subtract)
      (hsubtract : table.contains .subtract = true)
      (hnegate : table.contains .negate = true)
      (h : Infix table registry .operand tokens) :
      Infix table registry .operand (token :: tokens)
  | stop : Infix table registry .tail []
  | next {token op tokens others} (hop : token.meant? = some op)
      (hbinary : op ≠ .negate)
      (hcontains : table.contains op = true)
      (h : Infix table registry .operand tokens)
      (hothers : Infix table registry .tail others) :
      Infix table registry .tail (token :: tokens ++ others)
  | level {tokens others} (h : Infix table registry .operand tokens)
      (hothers : Infix table registry .tail others) :
      Infix table registry .level (tokens ++ others)
  | noArguments : Infix table registry (.arguments 0) []
  | argument {tokens} (h : Infix table registry .level tokens) :
      Infix table registry (.arguments 1) tokens
  | moreArguments {comma count tokens others}
      (h : Infix table registry .level tokens)
      (hcomma : comma.kind = .comma)
      (hothers : Infix table registry (.arguments (count + 1)) others) :
      Infix table registry (.arguments (count + 2)) (tokens ++ comma :: others)

end Reckoner

/-
Tokens: the words of an expression, infix or postfix.

A token keeps its text and the offset of its first character in the
expression. Number tokens also carry their value and operator tokens
their operator; tokens that are built by hand may leave either out, and
the later stages say what then happens.
-/
import Reckoner.Operator

namespace Reckoner

/-- The kinds of tokens. -/
inductive TokenKind where
  | number
  | identifier
  | function
  | operator
  | leftParen
  | rightParen
  | comma
  deriving DecidableEq, Repr

/-- The name of a kind of token. -/
def TokenKind.name : TokenKind → String
  | .number => "NUMBER"
  | .identifier => "IDENTIFIER"
  | .function => "FUNCTION"
  | .operator => "OPERATOR"
  | .leftParen => "LPAREN"
  | .rightParen => "RPAREN"
  | .comma => "COMMA"

/-- A word of an expression. -/
structure Token where
  kind : TokenKind
  text : String
  position : Int
  number : Option Float := none
  operator : Option Operator := none
  deriving DecidableEq, Repr

end Reckoner

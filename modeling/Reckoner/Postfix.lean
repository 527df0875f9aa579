/-
From infix tokens to postfix tokens, in one pass over the infix ones.

The converter is a transducer: each token makes it emit some tokens and
change its state. Operands are emitted at once. Operators and functions
wait on a stack until their turn comes: an arriving operator sends out
the waiting operators that do not yield to it, a comma or a closing
parenthesis sends out everything above the parenthesis it belongs to.
Beside the stack runs a list of records, one for each open parenthesis,
that counts the arguments of calls.

A minus sign at the start, after an operator, after `(` or after `,` is
unary. Unary minus waits without sending anything out, and leaves only
for an operator of strictly lower precedence, so `-2^2` is `-(2^2)`.

Main facts: feeding two lists of tokens one after the other is feeding
their concatenation (`feed_append`), and what an operator sends out is a
front part of the stack (`splitYielding_append`).
-/
import Reckoner.Registry
import Reckoner.Token

namespace Reckoner

-- ============================================================== the state

/-- The record of an open parenthesis. -/
structure OpenParen where
  token : Token
  function : Option Token
  /-- The commas met so far at its own level. -/
  commas : Nat := 0
  /-- Whether anything stands between it and its end. -/
  hasArguments : Bool := false
  deriving DecidableEq, Repr

/-- What the converter remembers between two tokens. -/
structure Converter where
  /-- The waiting tokens, the last one that came first. -/
  stack : List Token := []
  parens : List OpenParen := []
  /-- The infix token before. -/
  previous : Option Token := none
  deriving DecidableEq, Repr

/-- What a conversion depends on beside the tokens. -/
structure Grammar where
  operators : OperatorTable
  functions : Registry
  source : String

namespace Converter

-- ============================================================ the waiting

/-- Kinds of tokens after which a minus sign is unary. -/
def opensOperand : TokenKind → Bool
  | .operator | .leftParen | .comma => true
  | _ => false

/-- Whether a minus sign is unary, given the token before it. -/
def isUnaryPlace : Option Token → Bool
  | none => true
  | some previous => opensOperand previous.kind

/-- Whether a waiting operator goes out before an arriving one: if it
binds tighter, or, unless it is unary, if it binds as tight and the
arriving one groups from the left. -/
def precedes (waiting arriving : OperatorSpec) : Bool :=
  if waiting.arity = 1 then waiting.precedence > arriving.precedence
  else waiting.precedence > arriving.precedence
    || (waiting.precedence == arriving.precedence
      && arriving.associativity == .left)

/-- Whether a waiting token goes out before an arriving operator.
Parentheses and functions never do. -/
def goesFirst (operators : OperatorTable) (waiting : Token)
    (arriving : OperatorSpec) : Except Breakdown Bool :=
  match waiting.kind, waiting.operator with
  | .operator, some op =>
      match operators.lookup op with
      | .ok spec => .ok (precedes spec arriving)
      | .error breakdown => .error breakdown
  | _, _ => .ok false

/-- The waiting tokens that go out before an arriving operator, and
those that stay. -/
def splitYielding (operators : OperatorTable) (arriving : OperatorSpec) :
    List Token → Except Breakdown (List Token × List Token)
  | [] => .ok ([], [])
  | top :: rest => do
      if ← goesFirst operators top arriving then
        let (out, kept) ← splitYielding operators arriving rest
        .ok (top :: out, kept)
      else .ok ([], top :: rest)

/-- Whether a waiting token is not an open parenthesis. -/
def isInside (token : Token) : Bool := token.kind != .leftParen

-- =========================================================== the handlers

/-- What a step emits and the state it leaves. -/
abbrev Step := Except Failure (List Token × Converter)

/-- How a report names a token; one without text is named by its kind. -/
def named (token : Token) : String :=
  if token.text.isEmpty then token.kind.name else token.text

def unknown (g : Grammar) (token : Token) : Failure :=
  .at (.unknownToken (named token)) token.position g.source

def function (g : Grammar) (c : Converter) (token : Token) : Step :=
  if g.functions.contains token.text then
    .ok ([], { c with stack := token :: c.stack })
  else .error (unknown g token)

/-- A comma sends out what waits above the innermost open parenthesis
and is counted there. -/
def comma (c : Converter) : Step :=
  let parens :=
    match c.parens with
    | [] => []
    | paren :: outer => { paren with commas := paren.commas + 1 } :: outer
  .ok (c.stack.takeWhile isInside,
    { c with stack := c.stack.dropWhile isInside, parens })

/-- An operator of the table waits, after what goes out before it; a
unary minus sends nothing out. The operator is the one that the token
carries or, if it carries none, the one that its text stands for. -/
def operator (g : Grammar) (c : Converter) (token : Token) : Step :=
  match token.operator.or (Operator.ofText? token.text) with
  | none => .error (unknown g token)
  | some op =>
      match g.operators.find? op with
      | none => .error (unknown g token)
      | some spec =>
          if op = .subtract ∧ isUnaryPlace c.previous then
            let minus : Token :=
              ⟨.operator, token.text, token.position, none, some .negate⟩
            .ok ([], { c with stack := minus :: c.stack })
          else
            match splitYielding g.operators spec c.stack with
            | .error breakdown => .error (.broken breakdown)
            | .ok (out, kept) =>
                let waiting :=
                  if token.operator.isNone then
                    { token with number := none, operator := some op }
                  else token
                .ok (out, { c with stack := waiting :: kept })

/-- An opening parenthesis waits and gets its record; directly after a
function it opens the arguments of that function. -/
def openParen (c : Converter) (token : Token) : Step :=
  let function := c.previous.filter fun previous => previous.kind == .function
  .ok ([], { c with
    stack := token :: c.stack
    parens := { token, function } :: c.parens })

/-- Holds the arguments that a call got against the number that its
function takes. A call without any is left to the evaluation. -/
def checkArguments (g : Grammar) (paren : OpenParen) : Except Failure Unit :=
  match paren.function with
  | none => .ok ()
  | some function =>
      if paren.hasArguments then
        match g.functions.lookup function.text with
        | .error breakdown => .error (.broken breakdown)
        | .ok spec =>
            let got := paren.commas + 1
            if got ≠ spec.arity then
              .error (.at (.argumentCount function.text spec.arity got)
                function.position g.source)
            else .ok ()
      else .ok ()

/-- The function at the top of the stack, whose call is complete, and
the rest. -/
def splitCalled : List Token → List Token × List Token
  | top :: rest =>
      if top.kind = .function then ([top], rest) else ([], top :: rest)
  | [] => ([], [])

/-- A closing parenthesis sends out what waits above the one it closes,
and then the function whose arguments the two enclose. -/
def closeParen (g : Grammar) (c : Converter) (token : Token) : Step :=
  match c.stack.dropWhile isInside with
  | [] => .error (.at .unopenedParen token.position g.source)
  | _ :: below =>
      match c.parens with
      | [] => .error (.broken .emptyStack)
      | paren :: outer =>
          match checkArguments g paren with
          | .error failure => .error failure
          | .ok () =>
              let (called, stack) := splitCalled below
              .ok (c.stack.takeWhile isInside ++ called,
                { c with stack, parens := outer })

-- =============================================================== the pass

def unopenedCall (g : Grammar) (function : Token) : Failure :=
  .at (.callWithoutParens function.text) function.position g.source

/-- The function that the given next token leaves without arguments. -/
def abandoned? (c : Converter) (next : Option TokenKind) : Option Token :=
  match c.previous with
  | some previous =>
      if previous.kind = .function ∧ next ≠ some .leftParen then some previous
      else none
  | none => none

/-- Takes note in the innermost record that its parenthesis encloses
something. -/
def noteArgument (c : Converter) (token : Token) : Converter :=
  match c.parens with
  | paren :: outer =>
      if token.kind = .rightParen then c
      else { c with parens := { paren with hasArguments := true } :: outer }
  | [] => c

def handle (g : Grammar) (c : Converter) (token : Token) : Step :=
  match token.kind with
  | .number | .identifier => .ok ([token], c)
  | .function => function g c token
  | .comma => comma c
  | .operator => operator g c token
  | .leftParen => openParen c token
  | .rightParen => closeParen g c token

/-- One infix token: what it emits and the state it leaves. -/
def step (g : Grammar) (c : Converter) (token : Token) : Step :=
  match c.abandoned? (some token.kind) with
  | some function => .error (unopenedCall g function)
  | none =>
      match handle g (c.noteArgument token) token with
      | .error failure => .error failure
      | .ok (out, c) => .ok (out, { c with previous := some token })

/-- A list of infix tokens, one step each. -/
def feed (g : Grammar) : Converter → List Token → Step
  | c, [] => .ok ([], c)
  | c, token :: rest =>
      match step g c token with
      | .error failure => .error failure
      | .ok (out, c) =>
          match feed g c rest with
          | .error failure => .error failure
          | .ok (more, c) => .ok (out ++ more, c)

/-- The end of the input sends out all that waits. A function without
arguments and, after that, an open parenthesis are faults. -/
def finish (g : Grammar) (c : Converter) : Except Failure (List Token) :=
  match c.abandoned? none with
  | some function => .error (unopenedCall g function)
  | none =>
      match c.stack.find? fun token => token.kind == .leftParen with
      | some paren => .error (.at .unclosedParen paren.position g.source)
      | none => .ok c.stack

-- ============================================================== the facts

theorem feed_append (g : Grammar) (c : Converter) (first second : List Token) :
    feed g c (first ++ second) =
      match feed g c first with
      | .error failure => .error failure
      | .ok (out, c) =>
          match feed g c second with
          | .error failure => .error failure
          | .ok (more, c) => .ok (out ++ more, c) := by
  induction first generalizing c with
  | nil =>
      simp only [List.nil_append, feed]
      cases feed g c second <;> rfl
  | cons token rest ih =>
      simp only [List.cons_append, feed]
      cases step g c token with
      | error failure => rfl
      | ok result =>
          simp only [ih]
          cases feed g result.2 rest with
          | error failure => rfl
          | ok result' =>
              simp only
              cases feed g result'.2 second with
              | error failure => rfl
              | ok result'' => simp [List.append_assoc]

theorem splitYielding_append {operators : OperatorTable}
    {arriving : OperatorSpec} {stack out kept : List Token}
    (h : splitYielding operators arriving stack = .ok (out, kept)) :
    out ++ kept = stack := by
  induction stack generalizing out kept with
  | nil =>
      cases h
      rfl
  | cons top rest ih =>
      simp only [splitYielding, bind, Except.bind] at h
      split at h
      · cases h
      · split at h
        · split at h
          · cases h
          · next result hrest =>
              cases h
              simp [ih hrest]
        · cases h
          rfl

end Converter

-- ============================================================= the result

/-- The postfix form of infix tokens. An empty table or registry stands
for the usual one. -/
def toPostfix (g : Grammar) (tokens : List Token) :
    Except Failure (List Token) :=
  let g := { g with
    operators := g.operators.orStandard, functions := g.functions.orBuiltin }
  match Converter.feed g {} tokens with
  | .error failure => .error failure
  | .ok (out, c) =>
      match c.finish g with
      | .error failure => .error failure
      | .ok rest => .ok (out ++ rest)

end Reckoner

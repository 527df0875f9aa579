/-
Moving tokens through the conversion.

A converter remembers tokens, so it can be relocated like them. What it
asks of a token is its kind, its text and its operator, which a move
leaves alone; so each handler does to a moved token in a moved state what
it does to the token, moved (`Relocation.handle_token`). The same follows
of steps and runs by induction, and of conversions
(`Relocation.toPostfix_tokens`).
-/
import Reckoner.Proofs.Postfix.Emission
import Reckoner.Proofs.Token.Relocation

namespace Reckoner.Relocation

open Converter

variable (r : Relocation)

-- ============================================================== the state

/-- An open bracket, with the tokens it remembers moved. -/
def paren (paren : OpenParen) : OpenParen :=
  { paren with
    token := r.token paren.token, function := paren.function.map r.token }

/-- A state of the conversion, with all its tokens moved. -/
def converter (c : Converter) : Converter where
  stack := c.stack.map r.token
  parens := c.parens.map r.paren
  previous := c.previous.map r.token

/-- The same grammar over the text that is reported. -/
def grammar (g : Grammar) : Grammar := { g with source := r.source }

/-- What a step emits and the state it leaves, moved. -/
def step : Step → Step :=
  recast r.failure fun result => (result.1.map r.token, r.converter result.2)

variable (g : Grammar) (c : Converter) (token : Token)

-- ============================================================ the waiting

/-- Whether a minus would be a sign is told from a kind alone. -/
theorem isUnaryPlace_map (previous : Option Token) :
    isUnaryPlace (previous.map r.token) = isUnaryPlace previous := by
  cases previous <;> rfl

private theorem takeWhile_isInside (stack : List Token) :
    (stack.map r.token).takeWhile isInside
      = (stack.takeWhile isInside).map r.token := by
  rw [List.takeWhile_map]
  rfl

private theorem dropWhile_isInside (stack : List Token) :
    (stack.map r.token).dropWhile isInside
      = (stack.dropWhile isInside).map r.token := by
  rw [List.dropWhile_map]
  rfl

/-- The operators that go first are as many after a move: they are found by
their meaning. -/
theorem splitYielding_map (operators : OperatorTable) (arriving : OperatorSpec)
    (stack : List Token) :
    splitYielding operators arriving (stack.map r.token)
      = recast id (Prod.map (List.map r.token) (List.map r.token))
          (splitYielding operators arriving stack) := by
  induction stack with
  | nil => rfl
  | cons top rest ih =>
      have hfirst : goesFirst operators (r.token top) arriving
          = recast id id (goesFirst operators top arriving) := by
        cases h : goesFirst operators top arriving <;> exact h
      rw [List.map_cons, splitYielding, splitYielding, hfirst, ih]
      refine recast_bind fun goes => ?_
      cases goes with
      | true => exact recast_bind fun _ => rfl
      | false => rfl

/-- A function below a bracket is still there after a move. -/
theorem splitCalled_map (stack : List Token) :
    splitCalled (stack.map r.token)
      = Prod.map (List.map r.token) (List.map r.token)
        (splitCalled stack) := by
  cases stack with
  | nil => rfl
  | cons top rest =>
      rw [List.map_cons, splitCalled, splitCalled, token_kind]
      split <;> rfl

-- =========================================================== the handlers

private theorem function_token :
    Converter.function (r.grammar g) (r.converter c) (r.token token)
      = r.step (Converter.function g c token) := by
  rw [Converter.function, Converter.function]
  rw [apply_ite r.step]
  rfl

private theorem comma_converter :
    Converter.comma (r.converter c) = r.step (Converter.comma c) := by
  obtain ⟨stack, parens, previous⟩ := c
  simp only [Converter.comma, converter, takeWhile_isInside,
    dropWhile_isInside]
  cases parens <;> rfl

/-- The operator handler works on a moved operator as on the operator: the
place decides about the sign, the table about who goes first, and neither
looks at a position. -/
theorem operator_token :
    Converter.operator (r.grammar g) (r.converter c) (r.token token)
      = r.step (Converter.operator g c token) := by
  have hplace :
      isUnaryPlace (r.converter c).previous = isUnaryPlace c.previous :=
    r.isUnaryPlace_map c.previous
  have hstack : (r.converter c).stack = c.stack.map r.token := rfl
  have htable : (r.grammar g).operators = g.operators := rfl
  simp only [Converter.operator, token_operator, token_text, htable, hplace,
    hstack, splitYielding_map]
  cases token.operator.or (Operator.ofText? token.text) with
  | none => rfl
  | some op =>
      dsimp only
      cases g.operators.find? op with
      | none => rfl
      | some spec =>
          dsimp only
          by_cases hminus : op = .subtract ∧ isUnaryPlace c.previous = true
          · rw [if_pos hminus, if_pos hminus]
            rfl
          · rw [if_neg hminus, if_neg hminus]
            cases splitYielding g.operators spec c.stack with
            | error breakdown => rfl
            | ok cut =>
                -- the token that waits carries its operator, if it did not
                -- before
                obtain ⟨kind, text, position, number, carried⟩ := token
                cases carried <;> rfl

/-- An opening bracket remembers the function in front of it, moved like the
bracket itself. -/
theorem openParen_token :
    Converter.openParen (r.converter c) (r.token token)
      = r.step (Converter.openParen c token) := by
  have hcalled : (r.converter c).previous.filter (·.kind == .function)
      = (c.previous.filter (·.kind == .function)).map r.token := by
    rw [converter, Option.filter_map]
    rfl
  rw [Converter.openParen, Converter.openParen, hcalled]
  rfl

/-- The arguments of a call that has some are held against what the
registry says of its function. -/
theorem checkArguments_call (opening function : Token) (commas : Nat) :
    checkArguments g ⟨opening, some function, commas, true⟩
      = match g.functions.lookup function.text with
        | .error breakdown => .error (.broken breakdown)
        | .ok spec =>
            if commas + 1 ≠ spec.arity then
              .error (.at (.argumentCount function.text spec.arity
                (commas + 1)) function.position g.source)
            else .ok () :=
  rfl

/-- A call is refused after a move for the reason it was refused before, at
the place its function was moved to. -/
theorem checkArguments_paren (paren : OpenParen) :
    checkArguments (r.grammar g) (r.paren paren)
      = recast r.failure id (checkArguments g paren) := by
  obtain ⟨opening, _ | function, commas, _ | _⟩ := paren
  · rfl
  · rfl
  · rfl
  · have hparen : r.paren ⟨opening, some function, commas, true⟩
        = ⟨r.token opening, some (r.token function), commas, true⟩ := rfl
    have hlookup : (r.grammar g).functions.lookup (r.token function).text
        = g.functions.lookup function.text := rfl
    rw [hparen, checkArguments_call, checkArguments_call, hlookup]
    cases g.functions.lookup function.text with
    | error breakdown => rfl
    | ok spec =>
        dsimp only
        rw [apply_ite (recast r.failure id)]
        rfl

/-- A closing bracket lets go of the same tokens, moved. -/
theorem closeParen_token :
    Converter.closeParen (r.grammar g) (r.converter c) (r.token token)
      = r.step (Converter.closeParen g c token) := by
  obtain ⟨stack, parens, previous⟩ := c
  simp only [Converter.closeParen, converter, takeWhile_isInside,
    dropWhile_isInside]
  cases stack.dropWhile isInside with
  | nil => rfl
  | cons top below =>
      cases parens with
      | nil => rfl
      | cons paren outer =>
          simp only [List.map_cons, checkArguments_paren, splitCalled_map]
          cases checkArguments g paren with
          | error failure => rfl
          | ok _ =>
              simp only [recast, step, converter, List.map_append]
              rfl

-- =============================================================== the pass

/-- A function that was left without its bracket is found again where it was
moved to. -/
theorem abandoned?_converter (next : Option TokenKind) :
    (r.converter c).abandoned? next = (c.abandoned? next).map r.token := by
  obtain ⟨stack, parens, previous⟩ := c
  cases previous with
  | none => rfl
  | some last =>
      rw [abandoned?, abandoned?, converter]
      rw [apply_ite (Option.map r.token)]
      rfl

/-- An argument is noted of a moved call as of the call. -/
theorem noteArgument_token :
    (r.converter c).noteArgument (r.token token)
      = r.converter (c.noteArgument token) := by
  obtain ⟨stack, parens, previous⟩ := c
  cases parens with
  | nil => rfl
  | cons paren outer =>
      rw [noteArgument, noteArgument, converter]
      rw [apply_ite r.converter]
      rfl

/-- What becomes of a moved token is what becomes of the token, moved. -/
theorem handle_token :
    handle (r.grammar g) (r.converter c) (r.token token)
      = r.step (handle g c token) := by
  rw [handle, handle, token_kind]
  cases token.kind with
  | number | identifier => rfl
  | function => exact r.function_token g c token
  | comma => exact r.comma_converter c
  | operator => exact r.operator_token g c token
  | leftParen => exact r.openParen_token c token
  | rightParen => exact r.closeParen_token g c token

/-- A step commutes with a move: the check for an abandoned function, the
note and the handler each do. -/
theorem step_token :
    Converter.step (r.grammar g) (r.converter c) (r.token token)
      = r.step (Converter.step g c token) := by
  rw [Converter.step, Converter.step, token_kind, abandoned?_converter,
    noteArgument_token, handle_token]
  cases c.abandoned? (some token.kind) with
  | some function => rfl
  | none => cases handle g (c.noteArgument token) token <;> rfl

/-- A run over moved tokens is the run over the tokens, moved. -/
theorem feed_tokens (tokens : List Token) :
    feed (r.grammar g) (r.converter c) (tokens.map r.token)
      = r.step (feed g c tokens) := by
  induction tokens generalizing c with
  | nil => rfl
  | cons token rest ih =>
      rw [List.map_cons, feed, feed, step_token]
      cases Converter.step g c token with
      | error failure => rfl
      | ok result =>
          dsimp only [Relocation.step, recast]
          rw [ih]
          cases feed g result.2 rest with
          | error failure => rfl
          | ok after =>
              dsimp only [Relocation.step, recast]
              rw [List.map_append]

/-- What is left at the end is handed out or refused as before, moved. -/
theorem finish_converter :
    (r.converter c).finish (r.grammar g)
      = recast r.failure (List.map r.token) (c.finish g) := by
  have hopen : (r.converter c).stack.find? (·.kind == .leftParen)
      = (c.stack.find? (·.kind == .leftParen)).map r.token := by
    rw [converter, List.find?_map]
    rfl
  rw [finish, finish, abandoned?_converter, hopen]
  cases c.abandoned? none with
  | some function => rfl
  | none => cases c.stack.find? (·.kind == .leftParen) <;> rfl

/-- Tokens that are moved have the same postfix form or the same fault,
moved. -/
theorem toPostfix_tokens (tokens : List Token) :
    toPostfix (r.grammar g) (tokens.map r.token)
      = recast r.failure (List.map r.token) (toPostfix g tokens) := by
  have hfeed : feed (r.grammar g).orStandard {} (tokens.map r.token)
      = r.step (feed g.orStandard {} tokens) :=
    r.feed_tokens g.orStandard {} tokens
  rw [toPostfix_eq_convert, toPostfix_eq_convert, convert, convert, hfeed]
  cases feed g.orStandard {} tokens with
  | error failure => rfl
  | ok result =>
      have hfinish : (r.converter result.2).finish (r.grammar g).orStandard
          = recast r.failure (List.map r.token)
            (result.2.finish g.orStandard) :=
        r.finish_converter g.orStandard result.2
      dsimp only [Relocation.step, recast]
      rw [hfinish]
      cases result.2.finish g.orStandard with
      | error failure => rfl
      | ok rest =>
          dsimp only [ahead, Except.map, recast]
          rw [List.map_append]

end Reckoner.Relocation

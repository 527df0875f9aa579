/-
What the converter puts out for a stretch of infix tokens, as an algebra.

`Emits g bound tokens rest out` says: over any stack whose top is the
operator `bound` (or that is empty or topped by an open parenthesis, for
no bound), reading `tokens` with `rest` still to come puts out exactly
`out` and leaves the stack as it was. That is not a statement about the
step after `tokens` alone, because the last operators of the stretch are
still waiting there: they go out when the first token of `rest` arrives.
So the output is counted up to the end of the input (`convert`), and the
waiting operators are settled one by one against `rest` (`convert_waiting`).

Each way of building an infix stretch has its law: a number or a name, a
pair of parentheses, a call, a unary minus, a binary operator. The laws
for the last two ask two things of the operator table, that the stack
holds the operator back (`stops` is false) and that what follows lets it
go (`Released`); any grammar that guarantees both converts to the
postorder of its trees.
-/
import Reckoner.Proofs.Expression

namespace Reckoner

-- ================================================================= yielding

namespace OperatorTable

/-- Whether operator `t`, when it waits, goes out before an arriving `o`:
a unary one if it binds tighter, a binary one also if it binds as tight
and `o` groups from the left. -/
def pops (table : OperatorTable) (t o : Operator) : Bool :=
  match table.find? t, table.find? o with
  | some spec, some arriving =>
      if spec.arity = 1 then arriving.precedence < spec.precedence
      else arriving.precedence < spec.precedence
        ∨ arriving.precedence = spec.precedence
          ∧ arriving.associativity = .left
  | _, _ => false

/-- Whether `o` ends what stands behind the operator `bound`. Where
nothing stands before, no operator ends anything. -/
def stops (table : OperatorTable) (bound : Option Operator) (o : Operator) :
    Bool :=
  bound.any (table.pops · o)

theorem find?_of_contains {table : OperatorTable} {op : Operator}
    (h : table.contains op = true) : ∃ spec, table.find? op = some spec :=
  Option.isSome_iff_exists.mp h

/-- Only operators of the table go before others, and only before such. -/
theorem contains_of_pops {table : OperatorTable} {t o : Operator}
    (h : table.pops t o = true) :
    table.contains t = true ∧ table.contains o = true := by
  unfold pops at h
  split at h
  · simp [contains, *]
  · cases h

end OperatorTable

-- ================================================================ the places

/-- The kinds of tokens that end an operand. -/
def TokenKind.endsOperand : TokenKind → Bool
  | .number | .identifier | .rightParen => true
  | _ => false

namespace Converter

/-- Whether the top of a stack is the given operator or, for none, no
operator at all: then the stack is empty or topped by a parenthesis. -/
def Holds (bound : Option Operator) (stack : List Token) : Prop :=
  match bound with
  | none => ∀ top ∈ stack.head?, top.kind = .leftParen
  | some op =>
      ∃ top ∈ stack.head?, top.kind = .operator ∧ top.operator = some op

/-- Whether what follows sends out the waiting operator `t`: the end, a
closing parenthesis, a comma, or an operator that `t` goes before. -/
def Released (table : OperatorTable) (t : Operator) (rest : List Token) :
    Prop :=
  ∀ next ∈ rest.head?, next.kind = .rightParen ∨ next.kind = .comma
    ∨ ∃ o, next.meant? = some o ∧ o ≠ .negate ∧ table.pops t o = true

/-- The records once something stands in the innermost parenthesis. -/
def noted : List OpenParen → List OpenParen
  | [] => []
  | paren :: outer => { paren with hasArguments := true } :: outer

@[simp] theorem noted_noted (parens : List OpenParen) :
    noted (noted parens) = noted parens := by
  cases parens <;> rfl

/-- Any token but a closing bracket is noted as the beginning of an argument.
-/
theorem noteArgument_eq {stack : List Token} {parens : List OpenParen}
    {previous : Option Token} {token : Token} (h : token.kind ≠ .rightParen) :
    (⟨stack, parens, previous⟩ : Converter).noteArgument token
      = ⟨stack, noted parens, previous⟩ := by
  cases parens with
  | nil => rfl
  | cons paren outer => simp [noteArgument, noted, h]

theorem noteArgument_close {c : Converter} {token : Token}
    (h : token.kind = .rightParen) : c.noteArgument token = c := by
  unfold noteArgument
  split
  · simp [h]
  · rfl

/-- Where an operand may begin no function waits for its parenthesis. -/
theorem abandoned?_of_unary {stack : List Token} {parens : List OpenParen}
    {previous : Option Token} (h : isUnaryPlace previous = true)
    (next : Option TokenKind) :
    (⟨stack, parens, previous⟩ : Converter).abandoned? next = none := by
  cases previous with
  | none => rfl
  | some token =>
      cases hkind : token.kind <;>
        simp_all [abandoned?, isUnaryPlace, opensOperand]

theorem abandoned?_of_ended {stack : List Token} {parens : List OpenParen}
    {last : Token} (h : last.kind.endsOperand = true)
    (next : Option TokenKind) :
    (⟨stack, parens, some last⟩ : Converter).abandoned? next = none := by
  cases hkind : last.kind <;> simp_all [abandoned?, TokenKind.endsOperand]

theorem isUnaryPlace_of_ended {last : Token}
    (h : last.kind.endsOperand = true) : isUnaryPlace (some last) = false := by
  cases hkind : last.kind <;>
    simp_all [isUnaryPlace, opensOperand, TokenKind.endsOperand]

theorem filter_of_unary {previous : Option Token}
    (h : isUnaryPlace previous = true) :
    previous.filter (·.kind == .function) = none := by
  cases previous with
  | none => rfl
  | some token =>
      cases hkind : token.kind <;>
        simp_all [isUnaryPlace, opensOperand]

-- ============================================== output up to the end

/-- A result with tokens put in front. -/
def ahead (out : List Token) (result : Except Failure (List Token)) :
    Except Failure (List Token) :=
  result.map (out ++ ·)

@[simp] theorem ahead_nil (result : Except Failure (List Token)) :
    ahead [] result = result := by
  cases result <;> rfl

@[simp] theorem ahead_ahead (out more : List Token)
    (result : Except Failure (List Token)) :
    ahead out (ahead more result) = ahead (out ++ more) result := by
  cases result with
  | error failure => rfl
  | ok tokens => simp [ahead, Except.map]

/-- All that is put out from a state on for the given tokens, the end of
the input included. -/
def convert (g : Grammar) (c : Converter) (tokens : List Token) :
    Except Failure (List Token) :=
  match feed g c tokens with
  | .error failure => .error failure
  | .ok (out, c) => ahead out (c.finish g)

theorem convert_nil (g : Grammar) (c : Converter) :
    convert g c [] = c.finish g := by
  simp [convert, feed]

/-- The first token puts out what its handler does, once it is noted and
before it is remembered; the others put out the rest. -/
theorem convert_cons {g : Grammar} {token : Token} {previous : Option Token}
    {stack stack' out : List Token} {parens parens' : List OpenParen}
    (hidle : (⟨stack, parens, previous⟩ : Converter).abandoned?
      (some token.kind) = none)
    (h : handle g ((⟨stack, parens, previous⟩ : Converter).noteArgument
      token) token = .ok (out, ⟨stack', parens', previous⟩))
        (rest : List Token) :
    convert g ⟨stack, parens, previous⟩ (token :: rest)
      = ahead out (convert g ⟨stack', parens', some token⟩ rest) := by
  simp only [convert, feed, step, hidle, h]
  cases feed g ⟨stack', parens', some token⟩ rest with
  | error failure => rfl
  | ok result => simp

-- ============================================================ single tokens

variable {g : Grammar} {stack : List Token} {parens : List OpenParen}

/-- An operand is handed out at once. -/
theorem convert_operand {previous : Option Token} {token : Token}
    (hplace : isUnaryPlace previous = true)
    (hkind : token.kind = .number ∨ token.kind = .identifier)
    (rest : List Token) :
    convert g ⟨stack, parens, previous⟩ (token :: rest)
      = ahead [token] (convert g ⟨stack, noted parens, some token⟩ rest) := by
  refine convert_cons (abandoned?_of_unary hplace _) ?_ rest
  rcases hkind with hkind | hkind <;>
    simp [noteArgument_eq, handle, hkind]

/-- A sign waits for its operand. -/
theorem convert_minus {previous : Option Token} {minus : Token}
    (hplace : isUnaryPlace previous = true)
    (hminus : minus.meant? = some .subtract)
    (hsubtract : g.operators.contains .subtract = true) (rest : List Token) :
    convert g ⟨stack, parens, previous⟩ (minus :: rest)
      = convert g ⟨minus.negating :: stack, noted parens, some minus⟩
        rest := by
  have hkind := Token.kind_of_meant? hminus
  have hop : minus.operator.or (Operator.ofText? minus.text)
      = some .subtract := by
    simpa [Token.meant?, hkind] using hminus
  obtain ⟨spec, hspec⟩ := OperatorTable.find?_of_contains hsubtract
  rw [← ahead_nil (convert g ⟨minus.negating :: stack, _, _⟩ rest)]
  refine convert_cons (abandoned?_of_unary hplace _) ?_ rest
  rw [noteArgument_eq (by simp [hkind])]
  simp [handle, hkind, operator, hop, hspec, hplace, Token.negating]

/-- After an operand a binary operator sends out what goes before it and
waits itself. -/
theorem convert_operator {last token : Token} {op : Operator}
    {spec : OperatorSpec} {out kept : List Token}
    (hlast : last.kind.endsOperand = true) (hop : token.meant? = some op)
    (hspec : g.operators.find? op = some spec)
    (hsplit : splitYielding g.operators spec stack = .ok (out, kept))
    (rest : List Token) :
    convert g ⟨stack, parens, some last⟩ (token :: rest)
      = ahead out
          (convert g ⟨token.carrying op :: kept, noted parens, some token⟩
            rest) := by
  have hkind := Token.kind_of_meant? hop
  have hor : token.operator.or (Operator.ofText? token.text) = some op := by
    simpa [Token.meant?, hkind] using hop
  refine convert_cons (abandoned?_of_ended hlast _) ?_ rest
  rw [noteArgument_eq (by simp [hkind])]
  simp [handle, hkind, operator, hor, hspec, isUnaryPlace_of_ended hlast,
    hsplit, Token.carrying]

/-- A function waits for its call. -/
theorem convert_function {previous : Option Token} {function : Token}
    (hplace : isUnaryPlace previous = true) (hkind : function.kind = .function)
    (hknown : g.functions.contains function.text = true) (rest : List Token) :
    convert g ⟨stack, parens, previous⟩ (function :: rest)
      = convert g ⟨function :: stack, noted parens, some function⟩ rest := by
  rw [← ahead_nil (convert g ⟨function :: stack, _, _⟩ rest)]
  refine convert_cons (abandoned?_of_unary hplace _) ?_ rest
  rw [noteArgument_eq (by simp [hkind])]
  simp [handle, hkind, Converter.function, hknown]

/-- An opening parenthesis waits and gets a record with the function
right before it. -/
theorem convert_open {previous : Option Token} {opening : Token}
    (hkind : opening.kind = .leftParen) (rest : List Token) :
    convert g ⟨stack, parens, previous⟩ (opening :: rest)
      = convert g ⟨opening :: stack,
          ⟨opening, previous.filter (·.kind == .function), 0, false⟩ :: noted
            parens,
          some opening⟩ rest := by
  rw [← ahead_nil (convert g ⟨opening :: stack, _, _⟩ rest)]
  refine convert_cons ?_ ?_ rest
  · cases previous <;> simp [abandoned?, hkind]
  · rw [noteArgument_eq (by simp [hkind])]
    simp [handle, hkind, openParen]

/-- A closing parenthesis right above the one it closes takes both away
and sends out the function that they were the call of. -/
theorem convert_close {previous opening closing : Token} {paren : OpenParen}
    (hidle : previous.kind ≠ .function) (hopening : opening.kind = .leftParen)
    (hclosing : closing.kind = .rightParen)
    (hcheck : checkArguments g paren = .ok ()) (rest : List Token) :
    convert g ⟨opening :: stack, paren :: parens, some previous⟩
      (closing :: rest)
      = ahead (splitCalled stack).1
          (convert g ⟨(splitCalled stack).2, parens, some closing⟩ rest) := by
  refine convert_cons ?_ ?_ rest
  · simp [abandoned?, hidle]
  · rw [noteArgument_close hclosing]
    simp [handle, hclosing, closeParen, isInside, hopening, hcheck]

/-- A comma right above its parenthesis is counted there. -/
theorem convert_comma {last comma : Token} {paren : OpenParen}
    (hholds : Holds none stack) (hlast : last.kind.endsOperand = true)
    (hcomma : comma.kind = .comma) (rest : List Token) :
    convert g ⟨stack, paren :: parens, some last⟩ (comma :: rest)
      = convert g ⟨stack, { paren with
          commas := paren.commas + 1, hasArguments := true } :: parens,
          some comma⟩ rest := by
  rw [← ahead_nil (convert g ⟨stack, _, some comma⟩ rest)]
  refine convert_cons (abandoned?_of_ended hlast _) ?_ rest
  rw [noteArgument_eq (by simp [hcomma])]
  have hbare : stack.takeWhile isInside = []
      ∧ stack.dropWhile isInside = stack := by
    cases stack with
    | nil => exact ⟨rfl, rfl⟩
    | cons top below =>
        have htop : isInside top = false := by
          simp [isInside, hholds top rfl]
        simp [htop]
  simp [handle, hcomma, Converter.comma, noted, hbare.1, hbare.2]

-- ======================================================= waiting operators

/-- Among operators of the table the comparison is the one of the climb. -/
theorem goesFirst_eq_pops {table : OperatorTable} {waiting : Token}
    {t o : Operator} {arriving : OperatorSpec}
    (hkind : waiting.kind = .operator) (hop : waiting.operator = some t)
    (ht : table.contains t = true)
    (ho : table.find? o = some arriving) :
    goesFirst table waiting arriving = .ok (table.pops t o) := by
  obtain ⟨spec, hspec⟩ := OperatorTable.find?_of_contains ht
  simp only [goesFirst, hkind, hop, OperatorTable.lookup, hspec, precedes,
    OperatorTable.pops, ho]
  split
  · rfl
  · rw [Except.ok.injEq, Bool.eq_iff_iff]
    simp [@eq_comm Int spec.precedence]

/-- A stack whose top holds an operator back lets nothing go for it. -/
theorem splitYielding_of_holds {table : OperatorTable}
    {bound : Option Operator} {o : Operator} {arriving : OperatorSpec}
    (hholds : Holds bound stack)
    (hbound : ∀ t ∈ bound, table.contains t = true)
    (ho : table.find? o = some arriving)
    (hstay : table.stops bound o = false) :
    splitYielding table arriving stack = .ok ([], stack) := by
  cases stack with
  | nil => rfl
  | cons top rest =>
      have hfirst : goesFirst table top arriving = .ok false := by
        cases bound with
        | none =>
            have hkind : top.kind = .leftParen := hholds top (by simp)
            simp [goesFirst, hkind]
        | some t =>
            obtain ⟨top', htop, hkind, hop⟩ := hholds
            obtain rfl : top = top' := by simpa using htop
            have hpops : table.pops t o = false := by
              simpa [OperatorTable.stops] using hstay
            rw [goesFirst_eq_pops hkind hop (hbound t rfl) ho, hpops]
      simp [splitYielding, bind, Except.bind, hfirst]

/-- An operator that sends out a waiting one sends out first that one
and then what it would have sent out without it. -/
theorem splitYielding_waiting {table : OperatorTable} {waiting : Token}
    {t o : Operator} {arriving : OperatorSpec}
    (hkind : waiting.kind = .operator) (hop : waiting.operator = some t)
    (ho : table.find? o = some arriving)
    (hpops : table.pops t o = true) :
    splitYielding table arriving (waiting :: stack)
      = (splitYielding table arriving stack).map
          fun (out, kept) => (waiting :: out, kept) := by
  have hfirst : goesFirst table waiting arriving = .ok true := by
    rw [goesFirst_eq_pops hkind hop (OperatorTable.contains_of_pops hpops).1
      ho, hpops]
  simp only [splitYielding, bind, Except.bind, hfirst, if_true]
  cases splitYielding table arriving stack <;> rfl

/-- The token that releases a waiting operator sends it out first and
then does what it would have done without it. -/
theorem step_waiting {waiting last next : Token} {t : Operator}
    (hkind : waiting.kind = .operator) (hop : waiting.operator = some t)
    (hlast : last.kind.endsOperand = true)
    (hnext : next.kind = .rightParen ∨ next.kind = .comma
      ∨ ∃ o, next.meant? = some o ∧ o ≠ .negate
        ∧ g.operators.pops t o = true) :
    step g ⟨waiting :: stack, parens, some last⟩ next
      = (step g ⟨stack, parens, some last⟩ next).map
          fun (out, c) => (waiting :: out, c) := by
  have hinside : isInside waiting = true := by simp [isInside, hkind]
  simp only [step, abandoned?_of_ended hlast]
  rcases hnext with hnext | hnext | ⟨o, ho, -, hpops⟩
  · -- a closing parenthesis
    rw [noteArgument_close hnext, noteArgument_close hnext]
    simp only [handle, hnext, closeParen, List.dropWhile_cons, hinside,
      if_true]
    cases List.dropWhile isInside stack with
    | nil => rfl
    | cons paren below =>
        cases parens with
        | nil => rfl
        | cons record outer =>
            dsimp only
            cases checkArguments g record with
            | error failure => rfl
            | ok _ => simp [Except.map, hinside]
  · -- a comma
    rw [noteArgument_eq (by simp [hnext]), noteArgument_eq (by simp [hnext])]
    simp [handle, hnext, comma, Except.map, hinside]
  · -- an operator
    have hkindNext := Token.kind_of_meant? ho
    have hor : next.operator.or (Operator.ofText? next.text) = some o := by
      simpa [Token.meant?, hkindNext] using ho
    obtain ⟨arriving, harriving⟩ :=
      OperatorTable.find?_of_contains (OperatorTable.contains_of_pops hpops).2
    rw [noteArgument_eq (by simp [hkindNext]),
      noteArgument_eq (by simp [hkindNext])]
    simp only [handle, hkindNext, operator, hor, harriving,
      isUnaryPlace_of_ended hlast, Bool.false_eq_true, and_false, if_false,
      splitYielding_waiting hkind hop harriving hpops]
    cases splitYielding g.operators arriving stack <;> rfl

/-- An operator that what follows releases goes out before it. -/
theorem convert_waiting {waiting last : Token} {t : Operator}
    {rest : List Token} (hkind : waiting.kind = .operator)
    (hop : waiting.operator = some t) (hlast : last.kind.endsOperand = true)
    (hrest : Released g.operators t rest) :
    convert g ⟨waiting :: stack, parens, some last⟩ rest
      = ahead [waiting] (convert g ⟨stack, parens, some last⟩ rest) := by
  cases rest with
  | nil =>
      -- the end of the input releases everything
      simp only [convert_nil, finish, abandoned?_of_ended hlast,
        List.find?_cons, hkind]
      cases List.find? (fun token => token.kind == .leftParen) stack <;> rfl
  | cons next rest =>
      have hstep : step g ⟨waiting :: stack, parens, some last⟩ next = _ :=
        step_waiting hkind hop hlast (hrest next rfl)
      simp only [convert, feed, hstep]
      cases step g ⟨stack, parens, some last⟩ next with
      | error failure => rfl
      | ok result =>
          simp only [Except.map]
          cases feed g result.2 rest with
          | error failure => rfl
          | ok more => simp

-- ================================================================= the laws

/-- Reading `tokens` with `rest` still to come puts out `out`, over any
stack whose top is `bound` and wherever an operand may begin. -/
def Emits (g : Grammar) (bound : Option Operator)
    (tokens rest out : List Token) :
    Prop :=
  ∀ (stack : List Token) (parens : List OpenParen) (previous : Option Token),
    Holds bound stack → isUnaryPlace previous = true →
    ∃ last : Token, last.kind.endsOperand = true
      ∧ convert g ⟨stack, parens, previous⟩ (tokens ++ rest)
        = ahead out (convert g ⟨stack, noted parens, some last⟩ rest)

/-- The same of arguments with `commas` commas between them, which the
record of their parenthesis counts. -/
def EmitsArguments (g : Grammar) (commas : Nat)
    (tokens rest out : List Token) :
    Prop :=
  ∀ (stack : List Token) (paren : OpenParen) (outer : List OpenParen)
    (previous : Option Token), Holds none stack →
      isUnaryPlace previous = true →
    ∃ last : Token, last.kind.endsOperand = true
      ∧ convert g ⟨stack, paren :: outer, previous⟩ (tokens ++ rest)
        = ahead out (convert g
          ⟨stack, { paren with
            commas := paren.commas + commas, hasArguments := true } :: outer,
            some last⟩ rest)

variable {bound : Option Operator} {tokens rest out : List Token}

theorem Emits.operand {token : Token}
    (hkind : token.kind = .number ∨ token.kind = .identifier) :
    Emits g bound [token] rest [token] := by
  intro stack parens previous _ hplace
  refine ⟨token, ?_, convert_operand hplace hkind rest⟩
  rcases hkind with hkind | hkind <;> simp [hkind, TokenKind.endsOperand]

/-- A unary minus goes out after its operand if the operand is read with
the minus as bound and what follows releases the minus. -/
theorem Emits.minus {minus : Token} (hminus : minus.meant? = some .subtract)
    (hsubtract : g.operators.contains .subtract = true)
    (h : Emits g (some .negate) tokens rest out)
    (hrest : Released g.operators .negate rest) :
    Emits g bound (minus :: tokens) rest (out ++ [minus.negating]) := by
  intro stack parens previous _ hplace
  have hkind := Token.kind_of_meant? hminus
  obtain ⟨last, hlast, hbody⟩ := h (minus.negating :: stack) (noted parens)
    (some minus) ⟨minus.negating, rfl, rfl, rfl⟩
    (by simp [isUnaryPlace, opensOperand, hkind])
  refine ⟨last, hlast, ?_⟩
  rw [List.cons_append, convert_minus hplace hminus hsubtract, hbody,
    convert_waiting (t := .negate) rfl rfl hlast hrest]
  simp

/-- A binary operator goes out after both operands if the stack holds it
back, its right operand is read with it as bound and what follows
releases it. -/
theorem Emits.binary {token : Token} {op : Operator}
    {right outRight : List Token}
    (hleft : Emits g bound tokens (token :: (right ++ rest)) out)
    (hop : token.meant? = some op) (hcontains : g.operators.contains op = true)
    (hbound : ∀ t ∈ bound, g.operators.contains t = true)
    (hstay : g.operators.stops bound op = false)
    (hright : Emits g (some op) right rest outRight)
    (hrest : Released g.operators op rest) :
    Emits g bound (tokens ++ token :: right) rest
      (out ++ outRight ++ [token.carrying op]) := by
  intro stack parens previous hholds hplace
  have hkind := Token.kind_of_meant? hop
  obtain ⟨spec, hspec⟩ := OperatorTable.find?_of_contains hcontains
  obtain ⟨last, hlast, hfirst⟩ := hleft stack parens previous hholds hplace
  have hcarry : (token.carrying op).kind = .operator := by
    rw [Token.kind_carrying, hkind]
  -- the right operand is read over the operator, which nothing in it sends out
  obtain ⟨last', hlast', hsecond⟩ := hright (token.carrying op :: stack)
    (noted parens) (some token)
    ⟨token.carrying op, rfl, hcarry, Token.operator_carrying hop⟩
    (by simp [isUnaryPlace, opensOperand, hkind])
  refine ⟨last', hlast', ?_⟩
  calc convert g ⟨stack, parens, previous⟩ (tokens ++ token :: right ++ rest)
      = ahead out (convert g ⟨stack, noted parens, some last⟩
          (token :: (right ++ rest))) := by
        rw [List.append_assoc, List.cons_append, hfirst]
    _ = ahead out (convert g
          ⟨token.carrying op :: stack, noted parens, some token⟩
            (right ++ rest)) := by
        rw [convert_operator hlast hop hspec
          (splitYielding_of_holds hholds hbound hspec hstay)]
        simp
    _ = ahead (out ++ outRight)
          (convert g ⟨token.carrying op :: stack, noted parens, some last'⟩
            rest) := by
        rw [hsecond]
        simp
    _ = _ := by
        rw [convert_waiting hcarry (Token.operator_carrying hop) hlast' hrest]
        simp

private theorem splitCalled_of_holds (hholds : Holds bound stack) :
    splitCalled stack = ([], stack) := by
  cases stack with
  | nil => rfl
  | cons top below =>
      have hkind : top.kind ≠ .function := by
        cases bound with
        | none => simp [hholds top rfl]
        | some t =>
            obtain ⟨top', htop, hkind, -⟩ := hholds
            obtain rfl : top = top' := by simpa using htop
            simp [hkind]
      simp [splitCalled, hkind]

theorem ne_function_of_ended {token : Token}
    (h : token.kind.endsOperand = true) : token.kind ≠ .function := by
  intro hkind
  simp [hkind, TokenKind.endsOperand] at h

/-- A pair of parentheses puts out what it encloses. -/
theorem Emits.group {opening closing : Token}
    (hopening : opening.kind = .leftParen)
    (hclosing : closing.kind = .rightParen)
    (h : Emits g none tokens (closing :: rest) out) :
    Emits g bound (opening :: tokens ++ [closing]) rest out := by
  intro stack parens previous hholds hplace
  obtain ⟨last, hlast, hbody⟩ := h (opening :: stack)
    (⟨opening, none, 0, false⟩ :: noted parens) (some opening)
      (by simpa [Holds])
    (by simp [isUnaryPlace, opensOperand, hopening])
  refine ⟨closing, by simp [hclosing, TokenKind.endsOperand], ?_⟩
  rw [List.append_assoc, List.cons_append, List.singleton_append,
    convert_open hopening, filter_of_unary hplace, hbody, noted,
    convert_close (ne_function_of_ended hlast) hopening hclosing rfl,
    splitCalled_of_holds hholds]
  simp

theorem EmitsArguments.single (h : Emits g none tokens rest out) :
    EmitsArguments g 0 tokens rest out := by
  intro stack paren outer previous hholds hplace
  exact h stack (paren :: outer) previous hholds hplace

theorem EmitsArguments.more {comma : Token} {commas : Nat}
    {others outOthers : List Token} (hcomma : comma.kind = .comma)
    (h : Emits g none tokens (comma :: (others ++ rest)) out)
    (hothers : EmitsArguments g commas others rest outOthers) :
    EmitsArguments g (commas + 1) (tokens ++ comma :: others) rest
      (out ++ outOthers) := by
  intro stack paren outer previous hholds hplace
  obtain ⟨last, hlast, hfirst⟩ :=
    h stack (paren :: outer) previous hholds hplace
  obtain ⟨last', hlast', hmore⟩ := hothers stack
    { paren with commas := paren.commas + 1, hasArguments := true } outer
    (some comma) hholds (by simp [isUnaryPlace, opensOperand, hcomma])
  refine ⟨last', hlast', ?_⟩
  rw [List.append_assoc, List.cons_append, hfirst, noted,
    convert_comma hholds hlast hcomma, hmore, ahead_ahead]
  simp [Nat.add_comm, Nat.add_left_comm]

/-- A call puts out its arguments and then the function, if it gets as
many as the function takes. -/
theorem Emits.call {function opening closing : Token} {spec : FunctionSpec}
    {commas : Nat} (hfunction : function.kind = .function)
    (hspec : g.functions.find? function.text = some spec)
    (hopening : opening.kind = .leftParen)
    (hclosing : closing.kind = .rightParen) (harity : spec.arity = commas + 1)
    (h : EmitsArguments g commas tokens (closing :: rest) out) :
    Emits g bound (function :: opening :: tokens ++ [closing]) rest
      (out ++ [function]) := by
  intro stack parens previous hholds hplace
  have hknown : g.functions.contains function.text = true := by
    simp [NameMap.contains, hspec]
  obtain ⟨last, hlast, hbody⟩ := h (opening :: function :: stack)
    ⟨opening, some function, 0, false⟩ (noted parens) (some opening)
    (by simpa [Holds]) (by simp [isUnaryPlace, opensOperand, hopening])
  -- the record has counted a comma less than there are arguments
  have hcheck : checkArguments g ⟨opening, some function, 0 + commas, true⟩
      = .ok () := by
    simp [checkArguments, Registry.lookup, hspec, harity]
  refine ⟨closing, by simp [hclosing, TokenKind.endsOperand], ?_⟩
  rw [List.append_assoc, List.cons_append, List.cons_append,
    List.singleton_append, convert_function hplace hfunction hknown,
    convert_open hopening]
  simp only [Option.filter, hfunction, beq_self_eq_true, if_true, noted_noted]
  rw [hbody, convert_close (ne_function_of_ended hlast) hopening hclosing
    hcheck]
  simp [splitCalled, hfunction]

/-- A call without arguments puts out the function, however many it
takes. -/
theorem Emits.emptyCall {function opening closing : Token}
    {spec : FunctionSpec} (hfunction : function.kind = .function)
    (hspec : g.functions.find? function.text = some spec)
    (hopening : opening.kind = .leftParen)
    (hclosing : closing.kind = .rightParen) :
    Emits g bound [function, opening, closing] rest [function] := by
  intro stack parens previous hholds hplace
  have hknown : g.functions.contains function.text = true := by
    simp [NameMap.contains, hspec]
  refine ⟨closing, by simp [hclosing, TokenKind.endsOperand], ?_⟩
  rw [List.cons_append, List.cons_append, List.singleton_append,
    convert_function hplace hfunction hknown, convert_open hopening]
  simp only [Option.filter, hfunction, beq_self_eq_true, if_true, noted_noted]
  rw [convert_close (by simp [hopening]) hopening hclosing
    (by simp [checkArguments])]
  simp [splitCalled, hfunction]

end Converter

-- ================================================================ the result

/-- The grammar that is meant where tables and registries are optional. -/
def Grammar.orStandard (g : Grammar) : Grammar :=
  { g with
    operators := g.operators.orStandard, functions := g.functions.orBuiltin }

/-- The postfix form is what is put out from the beginning to the end. -/
theorem toPostfix_eq_convert (g : Grammar) (tokens : List Token) :
    toPostfix g tokens = Converter.convert g.orStandard {} tokens := by
  simp only [toPostfix, Converter.convert, Grammar.orStandard]
  cases Converter.feed _ {} tokens with
  | error failure => rfl
  | ok result =>
      dsimp only
      cases Converter.finish _ result.2 <;> rfl

/-- What a whole expression puts out is its postfix form. -/
theorem toPostfix_of_emits {g : Grammar} {tokens out : List Token}
    (h : Converter.Emits g.orStandard none tokens [] out) :
    toPostfix g tokens = .ok out := by
  obtain ⟨last, hlast, hall⟩ := h [] [] none (by simp [Converter.Holds]) rfl
  rw [List.append_nil, Converter.noted, Converter.convert_nil,
    Converter.finish, Converter.abandoned?_of_ended hlast] at hall
  rw [toPostfix_eq_convert, hall]
  simp [Converter.ahead, Except.map]

end Reckoner

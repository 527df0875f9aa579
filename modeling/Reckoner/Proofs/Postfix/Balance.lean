/-
What the converter has in hand, weighed against what it has read.

The converter never refuses a token for standing in the wrong place: it
checks parentheses and counts commas. But tokens in the wrong place show
in the weight of the postfix form. A prefix of an infix expression owes
a definite weight, which follows from the open parentheses and the last
token alone (`due`): a call is short of its arguments until its commas
are counted, and an operand that has ended weighs one. What the converter
has put out and kept back weighs at most that, and if it weighs exactly
that then the tokens so far can be completed to an expression
(`Pending`). Two of the misplacements would spoil the account, as they
add a weight that can hide a lack elsewhere: an operand next to an
operand, and a comma outside a call. They are excluded by assumption.

The account is kept by every step (`Account.step`), so by every run
(`Account.feed`). A postfix form that evaluates weighs one, which is what
a whole expression owes; so it came from one (`level_of_total`).
-/
import Reckoner.Proofs.Evaluation.Weight
import Reckoner.Proofs.Infix.Derivation
import Reckoner.Proofs.Infix.Placement
import Reckoner.Proofs.Infix.Prefix
import Reckoner.Proofs.Postfix.Waiting

namespace Reckoner

open Evaluation Token

open Infix

-- ================================================================ the account

namespace Converter

/-- What a prefix of an expression owes for an open parenthesis: a call
the values of the arguments before the present one, and the function is
paid in advance. -/
def owed (g : Grammar) (paren : OpenParen) : Int :=
  match paren.function with
  | none => 0
  | some function => 1 - arityOf g.functions function.text + paren.commas

/-- What it owes for its last token. -/
def owedLast (g : Grammar) : Option Token → Int
  | none => 0
  | some token =>
      match token.kind with
      | .number | .identifier | .rightParen => 1
      | .function => 1 - arityOf g.functions token.text
      | .operator | .leftParen | .comma => 0

/-- What all open calls still owe. -/
def owedAll (g : Grammar) : List OpenParen → Int
  | [] => 0
  | paren :: outer => owed g paren + owedAll g outer

/-- What is owed altogether: by the last token and by the open calls. -/
def due (g : Grammar) (parens : List OpenParen) (previous : Option Token) :
    Int :=
  owedAll g parens + owedLast g previous

/-- The records are up to date: only that of a parenthesis that was just
opened has taken note of nothing. -/
def UpToDate (parens : List OpenParen) (previous : Option Token) : Prop :=
  match parens with
  | [] => True
  | paren :: outer =>
      (paren.hasArguments = true
        ∨ paren.commas = 0 ∧ ∃ token ∈ previous, token.kind = .leftParen)
      ∧ ∀ record ∈ outer, record.hasArguments = true

/-- The account of a converter that has read and put out some tokens. -/
structure Account (g : Grammar) (read out : List Token) (c : Converter) :
    Prop where
  openings : openings c.stack = c.parens.length
  upToDate : UpToDate c.parens c.previous
  total_le : g.total (out ++ c.stack) ≤ due g c.parens c.previous
  pending : g.total (out ++ c.stack) = due g c.parens c.previous →
    Pending g c.parens c.previous read

-- ===================================================== keeping it, by parts

variable {g : Grammar} {grouping : Associativity}
variable {read out : List Token} {stack : List Token} {parens : List OpenParen}
variable {previous : Option Token} {token : Token}

/-- Where an operand may begin none is there yet. -/
theorem owedLast_of_unary (h : isUnaryPlace previous = true) :
    owedLast g previous = 0 := by
  cases previous with
  | none => rfl
  | some token =>
      cases hkind : token.kind <;>
        simp_all [isUnaryPlace, opensOperand, owedLast]

private theorem owedLast_of_ended (h : token.kind.endsOperand = true) :
    owedLast g (some token) = 1 := by
  cases hkind : token.kind <;> simp_all [owedLast, TokenKind.endsOperand]

/-- No function waits for its parenthesis: an operand may begin, or one
has just ended. -/
def Settled (previous : Option Token) : Prop :=
  isUnaryPlace previous = true
    ∨ ∃ last, previous = some last ∧ last.kind.endsOperand = true

/-- A function that is followed by anything but a bracket is abandoned. -/
theorem settled_of_idle {next : TokenKind}
    (hidle : (⟨stack, parens, previous⟩ : Converter).abandoned? (some next)
      = none)
    (hnext : next ≠ .leftParen) : Settled previous := by
  cases previous with
  | none => exact Or.inl rfl
  | some last =>
      cases hkind : last.kind <;>
        simp_all [Settled, isUnaryPlace, opensOperand, abandoned?,
          TokenKind.endsOperand]

/-- At most one value is owed for the last token, and one only if it has
ended an operand. -/
theorem owedLast_of_settled (g : Grammar) (h : Settled previous) :
    owedLast g previous ≤ 1 ∧ (owedLast g previous = 1 →
      ∃ last, previous = some last ∧ last.kind.endsOperand = true) := by
  rcases h with hplace | ⟨last, rfl, hlast⟩
  · rw [owedLast_of_unary hplace]
    exact ⟨by decide, fun heq => absurd heq (by decide)⟩
  · rw [owedLast_of_ended hlast]
    exact ⟨Int.le_refl _, fun _ => ⟨last, rfl, hlast⟩⟩

private theorem due_of_unary (h : isUnaryPlace previous = true) :
    due g parens previous = owedAll g parens := by
  rw [due, owedLast_of_unary h, Int.add_zero]

private theorem due_of_ended (h : token.kind.endsOperand = true) :
    due g parens (some token) = owedAll g parens + 1 := by
  rw [due, owedLast_of_ended h]

private theorem owedAll_cons (paren : OpenParen) :
    owedAll g (paren :: parens) = owed g paren + owedAll g parens := rfl

/-- What a record owes does not depend on what it has taken note of. -/
theorem owedAll_noted : owedAll g (noted parens) = owedAll g parens := by
  cases parens <;> rfl

@[simp] theorem length_noted : (noted parens).length = parens.length := by
  cases parens <;> rfl

/-- Once a token is noted every record has taken note of something. -/
theorem hasArguments_noted (h : UpToDate parens previous) :
    ∀ record ∈ noted parens, record.hasArguments = true := by
  cases parens with
  | nil => simp [noted]
  | cons paren outer => simpa [noted] using h.2

private theorem upToDate_of_all
    (h : ∀ record ∈ parens, record.hasArguments = true) :
    UpToDate parens previous := by
  cases parens with
  | nil => trivial
  | cons paren outer =>
      exact ⟨Or.inl (h paren (by simp)), fun record hrecord =>
        h record (by simp [hrecord])⟩

-- operators are what the table has them be

private theorem weight_negating (htable : g.operators = .grouping grouping)
    (minus : Token) :
    g.weight minus.negating = 0 := by
  have hspec : (OperatorTable.grouping grouping).find? .negate
      = some Operator.negate.spec := OperatorTable.find?_grouping (by decide)
  simp [Grammar.weight, negating, htable, hspec, Operator.spec]

/-- An operator takes two values and leaves one, whatever the grouping. -/
theorem weight_carrying {op : Operator}
    (htable : g.operators = .grouping grouping)
    (hop : token.meant? = some op) (hbinary : op ≠ .negate) :
    g.weight (token.carrying op) = -1 := by
  obtain ⟨spec, hspec, harity, -⟩ := find?_grouping_binary grouping hbinary
  have hkind : (token.carrying op).kind = .operator := by
    rw [kind_carrying, kind_of_meant? hop]
  simp [Grammar.weight, hkind, operator_carrying hop, htable, hspec, harity]

/-- The account is kept if no more is gained than comes to be due, and if
the prefix remains one where as much is gained. -/
theorem Account.next {more stack' : List Token} {parens' : List OpenParen}
    (h : Account g read out ⟨stack, parens, previous⟩)
    (hopenings : Converter.openings stack' = parens'.length)
    (hupToDate : UpToDate parens' (some token))
    (hle : g.total more + g.total stack' + due g parens previous
      ≤ g.total stack + due g parens' (some token))
    (hpending : g.total more + g.total stack' + due g parens previous
        = g.total stack + due g parens' (some token) →
      Pending g parens previous read →
        Pending g parens' (some token) (read ++ [token])) :
    Account g (read ++ [token]) (out ++ more)
      ⟨stack', parens', some token⟩ := by
  have htotal := h.total_le
  simp only [Grammar.total_append] at htotal
  -- a step never gains more than it owes, so an exact account was exact before
  refine ⟨hopenings, hupToDate, ?_, fun heq => ?_⟩
  · simp only [Grammar.total_append]
    omega
  · simp only [Grammar.total_append] at heq
    have hbefore : g.total (out ++ stack) = due g parens previous := by
      rw [Grammar.total_append]
      omega
    exact hpending (by omega) (h.pending hbefore)

/-- An operand goes straight to the output and brings in one value. -/
theorem Account.operand (h : Account g read out ⟨stack, parens, previous⟩)
    (hplace : isUnaryPlace previous = true)
    (hkind : token.kind = .number ∨ token.kind = .identifier) :
    Account g (read ++ [token]) (out ++ [token])
      ⟨stack, noted parens, some token⟩ := by
  have hends : token.kind.endsOperand = true := by
    rcases hkind with hkind | hkind <;> simp [hkind, TokenKind.endsOperand]
  have hweight : g.weight token = 1 := by
    rcases hkind with hkind | hkind <;> simp [Grammar.weight, hkind]
  refine h.next (by simpa using h.openings)
    (upToDate_of_all (hasArguments_noted h.upToDate)) ?_ fun _ hpending => ?_
  · rw [due_of_unary hplace, due_of_ended hends, owedAll_noted,
      Grammar.total_cons, Grammar.total_nil, hweight]
    omega
  · obtain ⟨before, level, rfl, hbefore, hlevel, -⟩ := hpending.awaits hplace
    refine Pending.atom hends hbefore.noted hlevel ?_
    rcases hkind with hkind | hkind
    · exact .number hkind
    · exact .identifier hkind

/-- A function waits, and its call is owed from then on. -/
theorem Account.function {spec : FunctionSpec}
    (h : Account g read out ⟨stack, parens, previous⟩)
    (hplace : isUnaryPlace previous = true) (hkind : token.kind = .function)
    (hspec : g.functions.find? token.text = some spec) :
    Account g (read ++ [token]) (out ++ [])
      ⟨token :: stack, noted parens, some token⟩ := by
  have hinside : isInside token = true := by simp [isInside, hkind]
  have howed : owedLast g (some token) = g.weight token := by
    simp [owedLast, Grammar.weight, hkind]
  refine h.next (by simpa [Converter.openings, hinside] using h.openings)
    (upToDate_of_all (hasArguments_noted h.upToDate)) ?_ fun _ hpending => ?_
  · rw [due_of_unary hplace, due, howed, owedAll_noted, Grammar.total_cons,
      Grammar.total_nil]
    omega
  · obtain ⟨before, level, rfl, hbefore, hlevel, -⟩ := hpending.awaits hplace
    exact .call hkind hspec hbefore.noted hlevel

/-- A sign waits and weighs nothing. -/
theorem Account.minus (htable : g.operators = .grouping grouping)
    (h : Account g read out ⟨stack, parens, previous⟩)
    (hplace : isUnaryPlace previous = true)
    (hminus : token.meant? = some .subtract) :
    Account g (read ++ [token]) (out ++ [])
      ⟨token.negating :: stack, noted parens, some token⟩ := by
  have hkind := kind_of_meant? hminus
  have hinside : isInside token.negating = true := by simp [isInside, negating]
  have hplace' : isUnaryPlace (some token) = true := by
    simp [isUnaryPlace, opensOperand, hkind]
  refine h.next (by simpa [Converter.openings, hinside] using h.openings)
    (upToDate_of_all (hasArguments_noted h.upToDate)) ?_ fun _ hpending => ?_
  · rw [due_of_unary hplace, due_of_unary hplace', owedAll_noted,
      Grammar.total_cons, Grammar.total_nil, weight_negating htable]
    omega
  · exact hpending.noted.minus hplace hminus
      (by rw [htable]; exact contains_grouping _)
      (by rw [htable]; exact contains_grouping _)

/-- An operator where an operand is to follow makes up for nothing. -/
theorem Account.binary {op : Operator} {more kept : List Token}
    (htable : g.operators = .grouping grouping)
    (h : Account g read out ⟨stack, parens, previous⟩)
    (hsettled : Settled previous)
    (hop : token.meant? = some op) (hbinary : op ≠ .negate)
    (hsplit : more ++ kept = stack)
    (hinside : ∀ waiting ∈ more, isInside waiting = true) :
    Account g (read ++ [token]) (out ++ more)
      ⟨token.carrying op :: kept, noted parens, some token⟩ := by
  subst hsplit
  have hkind := kind_of_meant? hop
  have hcarry : isInside (token.carrying op) = true := by
    simp [isInside, kind_carrying, hkind]
  have hweight := weight_carrying htable hop hbinary
  obtain ⟨hle, hended⟩ := owedLast_of_settled g hsettled
  have hplace' : isUnaryPlace (some token) = true := by
    simp [isUnaryPlace, opensOperand, hkind]
  refine h.next ?_ (upToDate_of_all (hasArguments_noted h.upToDate)) ?_
    fun heq hpending => ?_
  · have hopenings : Converter.openings (more ++ kept) = parens.length :=
      h.openings
    rw [openings_append, openings_eq_zero_iff.mpr hinside] at hopenings
    rw [openings_cons_inside hcarry, length_noted]
    omega
  · rw [due_of_unary hplace', owedAll_noted, Grammar.total_cons,
      Grammar.total_append, hweight, due]
    omega
  · rw [due_of_unary hplace', owedAll_noted, Grammar.total_cons,
      Grammar.total_append, hweight, due] at heq
    obtain ⟨last, rfl, hlast⟩ := hended (by omega)
    exact hpending.noted.binary hlast hop hbinary
      (by rw [htable]; exact contains_grouping _)

/-- Sending out what waits above an open parenthesis changes no weight
and opens or closes nothing. -/
theorem total_unwound (g : Grammar) (stack : List Token) :
    g.total (stack.takeWhile isInside) + g.total (stack.dropWhile isInside)
      = g.total stack := by
  rw [← Grammar.total_append, List.takeWhile_append_dropWhile]

/-- A comma settles one argument of the innermost call. -/
theorem Account.comma {paren : OpenParen} {function : Token}
    (h : Account g read out ⟨stack, paren :: parens, previous⟩)
    (hfunction : paren.function = some function)
    (hsettled : Settled previous)
    (hcomma : token.kind = .comma) :
    Account g (read ++ [token]) (out ++ stack.takeWhile isInside)
      ⟨stack.dropWhile isInside,
        { paren with commas := paren.commas + 1, hasArguments := true }
          :: parens,
        some token⟩ := by
  obtain ⟨opening, function', commas, hasArguments⟩ := paren
  obtain rfl : function' = some function := hfunction
  have htotal := total_unwound g stack
  obtain ⟨hle, hended⟩ := owedLast_of_settled g hsettled
  have hplace' : isUnaryPlace (some token) = true := by
    simp [isUnaryPlace, opensOperand, hcomma]
  have howed : owed g ⟨opening, some function, commas + 1, true⟩
      = owed g ⟨opening, some function, commas, hasArguments⟩ + 1 := by
    simp only [owed]
    omega
  refine h.next ?_ ?_ ?_ fun heq hpending => ?_
  · rw [openings_unwound]
    simpa using h.openings
  · exact ⟨Or.inl rfl, h.upToDate.2⟩
  · rw [due_of_unary hplace', owedAll_cons, howed, due, owedAll_cons]
    omega
  · rw [due_of_unary hplace', owedAll_cons, howed, due, owedAll_cons] at heq
    obtain ⟨last, rfl, hlast⟩ := hended (by omega)
    exact hpending.comma hlast hcomma

theorem Account.group (h : Account g read out ⟨stack, parens, previous⟩)
    (hplace : isUnaryPlace previous = true)
    (hopening : token.kind = .leftParen) :
    Account g (read ++ [token]) (out ++ [])
      ⟨token :: stack, ⟨token, none, 0, false⟩ :: noted parens,
        some token⟩ := by
  have hinside : isInside token = false := by simp [isInside, hopening]
  have hweight : g.weight token = 0 := by simp [Grammar.weight, hopening]
  have hplace' : isUnaryPlace (some token) = true := by
    simp [isUnaryPlace, opensOperand, hopening]
  refine h.next ?_ ?_ ?_ fun _ hpending => hpending.noted.group hplace hopening
  · simpa [Converter.openings, hinside] using h.openings
  · exact ⟨Or.inr ⟨rfl, token, rfl, hopening⟩, hasArguments_noted h.upToDate⟩
  · rw [due_of_unary hplace, due_of_unary hplace', owedAll_cons, owedAll_noted,
      Grammar.total_cons, Grammar.total_nil, hweight]
    simp only [owed]
    omega

/-- What a function owes passes to the record of its parenthesis. -/
theorem Account.call {function : Token}
    (h : Account g read out ⟨stack, parens, some function⟩)
    (hfunction : function.kind = .function)
    (hopening : token.kind = .leftParen) :
    Account g (read ++ [token]) (out ++ [])
      ⟨token :: stack, ⟨token, some function, 0, false⟩ :: noted parens,
        some token⟩ := by
  have hinside : isInside token = false := by simp [isInside, hopening]
  have hweight : g.weight token = 0 := by simp [Grammar.weight, hopening]
  have hplace' : isUnaryPlace (some token) = true := by
    simp [isUnaryPlace, opensOperand, hopening]
  have howed :
      owedLast g (some function) = 1 - arityOf g.functions function.text := by
    simp only [owedLast, hfunction]
  refine h.next ?_ ?_ ?_
    fun _ hpending => hpending.noted.arguments hfunction hopening
  · simpa [Converter.openings, hinside] using h.openings
  · exact ⟨Or.inr ⟨rfl, token, rfl, hopening⟩, hasArguments_noted h.upToDate⟩
  · rw [due, howed, due_of_unary hplace', owedAll_cons, owedAll_noted,
      Grammar.total_cons, Grammar.total_nil, hweight]
    simp only [owed]
    omega

/-- A record that passes the check of its arguments owes no more than
what the closed parentheses are worth, and as much only if they are those
of a group or of a call with all its arguments. -/
theorem closes_of_check (read : List Token) {paren : OpenParen}
    (hcheck : checkArguments g paren = .ok ())
    (hupToDate : UpToDate (paren :: parens) previous)
    (hsettled : Settled previous)
    (hclosing : token.kind = .rightParen) :
    owed g paren + owedLast g previous ≤ 1
      ∧ (owed g paren + owedLast g previous = 1 →
          Pending g (paren :: parens) previous read →
            Pending g parens (some token) (read ++ [token])) := by
  obtain ⟨opening, function, commas, hasArguments⟩ := paren
  obtain ⟨hle, hended⟩ := owedLast_of_settled g hsettled
  cases function with
  | none =>
      -- a group, which an operand must have ended
      have hpaid : owed g ⟨opening, none, commas, hasArguments⟩ = 0 := rfl
      rw [hpaid, Int.zero_add]
      refine ⟨hle, fun heq h => ?_⟩
      obtain ⟨last, rfl, hlast⟩ := hended heq
      exact h.close hlast hclosing
  | some function =>
      cases hasArguments with
      | true =>
          -- the commas are one less than the arguments, which pays the
          -- function
          obtain ⟨spec, hspec, hcount⟩ : ∃ spec,
              g.functions.find? function.text = some spec
                ∧ spec.arity = commas + 1 := by
            simp only [checkArguments, Registry.lookup, if_true] at hcheck
            cases hspec : g.functions.find? function.text with
            | none =>
                rw [hspec] at hcheck
                cases hcheck
            | some spec =>
                simp only [hspec] at hcheck
                split at hcheck
                · cases hcheck
                · exact ⟨spec, rfl, by omega⟩
          have hpaid : owed g ⟨opening, some function, commas, true⟩ = 0 := by
            simp only [owed, arityOf, hspec, hcount]
            omega
          rw [hpaid, Int.zero_add]
          refine ⟨hle, fun heq h => ?_⟩
          obtain ⟨last, rfl, hlast⟩ := hended heq
          exact h.closeCall hlast hclosing hspec hcount
      | false =>
          -- nothing was checked: what is owed is exact for no arguments only
          obtain ⟨rfl, top, rfl, htop⟩ : commas = 0 ∧ ∃ top,
              previous = some top ∧ top.kind = .leftParen := by
            simpa [UpToDate] using hupToDate.1
          have howed : owed g ⟨opening, some function, 0, false⟩
              = 1 - arityOf g.functions function.text := by
            simp only [owed]
            omega
          have hplace' : isUnaryPlace (some top) = true := by
            simp [isUnaryPlace, opensOperand, htop]
          rw [howed, owedLast_of_unary hplace']
          refine ⟨by omega, fun heq h => ?_⟩
          have harity : arityOf g.functions function.text = 0 := by omega
          unfold arityOf at harity
          split at harity
          · next spec hspec => exact h.closeEmpty htop hclosing hspec harity
          · cases harity

/-- A closing bracket settles the call that it belongs to, which has as many
arguments as the registry wants. -/
theorem Account.closing {paren : OpenParen} {top : Token} {below : List Token}
    (h : Account g read out ⟨stack, paren :: parens, previous⟩)
    (hstack : stack.dropWhile isInside = top :: below)
    (hcheck : checkArguments g paren = .ok ())
    (hsettled : Settled previous)
    (hclosing : token.kind = .rightParen) :
    Account g (read ++ [token])
      (out ++ (stack.takeWhile isInside ++ (splitCalled below).1))
      ⟨(splitCalled below).2, parens, some token⟩ := by
  have hupToDate : UpToDate (paren :: parens) previous := h.upToDate
  obtain ⟨hle, hpending⟩ :=
    closes_of_check read hcheck hupToDate hsettled hclosing
  have hends : token.kind.endsOperand = true := by
    simp [hclosing, TokenKind.endsOperand]
  have htop := kind_of_dropWhile hstack
  have hweight : g.weight top = 0 := by
    simp [Grammar.weight, htop]
  have htotal := total_unwound g stack
  have hopenings := openings_unwound stack
  rw [hstack, openings_cons_open htop] at hopenings
  rw [hstack] at htotal
  have hcalled : g.total (splitCalled below).1 + g.total (splitCalled below).2
      = g.total below := by
    rw [← Grammar.total_append, splitCalled_append]
  rw [Grammar.total_cons, hweight] at htotal
  refine h.next ?_ (upToDate_of_all hupToDate.2) ?_ fun heq => hpending ?_
  · have hlength : Converter.openings stack = (paren :: parens).length :=
      h.openings
    rw [List.length_cons] at hlength
    rw [openings_splitCalled]
    omega
  · rw [Grammar.total_append, due, owedAll_cons, due_of_ended hends]
    omega
  · rw [Grammar.total_append, due, owedAll_cons, due_of_ended hends] at heq
    omega

-- ====================================================== keeping it, at once

/-- What the two properties of token lists see of a converter: whether an
operand has just ended, whether a function has just been read, and which
open parentheses belong to calls. -/
def ended (previous : Option Token) : Bool := previous.any (·.kind.endsOperand)

/-- The last token was a function. -/
def called (previous : Option Token) : Bool :=
  previous.any fun token => token.kind = .function

/-- Which of the open brackets belong to calls. -/
def calls (parens : List OpenParen) : List Bool :=
  parens.map (·.function.isSome)

private theorem calls_cons (paren : OpenParen) (outer : List OpenParen) :
    calls (paren :: outer) = paren.function.isSome :: calls outer := rfl

@[simp] theorem calls_noted : calls (noted parens) = calls parens := by
  cases parens <;> rfl

/-- A token that begins an operand stands where one may begin. -/
theorem unary_of_apart {rest : List Token}
    (hidle : (⟨stack, parens, previous⟩ : Converter).abandoned?
      (some token.kind) = none)
    (hnext : token.kind ≠ .leftParen)
    (hstarts : token.kind.startsOperand = true)
    (hapart : operandsApart (ended previous) (token :: rest) = true) :
    isUnaryPlace previous = true := by
  rcases settled_of_idle hidle hnext with hplace | ⟨last, rfl, hlast⟩
  · exact hplace
  · simp [operandsApart, ended, hlast, hstarts] at hapart

/-- An operator token is accounted for, unary or binary. -/
theorem Account.operator {more : List Token} {c' : Converter}
    (htable : g.operators = .grouping grouping)
    (h : Account g read out ⟨stack, parens, previous⟩)
    (hsettled : Settled previous)
    (hkind : token.kind = .operator) (hnegate : token.meant? ≠ some .negate)
    (hoperator : Converter.operator g ⟨stack, noted parens, previous⟩ token
      = .ok (more, c')) :
    Account g (read ++ [token]) (out ++ more)
      { c' with previous := some token }
      ∧ c'.parens = noted parens := by
  unfold Converter.operator at hoperator
  cases hor : token.operator.or (Operator.ofText? token.text) with
  | none =>
      rw [hor] at hoperator
      cases hoperator
  | some op =>
      have hop : token.meant? = some op := by simpa [meant?, hkind] using hor
      have hbinary : op ≠ .negate := fun heq => hnegate (heq ▸ hop)
      simp only [hor] at hoperator
      split at hoperator
      · cases hoperator
      · split at hoperator
        · next hunary =>
            cases hoperator
            exact ⟨h.minus htable hunary.2 (hunary.1 ▸ hop), rfl⟩
        · split at hoperator
          · cases hoperator
          · next more' kept hsplit =>
              cases hoperator
              exact ⟨h.binary htable hsettled hop hbinary
                (splitYielding_append hsplit)
                  (isInside_of_splitYielding hsplit), rfl⟩

/-- The account is kept by every step on a token that stands neither next
to an operand, if it begins one, nor outside a call, if it is a comma. -/
theorem Account.step {more rest : List Token} {c c' : Converter}
    (htable : g.operators = .grouping grouping) (h : Account g read out c)
    (hnegate : token.meant? ≠ some .negate)
    (hapart : operandsApart (ended c.previous) (token :: rest) = true)
    (hcommas : commasInCalls (calls c.parens) (called c.previous)
      (token :: rest) = true)
    (hstep : Converter.step g c token = .ok (more, c')) :
    Account g (read ++ [token]) (out ++ more) c'
      ∧ operandsApart (ended c'.previous) rest = true
      ∧ commasInCalls (calls c'.parens) (called c'.previous) rest = true := by
  obtain ⟨stack, parens, previous⟩ := c
  obtain ⟨hidle, c'', hhandle, rfl⟩ := handle_of_step hstep
  have hrest : operandsApart (ended (some token)) rest = true := by
    simp only [operandsApart, Bool.and_eq_true] at hapart
    exact hapart.2
  cases hkind : token.kind with
  | number | identifier =>
      -- no operand stands before it, so one may begin here
      have hplace := unary_of_apart hidle (by simp [hkind])
        (by simp [hkind, TokenKind.startsOperand]) hapart
      rw [noteArgument_eq (by simp [hkind])] at hhandle
      simp only [handle, hkind] at hhandle
      cases hhandle
      refine ⟨h.operand hplace (by simp [hkind]), hrest, ?_⟩
      simpa [commasInCalls, hkind, called] using hcommas
  | function =>
      have hplace := unary_of_apart hidle (by simp [hkind])
        (by simp [hkind, TokenKind.startsOperand]) hapart
      rw [noteArgument_eq (by simp [hkind])] at hhandle
      simp only [handle, hkind, Converter.function] at hhandle
      split at hhandle
      · next hknown =>
          cases hhandle
          obtain ⟨spec, hspec⟩ := NameMap.contains_eq_true_iff.mp hknown
          refine ⟨h.function hplace hkind hspec, hrest, ?_⟩
          simpa [commasInCalls, hkind, called] using hcommas
      · cases hhandle
  | operator =>
      have hsettled := settled_of_idle hidle (by simp [hkind])
      rw [noteArgument_eq (by simp [hkind])] at hhandle
      simp only [handle, hkind] at hhandle
      obtain ⟨haccount, hparens⟩ :=
        h.operator htable hsettled hkind hnegate hhandle
      refine ⟨haccount, hrest, ?_⟩
      rw [hparens]
      simpa [commasInCalls, hkind, called] using hcommas
  | comma =>
      have hsettled := settled_of_idle hidle (by simp [hkind])
      rw [noteArgument_eq (by simp [hkind])] at hhandle
      simp only [handle, hkind] at hhandle
      cases hhandle
      -- a comma outside all calls is ruled out, so there is a record to count
      -- it
      simp only [commasInCalls, hkind, Bool.and_eq_true, beq_iff_eq] at hcommas
      cases parens with
      | nil => simp [calls] at hcommas
      | cons paren outer =>
          obtain ⟨function, hfunction⟩ :
              ∃ function, paren.function = some function := by
            simpa [calls_cons, Option.isSome_iff_exists] using hcommas.1
          refine ⟨h.comma hfunction hsettled hkind, hrest, ?_⟩
          simpa [calls_cons, called, hkind, noted] using hcommas.2
  | leftParen =>
      rw [noteArgument_eq (by simp [hkind])] at hhandle
      simp only [handle, hkind, openParen] at hhandle
      cases hhandle
      -- a bracket stands where an operand may begin or behind a function:
      -- behind an operand it would begin a second one
      have hplace : isUnaryPlace previous = true
          ∨ ∃ function, previous = some function
            ∧ function.kind = .function := by
        cases previous with
        | none => exact Or.inl rfl
        | some last =>
            cases hlast : last.kind <;>
              simp_all [operandsApart, ended, TokenKind.startsOperand,
                TokenKind.endsOperand, isUnaryPlace, opensOperand]
      rcases hplace with hplace | ⟨function, rfl, hfunction⟩
      · rw [filter_of_unary hplace]
        refine ⟨h.group hplace hkind, hrest, ?_⟩
        have hcalled : called previous = false := by
          cases previous with
          | none => rfl
          | some last =>
              have hlast : last.kind ≠ .function := by
                simpa [Option.filter] using filter_of_unary hplace
              simp [called, hlast]
        rw [commasInCalls, hkind, hcalled] at hcommas
        simpa [calls_cons, called, hkind] using hcommas
      · have hfilter : (some function).filter (·.kind == .function)
            = some function := by
          simp [Option.filter, hfunction]
        rw [hfilter]
        refine ⟨h.call hfunction hkind, hrest, ?_⟩
        rw [commasInCalls, hkind] at hcommas
        simpa [calls_cons, called, hkind, hfunction] using hcommas
  | rightParen =>
      have hsettled := settled_of_idle hidle (by simp [hkind])
      rw [noteArgument_close hkind] at hhandle
      simp only [handle, hkind, closeParen] at hhandle
      split at hhandle
      · cases hhandle
      · next top below hstack =>
          cases parens with
          | nil => cases hhandle
          | cons paren outer =>
              dsimp only at hhandle
              split at hhandle
              · cases hhandle
              · next hcheck =>
                  cases hhandle
                  refine ⟨h.closing hstack hcheck hsettled hkind, hrest, ?_⟩
                  simpa [calls_cons, commasInCalls, hkind, called]
                    using hcommas

-- ================================================================= whole runs

/-- Nothing is read, written or owed. -/
theorem Account.start : Account g [] [] {} :=
  ⟨rfl, trivial, Int.le_refl _, fun _ => Pending.start⟩

/-- The account is kept by every run. -/
theorem Account.feed {tokens more : List Token} {c c' : Converter}
    (htable : g.operators = .grouping grouping) (h : Account g read out c)
    (hnegate : ∀ token ∈ tokens, token.meant? ≠ some .negate)
    (hapart : operandsApart (ended c.previous) tokens = true)
    (hcommas : commasInCalls (calls c.parens) (called c.previous) tokens
      = true)
    (hfeed : Converter.feed g c tokens = .ok (more, c')) :
    Account g (read ++ tokens) (out ++ more) c' := by
  induction tokens generalizing read out more c with
  | nil =>
      cases hfeed
      simpa using h
  | cons token rest ih =>
      rw [Converter.feed] at hfeed
      split at hfeed
      · cases hfeed
      · next first middle hstep =>
          obtain ⟨hmiddle, hapart', hcommas'⟩ :=
            h.step htable (hnegate token (by simp)) hapart hcommas hstep
          split at hfeed
          · cases hfeed
          · next others last hrest =>
              cases hfeed
              have hlast := ih hmiddle (fun t ht => hnegate t (by simp [ht]))
                hapart'
                hcommas' hrest
              simpa using hlast

/-- A run comes to an end only where nothing is open. -/
theorem stack_of_finish {c : Converter} {more : List Token}
    (h : c.finish g = .ok more) :
    more = c.stack ∧ c.abandoned? none = none ∧ openings c.stack = 0 := by
  unfold finish at h
  split at h
  · cases h
  · next hidle =>
      split at h
      · cases h
      · next hnone =>
          cases h
          refine ⟨rfl, hidle, openings_eq_zero_iff.mpr ?_⟩
          simpa [isInside, List.find?_eq_none] using hnone

/-- What weighs one in the end is a whole expression. -/
theorem Account.finish {c : Converter} {more : List Token}
    (h : Account g read out c)
    (hfinish : c.finish g = .ok more) (htotal : g.total (out ++ more) = 1) :
    Infix g.operators g.functions .level read := by
  obtain ⟨stack, parens, previous⟩ := c
  obtain ⟨rfl, hidle, hopenings⟩ := stack_of_finish hfinish
  obtain rfl : parens = [] := by
    rw [h.openings] at hopenings
    simpa using hopenings
  have hle := h.total_le
  rw [htotal] at hle
  -- only an operand that has ended is worth one by itself
  cases previous with
  | none =>
      rw [due_of_unary rfl] at hle
      cases hle
  | some last =>
      cases hlast : last.kind with
      | number | identifier | rightParen =>
          have hends : last.kind.endsOperand = true := by
            simp [hlast, TokenKind.endsOperand]
          refine Pending.level (h.pending ?_) hends
          rw [htotal, due_of_ended hends]
          rfl
      | function => simp [abandoned?, hlast] at hidle
      | operator | leftParen | comma =>
          have hplace : isUnaryPlace (some last) = true := by
            simp [isUnaryPlace, opensOperand, hlast]
          rw [due_of_unary hplace] at hle
          cases hle

end Converter

/-- Tokens whose postfix form weighs one are an expression, if operands
stand apart and commas in calls. -/
theorem level_of_total {g : Grammar} {grouping : Associativity}
    {tokens output : List Token}
    (htable : g.orStandard.operators = .grouping grouping)
    (hnegate : ∀ token ∈ tokens, token.meant? ≠ some .negate)
    (hapart : operandsApart false tokens = true)
    (hcommas : commasInCalls [] false tokens = true)
    (h : toPostfix g tokens = .ok output)
    (htotal : g.orStandard.total output = 1) :
    Infix g.orStandard.operators g.orStandard.functions .level tokens := by
  rw [toPostfix_eq_convert, Converter.convert] at h
  split at h
  · cases h
  · next out c hfeed =>
      have haccount :=
        Converter.Account.start.feed htable hnegate hapart hcommas hfeed
      cases hfinish : c.finish g.orStandard with
      | error failure =>
          rw [hfinish] at h
          cases h
      | ok more =>
          rw [hfinish] at h
          cases h
          simpa using haccount.finish hfinish (by simpa using htotal)

end Reckoner

/-
Prefixes of infix expressions.

The grammar describes whole phrases. A reader that goes from left to
right needs the phrases that are not yet over: a level in which an
operand is to follow (`Awaits`), arguments of which more are to follow
(`Precede`), and around them, from the inside out, all that is still
open (`Opened`). Each is told by what it may be completed to, so nothing
here depends on how much is still to come.

Main facts: a prefix of which one may go on to read an operator is at the
end of an operand (`Pending.operator`), and at the outermost level it is
an expression (`Pending.level`).
-/
import Reckoner.Proofs.Infix.Phrase

namespace Reckoner

-- ============================================================ going on

namespace Infix

variable {table : OperatorTable} {registry : Registry}
variable {tokens others : List Token} {token : Token} {op : Operator}

/-- A tail may go on at its end. -/
theorem tail_next (hothers : Infix table registry .tail others)
    (hop : token.meant? = some op) (hbinary : op ≠ .negate)
    (hcontains : table.contains op = true)
    (h : Infix table registry .operand tokens) :
    Infix table registry .tail (others ++ token :: tokens) := by
  generalize hphrase : Phrase.tail = phrase at hothers
  induction hothers with
  | stop => simpa using Infix.next hop hbinary hcontains h .stop
  | next hop' hbinary' hcontains' h' _ _ ih =>
      rw [List.append_assoc]
      exact .next hop' hbinary' hcontains' h' (ih rfl)
  | _ => cases hphrase

/-- And so may a level. -/
theorem level_next (hothers : Infix table registry .level others)
    (hop : token.meant? = some op) (hbinary : op ≠ .negate)
    (hcontains : table.contains op = true)
    (h : Infix table registry .operand tokens) :
    Infix table registry .level (others ++ token :: tokens) := by
  cases hothers with
  | level hfirst htail =>
      rw [List.append_assoc]
      exact .level hfirst (tail_next htail hop hbinary hcontains h)

-- ======================================================== parts of phrases

/-- The tokens of a level so far, where an operand is to follow. -/
def Awaits (table : OperatorTable) (registry : Registry)
    (tokens : List Token) :
    Prop :=
  ∀ operand, Infix table registry .operand operand →
    Infix table registry .level (tokens ++ operand)

/-- Arguments so far, each with its comma, where more are to follow. -/
def Precede (table : OperatorTable) (registry : Registry) (commas : Nat)
    (tokens : List Token) : Prop :=
  (commas = 0 → tokens = []) ∧ ∀ count others,
    Infix table registry (.arguments (count + 1)) others →
      Infix table registry (.arguments (commas + count + 1)) (tokens ++ others)

private theorem awaits_nil : Awaits table registry [] := by
  intro operand h
  simpa using Infix.level h .stop

/-- A sign keeps an operand awaited. -/
theorem Awaits.minus (h : Awaits table registry tokens)
    (hminus : token.meant? = some .subtract)
    (hsubtract : table.contains .subtract = true)
    (hnegate : table.contains .negate = true) :
    Awaits table registry (tokens ++ [token]) := by
  intro operand hoperand
  rw [List.append_assoc]
  exact h _ (.minus hminus hsubtract hnegate hoperand)

/-- So does an operator after a whole level. -/
theorem Awaits.operator (h : Infix table registry .level tokens)
    (hop : token.meant? = some op) (hbinary : op ≠ .negate)
    (hcontains : table.contains op = true) :
    Awaits table registry (tokens ++ [token]) := by
  intro operand hoperand
  rw [List.append_assoc]
  exact level_next h hop hbinary hcontains hoperand

private theorem precede_nil : Precede table registry 0 [] := by
  refine ⟨fun _ => rfl, fun count others h => ?_⟩
  rwa [Nat.zero_add]

/-- One more argument and its comma. -/
theorem Precede.comma {commas : Nat} {level : List Token}
    (h : Precede table registry commas tokens)
    (hlevel : Infix table registry .level level)
    (hcomma : token.kind = .comma) :
    Precede table registry (commas + 1) (tokens ++ level ++ [token]) := by
  refine ⟨fun hzero => absurd hzero (Nat.succ_ne_zero _),
    fun count others hothers => ?_⟩
  have hmore := h.2 (count + 1) _ (.moreArguments hlevel hcomma hothers)
  simpa [Nat.add_assoc, Nat.add_comm, Nat.add_left_comm] using hmore

/-- The last argument has no comma behind it. -/
theorem Precede.last {commas : Nat} {level : List Token}
    (h : Precede table registry commas tokens)
    (hlevel : Infix table registry .level level) :
    Infix table registry (.arguments (commas + 1)) (tokens ++ level) :=
  h.2 0 level (.argument hlevel)

end Infix

open Infix

-- ============================================================= the prefixes

namespace Converter

variable {g : Grammar}

/-- The tokens before the innermost level of a prefix, with the records
of the parentheses that are open there. -/
inductive Opened (g : Grammar) : List OpenParen → List Token → Prop where
  | none : Opened g [] []
  | group {parens before level opening commas noted}
      (h : Opened g parens before)
      (hlevel : Awaits g.operators g.functions level)
      (hopening : opening.kind = .leftParen) :
      Opened g (⟨opening, none, commas, noted⟩ :: parens)
        (before ++ level ++ [opening])
  | call {parens before level function spec opening commas noted args}
      (h : Opened g parens before)
        (hlevel : Awaits g.operators g.functions level)
      (hfunction : function.kind = .function)
      (hspec : g.functions.find? function.text = some spec)
      (hopening : opening.kind = .leftParen)
      (hargs : Precede g.operators g.functions commas args) :
      Opened g (⟨opening, some function, commas, noted⟩ :: parens)
        (before ++ level ++ function :: opening :: args)

/-- The prefixes of expressions, by what may come next: an operand, the
parenthesis of a call, or an operator or the end of the level. -/
inductive Pending (g : Grammar) (parens : List OpenParen) :
    Option Token → List Token → Prop where
  | operand {previous before level} (hplace : isUnaryPlace previous = true)
      (h : Opened g parens before)
        (hlevel : Awaits g.operators g.functions level)
      (hopened : ∀ token ∈ previous, token.kind = .leftParen → level = []) :
      Pending g parens previous (before ++ level)
  | call {function spec before level} (hfunction : function.kind = .function)
      (hspec : g.functions.find? function.text = some spec)
      (h : Opened g parens before)
        (hlevel : Awaits g.operators g.functions level) :
      Pending g parens (some function) (before ++ level ++ [function])
  | operator {last before level} (hlast : last.kind.endsOperand = true)
      (h : Opened g parens before)
      (hlevel : Infix g.operators g.functions .level level) :
      Pending g parens (some last) (before ++ level)

-- ================================================== what the last token tells

/-- Where an operand may begin the level awaits one. -/
theorem Pending.awaits {parens : List OpenParen} {previous : Option Token}
    {read : List Token} (h : Pending g parens previous read)
    (hplace : isUnaryPlace previous = true) :
    ∃ before level, read = before ++ level ∧ Opened g parens before
      ∧ Awaits g.operators g.functions level
      ∧ ∀ token ∈ previous, token.kind = .leftParen → level = [] := by
  cases h with
  | operand _ hbefore hlevel hopened =>
      exact ⟨_, _, rfl, hbefore, hlevel, hopened⟩
  | call hfunction _ _ _ =>
      simp [isUnaryPlace, opensOperand, hfunction] at hplace
  | operator hlast _ _ =>
      rw [isUnaryPlace_of_ended hlast] at hplace; cases hplace

/-- Where an operand has ended the level may end. -/
theorem Pending.ended {parens : List OpenParen} {last : Token}
    {read : List Token} (h : Pending g parens (some last) read)
    (hlast : last.kind.endsOperand = true) :
    ∃ before level, read = before ++ level ∧ Opened g parens before
      ∧ Infix g.operators g.functions .level level := by
  cases h with
  | operand hplace _ _ _ =>
      rw [isUnaryPlace_of_ended hlast] at hplace; cases hplace
  | call hfunction _ _ _ => exact absurd hfunction (ne_function_of_ended hlast)
  | operator _ hbefore hlevel => exact ⟨_, _, rfl, hbefore, hlevel⟩

/-- After a function its parenthesis is to follow. -/
theorem Pending.called {parens : List OpenParen} {function : Token}
    {read : List Token} (h : Pending g parens (some function) read)
    (hfunction : function.kind = .function) :
    ∃ before level spec, read = before ++ level ++ [function]
      ∧ g.functions.find? function.text = some spec ∧ Opened g parens before
      ∧ Awaits g.operators g.functions level := by
  cases h with
  | operand hplace _ _ _ =>
      simp [isUnaryPlace, opensOperand, hfunction] at hplace
  | call _ hspec hbefore hlevel => exact ⟨_, _, _, rfl, hspec, hbefore, hlevel⟩
  | operator hlast _ _ => exact absurd hfunction (ne_function_of_ended hlast)

-- ========================================================== reading further

variable {parens : List OpenParen} {previous : Option Token}
  {read : List Token}

theorem Pending.start : Pending g [] none [] :=
  Pending.operand rfl Opened.none awaits_nil (by simp)

/-- What a record has taken note of is no matter of the grammar. -/
theorem Opened.noted {before : List Token} (h : Opened g parens before) :
    Opened g (noted parens) before := by
  cases h with
  | none => exact .none
  | group h hlevel hopening => exact .group h hlevel hopening
  | call h hlevel hfunction hspec hopening hargs =>
      exact .call h hlevel hfunction hspec hopening hargs

theorem Pending.noted (h : Pending g parens previous read) :
    Pending g (noted parens) previous read := by
  cases h with
  | operand hplace h hlevel hopened =>
      exact .operand hplace h.noted hlevel hopened
  | call hfunction hspec h hlevel => exact .call hfunction hspec h.noted hlevel
  | operator hlast h hlevel => exact .operator hlast h.noted hlevel

/-- An operand that is complete is the end of what can be read so far. -/
theorem Pending.atom {before level tokens : List Token} {last : Token}
    (hlast : last.kind.endsOperand = true) (hbefore : Opened g parens before)
    (hlevel : Awaits g.operators g.functions level)
    (h : Infix g.operators g.functions .atom tokens) :
    Pending g parens (some last) (before ++ level ++ tokens) := by
  rw [List.append_assoc]
  exact .operator hlast hbefore (hlevel tokens (.bare h))

/-- A minus where an operand may begin is a sign. -/
theorem Pending.minus {token : Token} (h : Pending g parens previous read)
    (hplace : isUnaryPlace previous = true)
    (hminus : token.meant? = some .subtract)
    (hsubtract : g.operators.contains .subtract = true)
    (hnegate : g.operators.contains .negate = true) :
    Pending g parens (some token) (read ++ [token]) := by
  obtain ⟨before, level, rfl, hbefore, hlevel, -⟩ := h.awaits hplace
  have hkind := Token.kind_of_meant? hminus
  rw [List.append_assoc]
  refine .operand (by simp [isUnaryPlace, opensOperand, hkind]) hbefore
    (hlevel.minus hminus hsubtract hnegate) ?_
  simp [hkind]

/-- An operator after an operand joins what was read to what is to come. -/
theorem Pending.binary {last token : Token} {op : Operator}
    (h : Pending g parens (some last) read)
    (hlast : last.kind.endsOperand = true) (hop : token.meant? = some op)
    (hbinary : op ≠ .negate)
    (hcontains : g.operators.contains op = true) :
    Pending g parens (some token) (read ++ [token]) := by
  obtain ⟨before, level, rfl, hbefore, hlevel⟩ := h.ended hlast
  have hkind := Token.kind_of_meant? hop
  rw [List.append_assoc]
  refine .operand (by simp [isUnaryPlace, opensOperand, hkind]) hbefore
    (Awaits.operator hlevel hop hbinary hcontains) ?_
  simp [hkind]

/-- A comma ends an argument of a call. -/
theorem Pending.comma {last token opening function : Token} {commas : Nat}
    {noted noted' : Bool}
    (h : Pending g (⟨opening, some function, commas, noted⟩ :: parens)
      (some last) read)
    (hlast : last.kind.endsOperand = true) (hcomma : token.kind = .comma) :
    Pending g (⟨opening, some function, commas + 1, noted'⟩ :: parens)
      (some token)
      (read ++ [token]) := by
  obtain ⟨_, level, rfl, hbefore, hlevel⟩ := h.ended hlast
  cases hbefore with
  | @call _ before outside _ _ _ _ _ args hbefore houtside hfunction hspec
        hopening hargs =>
      have hopened :
          Opened g (⟨opening, some function, commas + 1, noted'⟩
            :: parens) _ :=
        .call hbefore houtside hfunction hspec hopening
          (hargs.comma hlevel hcomma)
      have hnext : Pending g _ (some token) (_ ++ []) :=
        .operand (by simp [isUnaryPlace, opensOperand, hcomma]) hopened
          awaits_nil
          (by simp)
      simpa using hnext

/-- A bracket opens a level of its own. -/
theorem Pending.group {opening : Token} (h : Pending g parens previous read)
    (hplace : isUnaryPlace previous = true)
    (hopening : opening.kind = .leftParen) :
    Pending g (⟨opening, none, 0, false⟩ :: parens) (some opening)
      (read ++ [opening]) := by
  obtain ⟨before, level, rfl, hbefore, hlevel, -⟩ := h.awaits hplace
  have hopened : Opened g (⟨opening, none, 0, false⟩ :: parens) _ :=
    .group hbefore hlevel hopening
  have hnext : Pending g _ (some opening) (_ ++ []) :=
    .operand (by simp [isUnaryPlace, opensOperand, hopening]) hopened
      awaits_nil (by simp)
  simpa using hnext

/-- A bracket after a function opens its arguments. -/
theorem Pending.arguments {function opening : Token}
    (h : Pending g parens (some function) read)
    (hfunction : function.kind = .function)
    (hopening : opening.kind = .leftParen) :
    Pending g (⟨opening, some function, 0, false⟩ :: parens) (some opening)
      (read ++ [opening]) := by
  obtain ⟨before, level, spec, rfl, hspec, hbefore, hlevel⟩ :=
    h.called hfunction
  have hopened : Opened g (⟨opening, some function, 0, false⟩ :: parens) _ :=
    .call hbefore hlevel hfunction hspec hopening precede_nil
  have hnext : Pending g _ (some opening) (_ ++ []) :=
    .operand (by simp [isUnaryPlace, opensOperand, hopening]) hopened
      awaits_nil (by simp)
  simpa using hnext

/-- A parenthesis closes a group after a level. -/
theorem Pending.close {last opening closing : Token} {commas : Nat}
    {noted : Bool}
    (h : Pending g (⟨opening, none, commas, noted⟩ :: parens) (some last) read)
    (hlast : last.kind.endsOperand = true)
    (hclosing : closing.kind = .rightParen) :
    Pending g parens (some closing) (read ++ [closing]) := by
  obtain ⟨_, level, rfl, hbefore, hlevel⟩ := h.ended hlast
  cases hbefore with
  | group hbefore houtside hopening =>
      have hatom := Infix.group hopening hclosing hlevel
      have hnext : Pending g parens (some closing) _ :=
        .atom (by simp [hclosing, TokenKind.endsOperand]) hbefore
          houtside hatom
      simpa using hnext

/-- The last bracket of a call makes an atom of it. -/
theorem Pending.closeCall {last opening closing function : Token}
    {commas : Nat} {noted : Bool} {spec : FunctionSpec}
    (h : Pending g (⟨opening, some function, commas, noted⟩ :: parens)
      (some last) read)
    (hlast : last.kind.endsOperand = true)
    (hclosing : closing.kind = .rightParen)
    (hspec : g.functions.find? function.text = some spec)
    (hcount : spec.arity = commas + 1) :
    Pending g parens (some closing) (read ++ [closing]) := by
  obtain ⟨_, level, rfl, hbefore, hlevel⟩ := h.ended hlast
  cases hbefore with
  | call hbefore houtside hfunction _ hopening hargs =>
      have hatom := Infix.call hfunction hspec hopening hclosing
        (hcount ▸ hargs.last hlevel)
      have hnext : Pending g parens (some closing) _ :=
        .atom (by simp [hclosing, TokenKind.endsOperand]) hbefore
          houtside hatom
      simpa using hnext

/-- A call without arguments is closed at once. -/
theorem Pending.closeEmpty {opening closing function previous : Token}
    {noted : Bool} {spec : FunctionSpec}
    (h : Pending g (⟨opening, some function, 0, noted⟩ :: parens)
      (some previous) read)
    (hprevious : previous.kind = .leftParen)
    (hclosing : closing.kind = .rightParen)
    (hspec : g.functions.find? function.text = some spec)
    (hcount : spec.arity = 0) :
    Pending g parens (some closing) (read ++ [closing]) := by
  obtain ⟨_, level, rfl, hbefore, -, hopened⟩ :=
    h.awaits (by simp [isUnaryPlace, opensOperand, hprevious])
  obtain rfl := hopened previous rfl hprevious
  cases hbefore with
  | call hbefore houtside hfunction _ hopening hargs =>
      obtain rfl := hargs.1 rfl
      have hatom : Infix g.operators g.functions .atom
          (function :: opening :: [] ++ [closing]) :=
        .call hfunction hspec hopening hclosing (hcount ▸ .noArguments)
      have hnext : Pending g parens (some closing) _ :=
        .atom (by simp [hclosing, TokenKind.endsOperand]) hbefore
          houtside hatom
      simpa using hnext

/-- Where nothing is open an ended level is all there is. -/
theorem Pending.level {last : Token} (h : Pending g [] (some last) read)
    (hlast : last.kind.endsOperand = true) :
    Infix g.operators g.functions .level read := by
  obtain ⟨before, level, rfl, hbefore, hlevel⟩ := h.ended hlast
  cases hbefore
  exact hlevel

end Converter

end Reckoner

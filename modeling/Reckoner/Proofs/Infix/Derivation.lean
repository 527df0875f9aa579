/-
Standard infix notation, as a grammar whose derivations are trees.

    sum     = product | sum ('+' | '-') product
    product = signed | product ('*' | '/') signed
    atom    = NUMBER | IDENTIFIER | '(' sum ')' | FUNCTION '(' sums ')'

and, where '^' groups from the left,

    signed  = '-' signed | chain | chain '^' '-' signed
    chain   = atom | chain '^' atom

or, where it groups from the right,

    signed  = '-' signed | atom | atom '^' signed

The rungs are the precedences written out. So the converter, which knows
precedences only by comparing them, must put out the postorder of the
derived tree. The reason is the same on every rung: the operators that a
phrase may still have waiting at its end (`Rung.waits`) are all sent out
by what may follow the phrase (`Follows`), and the operators that a
phrase has at its own level (`Rung.has`) are all held back by what may
stand before it (`Fits`).

Main fact: the postfix form of an expression is the postorder of its
derivation tree (`Derives.toPostfix_eq`).
-/
import Reckoner.Proofs.Postfix.Emission

namespace Reckoner

-- ============================================================== the grammar

/-- The rungs of the grammar, the loosest first. -/
inductive Rung where
  | sum
  | product
  | signed
  | chain
  | atom

mutual

/-- The token lists that a rung derives, with their trees. -/
inductive Derives (grouping : Associativity) (registry : Registry) :
    Rung → List Token → Expression → Prop where
  | number {token} (hkind : token.kind = .number) :
      Derives grouping registry .atom [token] (.number token)
  | identifier {token} (hkind : token.kind = .identifier) :
      Derives grouping registry .atom [token] (.identifier token)
  | group {opening closing tokens e} (hopening : opening.kind = .leftParen)
      (hclosing : closing.kind = .rightParen)
      (h : Derives grouping registry .sum tokens e) :
      Derives grouping registry .atom (opening :: tokens ++ [closing]) e
  | call {function opening closing spec tokens args}
      (hfunction : function.kind = .function)
      (hspec : registry.find? function.text = some spec)
      (hopening : opening.kind = .leftParen)
        (hclosing : closing.kind = .rightParen)
      (h : DerivesArguments grouping registry spec.arity tokens args) :
      Derives grouping registry .atom
        (function :: opening :: tokens ++ [closing])
        (.call function args)
  | chainAtom {tokens e} (h : Derives grouping registry .atom tokens e) :
      Derives grouping registry .chain tokens e
  | chainPower {tokens token right l r} (hleft : grouping = .left)
      (hl : Derives grouping registry .chain tokens l)
      (hop : token.meant? = some .power)
      (hr : Derives grouping registry .atom right r) :
      Derives grouping registry .chain (tokens ++ token :: right)
        (.binary .power token l r)
  | signedMinus {minus tokens e} (hminus : minus.meant? = some .subtract)
      (h : Derives grouping registry .signed tokens e) :
      Derives grouping registry .signed (minus :: tokens) (.negation minus e)
  | signedChain {tokens e} (h : Derives grouping registry .chain tokens e) :
      Derives grouping registry .signed tokens e
  | signedPowerMinus {tokens token minus right l r} (hleft : grouping = .left)
      (hl : Derives grouping registry .chain tokens l)
      (hop : token.meant? = some .power)
        (hminus : minus.meant? = some .subtract)
      (hr : Derives grouping registry .signed right r) :
      Derives grouping registry .signed (tokens ++ token :: minus :: right)
        (.binary .power token l (.negation minus r))
  | signedPower {tokens token right l r} (hright : grouping = .right)
      (hl : Derives grouping registry .atom tokens l)
      (hop : token.meant? = some .power)
      (hr : Derives grouping registry .signed right r) :
      Derives grouping registry .signed (tokens ++ token :: right)
        (.binary .power token l r)
  | productSigned {tokens e} (h : Derives grouping registry .signed tokens e) :
      Derives grouping registry .product tokens e
  | product {tokens token op right l r}
      (hl : Derives grouping registry .product tokens l)
      (hop : token.meant? = some op) (hrung : op = .multiply ∨ op = .divide)
      (hr : Derives grouping registry .signed right r) :
      Derives grouping registry .product (tokens ++ token :: right)
        (.binary op token l r)
  | sumProduct {tokens e} (h : Derives grouping registry .product tokens e) :
      Derives grouping registry .sum tokens e
  | sum {tokens token op right l r}
      (hl : Derives grouping registry .sum tokens l)
      (hop : token.meant? = some op) (hrung : op = .add ∨ op = .subtract)
      (hr : Derives grouping registry .product right r) :
      Derives grouping registry .sum (tokens ++ token :: right)
        (.binary op token l r)

/-- The token lists of the given number of sums with commas between
them, with the trees of the sums. -/
inductive DerivesArguments (grouping : Associativity) (registry : Registry) :
    Nat → List Token → List Expression → Prop where
  | none : DerivesArguments grouping registry 0 [] []
  | single {tokens e} (h : Derives grouping registry .sum tokens e) :
      DerivesArguments grouping registry 1 tokens [e]
  | more {comma count tokens others e es}
      (h : Derives grouping registry .sum tokens e)
        (hcomma : comma.kind = .comma)
      (hothers : DerivesArguments grouping registry (count + 1) others es) :
      DerivesArguments grouping registry (count + 2)
        (tokens ++ comma :: others)
        (e :: es)

end

-- ============================================================ what fits where

/-- The binary operators that a phrase may have at its own level. -/
def Rung.has : Rung → Operator → Bool
  | .sum, op => op ≠ .negate
  | .product, op => op = .multiply ∨ op = .divide ∨ op = .power
  | .signed, op | .chain, op => op = .power
  | .atom, _ => false

/-- The operators that a phrase may leave waiting at its end. -/
def Rung.waits : Rung → Operator → Bool
  | .sum, _ => true
  | .product, op => op ≠ .add ∧ op ≠ .subtract
  | .signed, op => op = .power ∨ op = .negate
  | .chain, op => op = .power
  | .atom, _ => false

open Converter

variable {grouping : Associativity} {registry : Registry} {source : String}

/-- What stands before a phrase holds back the operators of the phrase. -/
def Rung.Fits (rung : Rung) (grouping : Associativity)
    (bound : Option Operator) :
    Prop :=
  ∀ op, rung.has op = true →
    (OperatorTable.grouping grouping).stops bound op = false

/-- What follows a phrase sends out the operators of the phrase. -/
def Rung.Follows (rung : Rung) (grouping : Associativity) (rest : List Token) :
    Prop :=
  ∀ op, rung.waits op = true → Released (.grouping grouping) op rest

private theorem Rung.fits_none (rung : Rung) (grouping : Associativity) :
    rung.Fits grouping none := fun _ _ => rfl

private theorem Rung.follows_delimiter (rung : Rung) {token : Token}
    {rest : List Token} (h : token.kind = .rightParen ∨ token.kind = .comma) :
    rung.Follows grouping (token :: rest) := by
  intro op _ next hnext
  obtain rfl : token = next := by simpa using hnext
  rcases h with h | h
  · exact Or.inl h
  · exact Or.inr (Or.inl h)

/-- An operator follows a phrase if all that may wait there goes before
it. -/
theorem Rung.follows_operator {rung : Rung} {token : Token} {op : Operator}
    {rest : List Token} (hop : token.meant? = some op) (hbinary : op ≠ .negate)
    (hpops : ∀ t, rung.waits t = true →
      (OperatorTable.grouping grouping).pops t op = true) :
    rung.Follows grouping (token :: rest) := by
  intro t ht next hnext
  obtain rfl : token = next := by simpa using hnext
  exact Or.inr (Or.inr ⟨op, hop, hbinary, hpops t ht⟩)

-- ====================================================== the standard tables

private theorem pops_sum {op : Operator} (h : op = .add ∨ op = .subtract)
    (t : Operator) : (OperatorTable.grouping grouping).pops t op = true := by
  rcases h with rfl | rfl <;> cases grouping <;> cases t <;> decide

/-- A sum operator holds back the operators of a product. -/
theorem fits_product {op : Operator} (h : op = .add ∨ op = .subtract) :
    Rung.product.Fits grouping (some op) := by
  intro o
  rcases h with rfl | rfl <;> cases grouping <;> cases o <;> decide

private theorem pops_product {op : Operator}
    (h : op = .multiply ∨ op = .divide)
    (t : Operator) (ht : Rung.product.waits t = true) :
    (OperatorTable.grouping grouping).pops t op = true := by
  revert ht
  rcases h with rfl | rfl <;> cases grouping <;> cases t <;> decide

/-- A product operator and a unary minus hold back `^`. -/
theorem fits_signed {op : Operator}
    (h : (op = .multiply ∨ op = .divide) ∨ op = .negate) :
    Rung.signed.Fits grouping (some op) := by
  intro o
  rcases h with (rfl | rfl) | rfl <;> cases grouping <;> cases o <;> decide

private theorem pops_power (h : grouping = .left) (t : Operator)
    (ht : Rung.chain.waits t = true) :
    (OperatorTable.grouping grouping).pops t .power = true := by
  subst h
  revert ht
  cases t <;> decide

/-- Grouped from the right, `^` holds back `^`. -/
theorem fits_power (h : grouping = .right) :
    Rung.signed.Fits grouping (some .power) := by
  subst h
  intro o
  cases o <;> decide

theorem contains_grouping (op : Operator) :
    (OperatorTable.grouping grouping).contains op = true := by
  cases op <;> rfl

/-- Under a grouping of `^` every binary operator takes two operands and
computes what it computes by default. -/
theorem find?_grouping_binary (grouping : Associativity) {op : Operator}
    (hbinary : op ≠ .negate) :
    ∃ spec, (OperatorTable.grouping grouping).find? op = some spec
      ∧ spec.arity = 2 ∧ spec.routine = op.routine := by
  cases op with
  | negate => exact absurd rfl hbinary
  | power => exact ⟨_, rfl, rfl, rfl⟩
  | _ => exact ⟨_, OperatorTable.find?_grouping (by decide), rfl, rfl⟩

theorem orStandard_grouping :
    (OperatorTable.grouping grouping).orStandard = .grouping grouping := by
  cases grouping <;> rfl

-- ============================================================ the simulation

private theorem Rung.fits_atom (bound : Option Operator) :
    Rung.atom.Fits grouping bound :=
  fun _ h => by cases h

private theorem Rung.follows_atom (rest : List Token) :
    Rung.atom.Follows grouping rest :=
  fun _ h => by cases h

mutual

/-- A phrase puts out the postorder of its tree wherever it fits and
whatever may follow it. -/
theorem Derives.emits : ∀ {rung : Rung} {tokens : List Token} {e : Expression},
    Derives grouping registry rung tokens e →
    ∀ {bound : Option Operator} {rest : List Token},
      rung.Fits grouping bound → rung.Follows grouping rest →
      Emits ⟨.grouping grouping, registry, source⟩ bound tokens rest
        e.postorder
  -- The recursion is on the derivation. What a part stands behind and before
  -- follows from its rung: an operator at its left waits for it, and one at
  -- its right lets go what is waiting.
  | _, _, _, .number hkind => fun _ _ => Emits.operand (Or.inl hkind)
  | _, _, _, .identifier hkind => fun _ _ => Emits.operand (Or.inr hkind)
  | _, _, _, .group hopening hclosing h => fun _ _ =>
      Emits.group hopening hclosing
        (h.emits (Rung.fits_none _ _)
          (Rung.follows_delimiter _ (Or.inl hclosing)))
  | _, _, _, @Derives.call _ _ _ _ _ spec _ _ hfunction hspec hopening
        hclosing h =>
      fun _ _ => by
        have hargs := h.emits hclosing
        cases harity : spec.arity with
        | zero =>
            simp only [harity] at hargs
            obtain ⟨rfl, rfl⟩ := hargs []
            rw [Expression.postorder, Expression.postorderAll, List.nil_append]
            exact Emits.emptyCall hfunction hspec hopening hclosing
        | succ count =>
            simp only [harity] at hargs
            exact Emits.call hfunction hspec hopening hclosing harity (hargs _)
  | _, _, _, .chainAtom h => fun _ _ =>
      h.emits (Rung.fits_atom _) (Rung.follows_atom _)
  | _, _, _, .chainPower hleft hl hop hr => fun hfits hfollows =>
      Emits.binary
        (hl.emits hfits (Rung.follows_operator hop (by decide)
          (pops_power hleft)))
        hop (contains_grouping _) (fun _ _ => contains_grouping _)
          (hfits _ rfl)
        (hr.emits (Rung.fits_atom _) (Rung.follows_atom _)) (hfollows _ rfl)
  | _, _, _, .signedMinus hminus h => fun _ hfollows =>
      Emits.minus hminus (contains_grouping _)
        (h.emits (fits_signed (Or.inr rfl)) hfollows) (hfollows _ rfl)
  | _, _, _, .signedChain h => fun hfits hfollows =>
      h.emits hfits fun op hop => hfollows op (by simp_all [Rung.waits])
  | _, _, _, .signedPowerMinus hleft hl hop hminus hr => fun hfits hfollows =>
      Emits.binary
        (hl.emits hfits (Rung.follows_operator hop (by decide)
          (pops_power hleft)))
        hop (contains_grouping _) (fun _ _ => contains_grouping _)
          (hfits _ rfl)
        (Emits.minus hminus (contains_grouping _)
          (hr.emits (fits_signed (Or.inr rfl)) hfollows) (hfollows _ rfl))
        (hfollows _ rfl)
  | _, _, _, .signedPower hright hl hop hr => fun hfits hfollows =>
      Emits.binary (hl.emits (Rung.fits_atom _) (Rung.follows_atom _))
        hop (contains_grouping _) (fun _ _ => contains_grouping _)
          (hfits _ rfl)
        (hr.emits (fits_power hright) hfollows) (hfollows _ rfl)
  | _, _, _, .productSigned h => fun hfits hfollows =>
      h.emits (fun op hop => hfits op (by simp_all [Rung.has]))
        fun op hop => hfollows op (by revert hop; cases op <;> decide)
  | _, _, _, .product hl hop hrung hr => fun hfits hfollows =>
      Emits.binary
        (hl.emits hfits (Rung.follows_operator hop
          (by rcases hrung with rfl | rfl <;> decide) (pops_product hrung)))
        hop (contains_grouping _) (fun _ _ => contains_grouping _)
        (hfits _ (by rcases hrung with rfl | rfl <;> rfl))
        (hr.emits (fits_signed (Or.inl hrung))
          fun op hop => hfollows op (by revert hop; cases op <;> decide))
        (hfollows _ (by rcases hrung with rfl | rfl <;> rfl))
  | _, _, _, .sumProduct h => fun hfits hfollows =>
      h.emits (fun op hop => hfits op (by revert hop; cases op <;> decide))
        fun op _ => hfollows op rfl
  | _, _, _, .sum hl hop hrung hr => fun hfits hfollows =>
      Emits.binary
        (hl.emits hfits (Rung.follows_operator hop
          (by rcases hrung with rfl | rfl <;> decide)
            fun t _ => pops_sum hrung t))
        hop (contains_grouping _) (fun _ _ => contains_grouping _)
        (hfits _ (by rcases hrung with rfl | rfl <;> rfl))
        (hr.emits (fits_product hrung) fun op _ => hfollows op rfl)
        (hfollows _ rfl)

/-- Arguments put out the postorders of their trees. -/
theorem DerivesArguments.emits : ∀ {arity : Nat} {tokens : List Token}
    {es : List Expression},
    DerivesArguments grouping registry arity tokens es →
    ∀ {closing : Token}, closing.kind = .rightParen → ∀ rest : List Token,
      match arity with
      | 0 => tokens = [] ∧ es = []
      | count + 1 =>
          EmitsArguments ⟨.grouping grouping, registry, source⟩ count tokens
            (closing :: rest) (Expression.postorderAll es)
  | _, _, _, .none => fun _ _ => ⟨rfl, rfl⟩
  | _, _, _, .single h => fun hclosing _ => by
      simpa [Expression.postorderAll] using EmitsArguments.single
        (h.emits (Rung.fits_none _ _)
          (Rung.follows_delimiter _ (Or.inl hclosing)))
  | _, _, _, .more h hcomma hothers => fun hclosing rest =>
      EmitsArguments.more hcomma
        (h.emits (Rung.fits_none _ _)
          (Rung.follows_delimiter _ (Or.inr hcomma)))
        (hothers.emits hclosing rest)

end

/-- The postfix form of an expression is the postorder of its derivation
tree. -/
theorem Derives.toPostfix_eq {tokens : List Token} {e : Expression}
    (h : Derives grouping registry.orBuiltin .sum tokens e) :
    toPostfix ⟨.grouping grouping, registry, source⟩ tokens
      = .ok e.postorder := by
  refine toPostfix_of_emits ?_
  rw [Grammar.orStandard, orStandard_grouping]
  refine h.emits (Rung.fits_none _ _) ?_
  intro op _ next hnext
  cases hnext

end Reckoner

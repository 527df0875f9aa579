/-
Conversion where `^` groups the other way.

The grouping of `^` is looked at in one place only: when a `^` arrives and
a `^` lies on top of the stack. Against anything else that may lie there it
makes no difference, as a unary minus yields to strictly lower operators
alone and all others bind less tightly (`splitYielding_power`); and when any
other operator arrives, what waits is asked for its precedence and not for
its grouping (`goesFirst_grouped`). So a step does the same under both
groupings unless a `^` meets a `^` (`step_grouped`).

A `^` lies on top only where the latest token of the level is one. Tokens
in which no `^` comes after such a place (`ChainsPowers`) are converted to
the same postfix form, or fail in the same way (`toPostfix_grouped`).
-/
import Reckoner.Proofs.Postfix.Topmost

namespace Reckoner

/-- Somewhere a `^` comes where the latest token of its level is a `^`. -/
def ChainsPowers (tokens : List Token) : Prop :=
  ∃ before token after, tokens = before ++ token :: after
    ∧ token.meant? = some .power
    ∧ ∃ earlier power between, Latest before earlier power between
      ∧ power.meant? = some .power

/-- A grammar with the standard operators, but with `^` grouping as given. -/
def Grammar.grouped (g : Grammar) (grouping : Associativity) : Grammar :=
  { g with operators := .grouping grouping }

private theorem Grammar.orStandard_grouped (g : Grammar)
    (grouping : Associativity) :
    (g.grouped grouping).orStandard = g.orStandard.grouped grouping := rfl

namespace Converter

variable {g : Grammar} {grouping other : Associativity} {c c' : Converter}
variable {waiting token : Token} {arriving : OperatorSpec} {stack : List Token}

-- ============================================================= what goes out

/-- What waits is not asked how it groups. -/
theorem goesFirst_grouped :
    goesFirst (.grouping grouping) waiting arriving
      = goesFirst (.grouping other) waiting arriving := by
  unfold goesFirst
  split
  · next op _ _ => cases op <;> rfl
  · rfl

private theorem splitYielding_grouped :
    splitYielding (.grouping grouping) arriving stack
      = splitYielding (.grouping other) arriving stack := by
  induction stack with
  | nil => rfl
  | cons top rest ih =>
      rw [splitYielding, splitYielding, ih, goesFirst_grouped]

/-- A waiting `^`. -/
def IsPower (waiting : Token) : Prop :=
  waiting.kind = .operator ∧ waiting.operator = some .power

/-- No operator but `^` goes out before a `^`, however that groups. -/
theorem goesFirst_power (h : ¬ IsPower waiting) :
    goesFirst (.grouping grouping) waiting
      { Operator.power.spec with associativity := other }
      = .ok false := by
  unfold goesFirst
  split
  · next op hkind hop =>
      cases op with
      | power => exact absurd ⟨hkind, hop⟩ h
      | add | subtract | multiply | divide | negate => rfl
  · rfl

private theorem splitYielding_power (h : ∀ top ∈ stack.head?, ¬ IsPower top) :
    splitYielding (.grouping grouping)
      { Operator.power.spec with associativity := other } stack
      = .ok ([], stack) := by
  cases stack with
  | nil => rfl
  | cons top rest =>
      simp only [splitYielding, bind, Except.bind, goesFirst_power (h top rfl)]
      rfl

-- ================================================================ the steps

/-- An operator is handled alike under both groupings, unless it is a `^`
that meets a `^`. -/
theorem operator_grouped (hkind : token.kind = .operator)
    (h : token.meant? = some .power → ∀ top ∈ c.stack.head?, ¬ IsPower top) :
    operator (g.grouped grouping) c token
      = operator (g.grouped other) c token := by
  rw [meant?_eq hkind] at h
  unfold operator
  cases hop : token.operator.or (Operator.ofText? token.text) with
  | none => rfl
  | some op =>
      by_cases hpower : op = .power
      · subst hpower
        have htop := h hop
        have hfind : ∀ a, (g.grouped a).operators.find? .power
            = some { Operator.power.spec with associativity := a } :=
          fun a => rfl
        have hsplit : ∀ a, splitYielding (g.grouped a).operators
            { Operator.power.spec with associativity := a } c.stack
              = .ok ([], c.stack) :=
          fun a => splitYielding_power htop
        simp only [hfind, hsplit]
      · have hfind : ∀ a, (g.grouped a).operators.find? op = some op.spec :=
          fun a => OperatorTable.find?_grouping hpower
        have hsplit :
            splitYielding (g.grouped grouping).operators op.spec c.stack
            = splitYielding (g.grouped other).operators op.spec c.stack :=
          splitYielding_grouped
        simp only [hfind, hsplit]

/-- So is every token; and where a function waits for its parenthesis, both
refuse what comes instead. -/
theorem step_grouped
    (h : Idle c.previous → token.meant? = some .power →
      ∀ top ∈ c.stack.head?, ¬ IsPower top) :
    step (g.grouped grouping) c token = step (g.grouped other) c token := by
  unfold step
  cases habandoned : c.abandoned? (some token.kind) with
  | some function => rfl
  | none =>
      have hhandle : handle (g.grouped grouping) (c.noteArgument token) token
          = handle (g.grouped other) (c.noteArgument token) token := by
        unfold handle
        cases hkind : token.kind with
        | operator =>
            obtain ⟨stack, parens, previous⟩ := c
            rw [abandoned?_eq_none_iff] at habandoned
            have hidle : Idle previous :=
              habandoned.resolve_right (by simp [hkind])
            rw [noteArgument_eq (by simp [hkind])]
            exact operator_grouped hkind (h hidle)
        | _ => rfl
      simp only [hhandle]

-- ================================================================= the runs

/-- Where the stack shows a `^` the latest token of the level is one. -/
theorem latest_of_power_on_top {read out : List Token}
    (hfeed : feed g {} read = .ok (out, c))
    (hidle : Idle c.previous) (htop : ∃ top ∈ c.stack.head?, IsPower top) :
    ∃ earlier power between, Latest read earlier power between
      ∧ power.meant? = some .power := by
  obtain ⟨top, htop, hkind, hoperator⟩ := htop
  obtain ⟨earlier, power, between, hlatest, hpower, rfl⟩ :=
    latest_of_operator_on_top hfeed hidle htop hkind
  obtain ⟨op, hop⟩ := meant_of_feed hfeed power (by simp [hlatest.eq]) hpower
  rw [Token.operator_settled hop, Option.some_inj] at hoperator
  split at hoperator
  · cases hoperator
  · exact ⟨earlier, power, between, hlatest, hoperator ▸ hop⟩

/-- Runs go on alike under both groupings where no `^` follows a `^`, by
induction on the tokens still to be read. -/
theorem feed_grouped {read tokens out : List Token}
    (hfeed : feed (g.grouped grouping) {} read = .ok (out, c))
    (h : ¬ ChainsPowers (read ++ tokens)) :
    feed (g.grouped grouping) c tokens = feed (g.grouped other) c tokens := by
  induction tokens generalizing read out c with
  | nil => rfl
  | cons token rest ih =>
      have hstep : step (g.grouped grouping) c token
          = step (g.grouped other) c token := by
        apply step_grouped
        intro hidle hpower top htop htopPower
        apply h
        exact ⟨read, token, rest, rfl, hpower,
          latest_of_power_on_top hfeed hidle ⟨top, htop, htopPower⟩⟩
      rw [feed, feed, ← hstep]
      cases hresult : step (g.grouped grouping) c token with
      | error failure => rfl
      | ok result =>
          have hread : feed (g.grouped grouping) {} (read ++ [token])
              = .ok (out ++ result.1, result.2) :=
            feed_concat_eq_ok_iff.mpr
              ⟨out, c, result.1, hfeed, moves_of_step hresult, rfl⟩
          dsimp only
          rw [ih hread (by rwa [List.append_assoc])]

end Converter

open Converter

/-- Tokens without chained powers come to the same however `^` groups. -/
theorem toPostfix_grouped (g : Grammar) (grouping other : Associativity)
    {tokens : List Token} (h : ¬ ChainsPowers tokens) :
    toPostfix (g.grouped grouping) tokens
      = toPostfix (g.grouped other) tokens := by
  have hfeed : feed (g.orStandard.grouped grouping) {} tokens
      = feed (g.orStandard.grouped other) {} tokens :=
    feed_grouped rfl (show ¬ ChainsPowers ([] ++ tokens) from h)
  rw [toPostfix_eq_convert, toPostfix_eq_convert, Grammar.orStandard_grouped,
    Grammar.orStandard_grouped, convert, convert, hfeed]
  rfl

end Reckoner

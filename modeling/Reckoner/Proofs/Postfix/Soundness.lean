/-
The conversion of tokens that lack nothing.

While it reads such tokens the converter keeps an invariant (`Sound`): as
many open parentheses wait on the stack as there are records, whatever
else waits is ready for the evaluation, and a function that is remembered
is one of the registry. So every lookup of the converter finds what it
looks for, provided that the table has every operator, and a parenthesis
that is to be closed has its record. A step either keeps the invariant
and puts out tokens that are ready, or has a foreseen fault
(`Sound.lands_step`); and so have runs and whole conversions
(`lands_toPostfix`).
-/
import Reckoner.Proofs.Infix.Derivation
import Reckoner.Proofs.Postfix.Waiting
import Reckoner.Proofs.Token.Filled

namespace Reckoner

open Token

namespace Converter

-- ========================================================== the invariant

/-- A remembered token, if it is a function, is one of the registry. -/
def Known (functions : Registry) (remembered : Option Token) : Prop :=
  ∀ token ∈ remembered, token.kind = .function →
    functions.contains token.text = true

/-- What holds of a converter that has read tokens that lack nothing. -/
structure Sound (g : Grammar) (c : Converter) : Prop where
  openings : openings c.stack = c.parens.length
  waiting : ∀ token ∈ c.stack, token.kind = .leftParen
    ∨ token.Ready g.functions
  calls : ∀ paren ∈ c.parens, ∀ function ∈ paren.function,
    g.functions.contains function.text = true
  previous : Known g.functions c.previous

/-- What a step of such a converter is to give. -/
def LandsSound (g : Grammar) : Step → Prop :=
  Lands Failure.IsForeseen fun result =>
    (∀ token ∈ result.1, token.Ready g.functions) ∧ Sound g result.2

variable {g : Grammar} {c : Converter} {token : Token}

private theorem sound_start (g : Grammar) : Sound g {} :=
  ⟨rfl, by simp, by simp, by simp [Known]⟩

private theorem known_of_filled {functions : Registry}
    (h : token.Filled functions) :
    Known functions (some token) := by
  intro last hlast hkind
  obtain rfl : token = last := by simpa using hlast
  exact (h.ready (by simp [hkind, TokenKind.isDelimiter])).contains hkind

namespace Sound

/-- What waits inside the parentheses is ready. -/
theorem ready (h : Sound g c) (hmem : token ∈ c.stack)
    (hinside : isInside token = true) :
    token.Ready g.functions :=
  (h.waiting token hmem).resolve_left (isInside_iff.mp hinside)

theorem noteArgument (h : Sound g c) (token : Token) :
    Sound g (c.noteArgument token) := by
  unfold Converter.noteArgument
  split
  · next paren outer hparens =>
      split
      · exact h
      · obtain ⟨hopenings, hwaiting, hcalls, hprevious⟩ := h
        simp only [hparens, List.mem_cons, forall_eq_or_imp]
          at hopenings hcalls
        exact ⟨by simpa using hopenings, hwaiting, by simpa using hcalls,
          hprevious⟩
  · exact h

/-- A token that is ready may wait. -/
theorem push (h : Sound g c) (hready : token.Ready g.functions) :
    Sound g { c with stack := token :: c.stack } := by
  have hinside : isInside token = true := by
    rw [isInside_iff]
    intro hkind
    simp [Ready, hkind] at hready
  refine ⟨?_, ?_, h.calls, h.previous⟩
  · rw [openings_cons_inside hinside, h.openings]
  · simpa [hready] using h.waiting

/-- A front part of the stack in which no parenthesis stands may go out. -/
theorem pop {out kept : List Token} (h : Sound g c)
    (hcut : out ++ kept = c.stack)
    (hinside : ∀ token ∈ out, isInside token = true) :
    (∀ token ∈ out, token.Ready g.functions)
      ∧ Sound g { c with stack := kept } := by
  have hopenings := h.openings
  rw [← hcut, openings_append, openings_eq_zero_iff.mpr hinside, Nat.zero_add]
    at hopenings
  refine ⟨fun token hmem => h.ready ?_ (hinside token hmem), hopenings,
    fun token hmem => h.waiting token ?_, h.calls, h.previous⟩
  · simp [← hcut, hmem]
  · simp [← hcut, hmem]

-- =========================================================== the handlers

/-- A comma hands out what waits above the bracket, all of it ready. -/
theorem lands_comma (h : Sound g c) : LandsSound g (comma c) := by
  obtain ⟨hready, hpopped⟩ :=
    h.pop List.takeWhile_append_dropWhile (isInside_takeWhile c.stack)
  refine ⟨hready, ?_⟩
  -- the comma is counted in a record, which changes neither their number
  -- nor whose calls they are
  cases hparens : c.parens with
  | nil =>
      exact ⟨by simpa [hparens] using hpopped.openings, hpopped.waiting,
        by simp,
      hpopped.previous⟩
  | cons paren outer =>
      refine ⟨by simpa [hparens] using hpopped.openings, hpopped.waiting, ?_,
        hpopped.previous⟩
      simpa [hparens] using hpopped.calls

/-- An operator of the table is taken for one of its own, and those that go
first were so before. -/
theorem lands_operator (hall : ∀ op, g.operators.contains op = true)
    (h : Sound g c)
    (hkind : token.kind = .operator) (hready : token.Ready g.functions) :
    LandsSound g (operator g c token) := by
  obtain ⟨op, hop⟩ := hready.operator hkind
  obtain ⟨spec, hspec⟩ := OperatorTable.find?_of_contains (hall op)
  simp only [operator, hop, Option.some_or, hspec]
  split
  · -- a unary minus
    exact ⟨by simp, h.push rfl⟩
  · obtain ⟨out, kept, hsplit⟩ := exists_splitYielding hall spec c.stack
    obtain ⟨hout, hpopped⟩ :=
      h.pop (splitYielding_append hsplit) (isInside_of_splitYielding hsplit)
    rw [hsplit]
    exact ⟨hout, by simpa using hpopped.push hready⟩

private theorem lands_openParen (h : Sound g c)
    (hkind : token.kind = .leftParen) :
    LandsSound g (openParen c token) := by
  refine ⟨by simp, ?_, ?_, ?_, h.previous⟩
  · simp [openings_cons_open hkind, h.openings]
  · simpa [hkind] using h.waiting
  · simp only [List.mem_cons, forall_eq_or_imp]
    refine ⟨fun function hfunction => ?_, h.calls⟩
    rw [Option.mem_def, Option.filter_eq_some_iff] at hfunction
    exact h.previous function hfunction.1 (by simpa using hfunction.2)

/-- The function of a call is known, so the check finds it. -/
theorem lands_checkArguments {paren : OpenParen}
    (h : ∀ function ∈ paren.function,
      g.functions.contains function.text = true) :
    Lands Failure.IsForeseen (fun _ => True) (checkArguments g paren) := by
  unfold checkArguments
  split
  · trivial
  · next function hfunction =>
      obtain ⟨spec, hspec⟩ :=
        NameMap.contains_eq_true_iff.mp (h function hfunction)
      simp only [Registry.lookup, hspec]
      split
      · split
        · exact rfl
        · trivial
      · trivial

/-- A closing bracket finds the bracket that was opened and checks the call.
-/
theorem lands_closeParen (h : Sound g c) :
    LandsSound g (closeParen g c token) := by
  obtain ⟨hready, hpopped⟩ :=
    h.pop List.takeWhile_append_dropWhile (isInside_takeWhile c.stack)
  have hopenings := hpopped.openings
  unfold closeParen
  cases hbelow : c.stack.dropWhile isInside with
  | nil => exact rfl
  | cons top below =>
      simp only [hbelow, openings_cons_open (kind_of_dropWhile hbelow)]
        at hopenings
      -- the parenthesis has its record
      cases hparens : c.parens with
      | nil => simp [hparens] at hopenings
      | cons paren outer =>
          have hcheck :=
            lands_checkArguments (h.calls paren (by simp [hparens]))
          dsimp only
          generalize checkArguments g paren = checked at hcheck
          cases checked with
          | error failure => exact hcheck
          | ok _ =>
              have hclosed :
                  Sound g { c with stack := below, parens := outer } :=
                ⟨by simpa [hparens] using hopenings,
                  fun token hmem => hpopped.waiting token
                    (by simp [hbelow, hmem]),
                  fun record hmem => h.calls record (by simp [hparens, hmem]),
                  h.previous⟩
              obtain ⟨hcalled, hrest⟩ :=
                hclosed.pop (splitCalled_append below)
                  (isInside_splitCalled below)
              refine ⟨?_, hrest⟩
              simpa only [List.mem_append, or_imp, forall_and]
                using ⟨hready, hcalled⟩

-- =============================================================== the runs

/-- A step keeps the invariant and puts out what is ready, or it has a
foreseen fault. -/
theorem lands_step (hall : ∀ op, g.operators.contains op = true)
    (h : Sound g c)
    (htoken : token.Filled g.functions) : LandsSound g (step g c token) := by
  have hhandle : LandsSound g (handle g (c.noteArgument token) token) := by
    have hnoted := h.noteArgument token
    unfold handle
    cases hkind : token.kind with
    | number | identifier =>
        have hready := htoken.ready (by simp [hkind, TokenKind.isDelimiter])
        exact ⟨by simpa using hready, hnoted⟩
    | function =>
        have hready := htoken.ready (by simp [hkind, TokenKind.isDelimiter])
        simp only [Converter.function, hready.contains hkind, if_true]
        exact ⟨by simp, hnoted.push hready⟩
    | comma => exact hnoted.lands_comma
    | operator =>
        exact hnoted.lands_operator hall hkind
          (htoken.ready (by simp [hkind, TokenKind.isDelimiter]))
    | leftParen => exact hnoted.lands_openParen hkind
    | rightParen => exact hnoted.lands_closeParen
  unfold step
  split
  · exact rfl
  · generalize handle g (c.noteArgument token) token = result at hhandle
    cases result with
    | error failure => exact hhandle
    | ok result =>
        obtain ⟨hready, hopenings, hwaiting, hcalls, -⟩ := hhandle
        exact ⟨hready, hopenings, hwaiting, hcalls, known_of_filled htoken⟩

/-- By induction on the tokens, with `Sound` as what is kept. -/
theorem lands_feed (hall : ∀ op, g.operators.contains op = true)
    {tokens : List Token}
    (h : Sound g c) (htokens : ∀ token ∈ tokens, token.Filled g.functions) :
    LandsSound g (feed g c tokens) := by
  induction tokens generalizing c with
  | nil => exact ⟨by simp, h⟩
  | cons token rest ih =>
      have hstep := h.lands_step hall (htokens token (by simp))
      rw [feed]
      generalize step g c token = result at hstep
      cases result with
      | error failure => exact hstep
      | ok result =>
          obtain ⟨hout, hnext⟩ := hstep
          have hrest := ih hnext fun t ht => htokens t (by simp [ht])
          dsimp only
          generalize feed g result.2 rest = after at hrest
          cases after with
          | error failure => exact hrest
          | ok after =>
              refine ⟨?_, hrest.2⟩
              simpa only [List.mem_append, or_imp, forall_and]
                using ⟨hout, hrest.1⟩

/-- Nothing that is left over at the end is a function without its call. -/
theorem lands_finish (h : Sound g c) :
    Lands Failure.IsForeseen (∀ token ∈ ·, token.Ready g.functions)
      (c.finish g) := by
  unfold finish
  split
  · exact rfl
  · split
    · exact rfl
    · next hnone =>
        intro token hmem
        refine h.ready hmem (isInside_iff.mpr ?_)
        simpa using List.find?_eq_none.mp hnone token hmem

end Sound

end Converter

-- ============================================================= the result

/-- Tokens that lack nothing have a postfix form in which everything is
ready, or a foreseen fault. -/
theorem lands_toPostfix {g : Grammar} {tokens : List Token}
    (hall : ∀ op, g.operators.orStandard.contains op = true)
    (htokens : ∀ token ∈ tokens, token.Filled g.functions.orBuiltin) :
    Lands Failure.IsForeseen (∀ token ∈ ·, token.Ready g.functions.orBuiltin)
      (toPostfix g tokens) := by
  have hfeed := (Converter.sound_start g.orStandard).lands_feed hall htokens
  rw [toPostfix_eq_convert, Converter.convert]
  generalize Converter.feed g.orStandard {} tokens = result at hfeed
  cases result with
  | error failure => exact hfeed
  | ok result =>
      obtain ⟨hout, hsound⟩ := hfeed
      refine hsound.lands_finish.map fun rest hrest => ?_
      simpa only [List.mem_append, or_imp, forall_and] using ⟨hout, hrest⟩

end Reckoner

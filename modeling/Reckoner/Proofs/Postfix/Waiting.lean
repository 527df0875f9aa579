/-
The stack on which the converter keeps what waits.

Every way in which tokens leave the stack is a cut of it. An operator
sends out a front part in which no parenthesis stands
(`isInside_of_splitYielding`); a comma and a closing parenthesis send out
all that stands above the innermost parenthesis, which closes nothing
(`openings_unwound`); a completed call is the topmost token or none
(`splitCalled_append`). An invariant of the converter needs no more of the
stack than this.
-/
import Reckoner.Postfix

namespace Reckoner.Converter

-- =============================================================== the step

/-- A step that succeeds is one of its handler, where no function waits
for its parenthesis. -/
theorem handle_of_step {g : Grammar} {c c' : Converter} {token : Token}
    {more : List Token} (h : step g c token = .ok (more, c')) :
    c.abandoned? (some token.kind) = none
      ∧ ∃ c'', handle g (c.noteArgument token) token = .ok (more, c'')
        ∧ c' = { c'' with previous := some token } := by
  unfold step at h
  split at h
  · cases h
  · next hidle =>
      split at h
      · cases h
      · next more' c'' hhandle =>
          cases h
          exact ⟨hidle, c'', hhandle, rfl⟩

-- =============================================================== the cuts

theorem isInside_iff {token : Token} :
    isInside token = true ↔ token.kind ≠ .leftParen := by
  simp [isInside]

/-- Only operators go out before an operator. -/
theorem isInside_of_splitYielding {operators : OperatorTable}
    {arriving : OperatorSpec} {stack out kept : List Token}
    (h : splitYielding operators arriving stack = .ok (out, kept)) :
    ∀ waiting ∈ out, isInside waiting = true := by
  induction stack generalizing out kept with
  | nil =>
      cases h
      simp
  | cons top rest ih =>
      simp only [splitYielding, bind, Except.bind] at h
      split at h
      · cases h
      · next goes hgoes =>
          split at h
          · next hyes =>
              split at h
              · cases h
              · next result hrest =>
                  cases h
                  have htop : isInside top = true := by
                    unfold goesFirst at hgoes
                    split at hgoes
                    · next hkind _ => simp [isInside, hkind]
                    · cases hgoes
                      cases hyes
                  simpa [htop] using ih hrest
          · cases h
            simp

/-- What stays on top was asked and does not go first. -/
theorem goesFirst_of_splitYielding {operators : OperatorTable}
    {arriving : OperatorSpec} {stack out kept : List Token}
    (h : splitYielding operators arriving stack = .ok (out, kept)) :
    ∀ top ∈ kept.head?, goesFirst operators top arriving = .ok false := by
  induction stack generalizing out kept with
  | nil =>
      cases h
      simp
  | cons top rest ih =>
      simp only [splitYielding, bind, Except.bind] at h
      split at h
      · cases h
      · next goes hgoes =>
          cases goes with
          | false =>
              cases h
              simpa using hgoes
          | true =>
              simp only [if_true] at h
              split at h
              · cases h
              · next result hrest =>
                  cases h
                  exact ih hrest

/-- A table that has every operator is never asked in vain. -/
theorem exists_splitYielding {operators : OperatorTable}
    (hall : ∀ op, operators.contains op = true) (arriving : OperatorSpec)
    (stack : List Token) :
    ∃ out kept, splitYielding operators arriving stack = .ok (out, kept) := by
  induction stack with
  | nil => exact ⟨_, _, rfl⟩
  | cons top rest ih =>
      obtain ⟨goes, hgoes⟩ :
          ∃ goes, goesFirst operators top arriving = .ok goes := by
        unfold goesFirst
        split
        · next op _ _ =>
            obtain ⟨spec, hspec⟩ := Option.isSome_iff_exists.mp (hall op)
            exact ⟨_, by rw [OperatorTable.lookup, hspec]⟩
        · exact ⟨_, rfl⟩
      obtain ⟨out, kept, hrest⟩ := ih
      simp only [splitYielding, bind, Except.bind, hgoes, hrest]
      cases goes with
      | true => exact ⟨_, _, rfl⟩
      | false => exact ⟨_, _, rfl⟩

/-- A completed call goes out as a whole. -/
theorem splitCalled_append (stack : List Token) :
    (splitCalled stack).1 ++ (splitCalled stack).2 = stack := by
  cases stack with
  | nil => rfl
  | cons top rest =>
      simp only [splitCalled]
      split <;> rfl

/-- What a closed call hands out was inside. -/
theorem isInside_splitCalled (stack : List Token) :
    ∀ token ∈ (splitCalled stack).1, isInside token = true := by
  cases stack with
  | nil => simp [splitCalled]
  | cons top rest =>
      simp only [splitCalled]
      split
      · next hkind => simp [isInside, hkind]
      · simp

-- ======================================================== the parentheses

/-- How many open parentheses wait on a stack. -/
def openings (stack : List Token) : Nat :=
  stack.countP fun token => !isInside token

theorem openings_eq_zero_iff {stack : List Token} :
    openings stack = 0 ↔ ∀ token ∈ stack, isInside token = true := by
  simp [openings, List.countP_eq_zero]

theorem openings_append (stack below : List Token) :
    openings (stack ++ below) = openings stack + openings below :=
  List.countP_append

theorem openings_cons_inside {token : Token} (h : isInside token = true)
    (stack : List Token) : openings (token :: stack) = openings stack := by
  simp [openings, h]

theorem openings_cons_open {token : Token} (h : token.kind = .leftParen)
    (stack : List Token) : openings (token :: stack) = openings stack + 1 := by
  simp [openings, isInside, h]

/-- What waits above the innermost parenthesis stands inside it. -/
theorem isInside_takeWhile (stack : List Token) :
    ∀ token ∈ stack.takeWhile isInside, isInside token = true :=
  List.all_eq_true.mp List.all_takeWhile

/-- What comes next is that parenthesis. -/
theorem kind_of_dropWhile {stack below : List Token} {top : Token}
    (h : stack.dropWhile isInside = top :: below) : top.kind = .leftParen := by
  have hhead := List.head?_dropWhile_not isInside stack
  rw [h] at hhead
  simpa [isInside] using hhead

/-- Unwinding stops at a bracket, so it lets go of none. -/
theorem openings_unwound (stack : List Token) :
    openings (stack.dropWhile isInside) = openings stack := by
  have hnone := openings_eq_zero_iff.mpr (isInside_takeWhile stack)
  have hall := openings_append (stack.takeWhile isInside)
    (stack.dropWhile isInside)
  rw [List.takeWhile_append_dropWhile] at hall
  omega

/-- The function of a call is no bracket. -/
theorem openings_splitCalled (stack : List Token) :
    openings (splitCalled stack).2 = openings stack := by
  have hnone := openings_eq_zero_iff.mpr (isInside_splitCalled stack)
  have hall := congrArg openings (splitCalled_append stack)
  rw [openings_append] at hall
  omega

end Reckoner.Converter

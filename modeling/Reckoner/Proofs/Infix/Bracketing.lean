/-
What can be wrong with the parentheses and calls of some tokens.

Tokens are well bracketed if their parentheses pair up, every function is
followed by its parenthesis, and every call that has arguments has as many
as its function takes (`WellBracketed`). Otherwise one thing is to be
reported, and `Reported` says which. Read from the left, a token may
violate what was said: a function without its parenthesis, a closing
parenthesis with nothing to close, one that ends a call with another
number of arguments (`Violation`). The first of these is the one. If there
is none, then some parenthesis is never closed, and the last such one is
reported.

All this speaks of the tokens alone; that it is what the converter finds
is shown elsewhere.
-/
import Reckoner.Proofs.Infix.Nesting
import Reckoner.Registry

namespace Reckoner

-- =========================================================== the definitions

/-- Parentheses that pair up, and calls of known functions with as many
arguments as these take. Calls without any are not asked about. -/
structure WellBracketed (functions : Registry) (tokens : List Token) :
    Prop where
  closings : ∀ before closing after, tokens = before ++ closing :: after →
    closing.kind = .rightParen → ∃ earlier opening inner,
      Opens before earlier opening inner
  openings : ∀ before opening after, tokens = before ++ opening :: after →
    opening.kind = .leftParen → ClosedBy after
  called : ∀ before function after, tokens = before ++ function :: after →
    function.kind = .function → ∃ opening ∈ after.head?,
      opening.kind = .leftParen
  counts : ∀ before function opening inner closing after spec,
    tokens = before ++ function :: opening :: (inner ++ closing :: after) →
    function.kind = .function → opening.kind = .leftParen →
      closing.kind = .rightParen →
    Balanced inner → inner ≠ [] → functions.find? function.text = some spec →
    ownCommas inner + 1 = spec.arity

/-- What is wrong with a token that stands between others, and the place
that is reported for it. A function may also be without its parenthesis
because it is the last token. -/
inductive Violation (functions : Registry) (before : List Token)
    (token : Token) (after : List Token) : Fault → Int → Prop where
  | uncalled (hkind : token.kind = .function)
      (hnext : ∀ next ∈ after.head?, next.kind ≠ .leftParen) :
      Violation functions before token after (.callWithoutParens token.text)
        token.position
  | unopened (hkind : token.kind = .rightParen)
      (hnone : ∀ earlier opening inner, ¬ Opens before earlier opening inner) :
      Violation functions before token after .unopenedParen token.position
  | miscounted {earlier function opening inner spec}
      (hkind : token.kind = .rightParen)
      (hopens : Opens before (earlier ++ [function]) opening inner)
      (hfunction : function.kind = .function) (hinner : inner ≠ [])
      (hspec : functions.find? function.text = some spec)
      (hcount : ownCommas inner + 1 ≠ spec.arity) :
      Violation functions before token after
        (.argumentCount function.text spec.arity (ownCommas inner + 1))
          function.position

/-- No token of `read` violates anything, if `rest` follows. -/
def Untroubled (functions : Registry) (read rest : List Token) : Prop :=
  ∀ before token after fault position, read = before ++ token :: after →
    ¬ Violation functions before token (after ++ rest) fault position

/-- What is reported of tokens that are not well bracketed: the first
violation or, if there is none, the last parenthesis that is never closed. -/
inductive Reported (functions : Registry) (tokens : List Token) : Fault → Int →
    Prop where
  | violation {before token after fault position}
      (heq : tokens = before ++ token :: after)
      (h : Violation functions before token after fault position)
      (hfirst : Untroubled functions before (token :: after)) :
      Reported functions tokens fault position
  | unclosed {before opening after} (heq : tokens = before ++ opening :: after)
      (hnone : Untroubled functions tokens [])
        (hkind : opening.kind = .leftParen)
      (hopen : ¬ ClosedBy after)
      (hlast : ∀ middle later rest, after = middle ++ later :: rest →
        later.kind = .leftParen → ClosedBy rest) :
      Reported functions tokens .unclosedParen opening.position

-- ============================================================ token by token

variable {functions : Registry} {read rest tokens : List Token} {token : Token}

private theorem untroubled_nil : Untroubled functions [] rest := by
  intro before token after fault position h
  simp at h

theorem untroubled_append_singleton :
    Untroubled functions (read ++ [token]) rest
      ↔ Untroubled functions read (token :: rest)
        ∧ ∀ fault position,
          ¬ Violation functions read token rest fault position := by
  constructor
  · intro h
    constructor
    · intro before other after fault position heq
      have := h before other (after ++ [token]) fault position (by simp [heq])
      simpa using this
    · intro fault position
      exact h read token [] fault position rfl
  · rintro ⟨hread, htoken⟩ before other after fault position heq
    rcases List.eq_nil_or_concat after with rfl | ⟨after, last, rfl⟩
    · obtain ⟨rfl, hother⟩ := List.append_inj' heq rfl
      obtain rfl : token = other := by simpa using hother
      exact htoken fault position
    · rw [List.concat_eq_append, ← List.cons_append, ← List.append_assoc]
        at heq
      obtain ⟨rfl, hlast⟩ := List.append_inj' heq rfl
      obtain rfl : token = last := by simpa using hlast
      have := hread before other after fault position rfl
      simpa using this

/-- Either nothing is violated or there is a first violation. -/
theorem untroubled_or_violation (functions : Registry)
    (read rest : List Token) :
    Untroubled functions read rest
      ∨ ∃ before token after fault position, read = before ++ token :: after
        ∧ Violation functions before token (after ++ rest) fault position
        ∧ Untroubled functions before (token :: (after ++ rest)) := by
  induction read using List.reverseRecOn generalizing rest with
  | nil => exact Or.inl untroubled_nil
  | append_singleton read last ih =>
      rcases ih (last :: rest) with hread
        | ⟨before, token, after, fault, position, rfl, h⟩
      · by_cases hlast : ∃ fault position,
          Violation functions read last rest fault position
        · obtain ⟨fault, position, h⟩ := hlast
          exact Or.inr ⟨read, last, [], fault, position, rfl, h, hread⟩
        · simp only [not_exists] at hlast
          exact Or.inl (untroubled_append_singleton.mpr ⟨hread, hlast⟩)
      · exact Or.inr ⟨before, token, after ++ [last], fault, position, by simp,
          by simpa using h⟩

/-- After a function its parenthesis follows. -/
theorem Untroubled.called (h : Untroubled functions read rest) :
    ∀ last ∈ read.getLast?, last.kind = .function →
      ∃ next ∈ rest.head?, next.kind = .leftParen := by
  intro last hlast hkind
  obtain ⟨before, rfl⟩ := List.getLast?_eq_some_iff.mp hlast
  by_contra hnone
  refine h before last [] _ _ rfl (.uncalled hkind fun next hnext hparen => ?_)
  exact hnone ⟨next, by simpa using hnext, hparen⟩

-- ======================================================= nothing to report

/-- Tokens are well bracketed if nothing is violated and every parenthesis
is closed. -/
theorem wellBracketed_iff :
    WellBracketed functions tokens
      ↔ Untroubled functions tokens []
        ∧ ∀ before opening after, tokens = before ++ opening :: after →
          opening.kind = .leftParen → ClosedBy after := by
  constructor
  · intro h
    refine ⟨?_, h.openings⟩
    intro before token after fault position heq hviolation
    rw [List.append_nil] at hviolation
    -- each clause rules out one kind of violation
    cases hviolation with
    | uncalled hkind hnext =>
        obtain ⟨next, hmem, hparen⟩ := h.called before token after heq hkind
        exact hnext next hmem hparen
    | unopened hkind hnone =>
        obtain ⟨earlier, opening, inner, hopens⟩ :=
          h.closings before token after heq hkind
        exact hnone earlier opening inner hopens
    | @miscounted earlier function opening inner spec hkind hopens hfunction
        hinner hspec
        hcount =>
        refine hcount (h.counts earlier function opening inner token after spec
          ?_ hfunction hopens.kind hkind hopens.balanced hinner hspec)
        simp [heq, hopens.eq]
  · rintro ⟨hnone, hclosed⟩
    have hnone : ∀ before token after fault position,
        tokens = before ++ token :: after →
        ¬ Violation functions before token after fault position := by
      simpa [Untroubled] using hnone
    refine ⟨?_, hclosed, ?_, ?_⟩
    · intro before closing after heq hkind
      -- and each violation is what is left if a clause fails
      by_contra hopens
      simp only [not_exists] at hopens
      exact hnone before closing after _ _ heq (.unopened hkind hopens)
    · intro before function after heq hkind
      by_contra hcalled
      refine hnone before function after _ _ heq
        (.uncalled hkind fun next hnext hparen => ?_)
      exact hcalled ⟨next, hnext, hparen⟩
    · intro before function opening inner closing after spec heq hfunction
        hopening hclosing
        hbalanced hinner hspec
      by_contra hcount
      have hopens :
          Opens (before ++ function :: opening :: inner) (before ++ [function])
          opening inner := ⟨by simp, hopening, hbalanced⟩
      exact hnone (before ++ function :: opening :: inner) closing after _ _
        (by simp [heq])
        (.miscounted hclosing hopens hfunction hinner hspec hcount)

-- ================================================ the last open parenthesis

variable {earlier inner before after : List Token} {opening opening' : Token}

/-- The innermost open parenthesis is the last one that is never closed. -/
theorem Opens.last (h : Opens tokens earlier opening inner) :
    ¬ ClosedBy inner ∧ ∀ middle later rest, inner = middle ++ later :: rest →
      later.kind = .leftParen → ClosedBy rest := by
  refine ⟨h.balanced.not_closedBy, ?_⟩
  intro middle later rest heq hkind
  exact (heq ▸ h.balanced).closedBy hkind

theorem Opens.eq_last (h : Opens tokens earlier opening inner)
    (heq : tokens = before ++ opening' :: after)
    (hkind : opening'.kind = .leftParen) (hopen : ¬ ClosedBy after)
    (hlast : ∀ middle later rest, after = middle ++ later :: rest →
      later.kind = .leftParen → ClosedBy rest) : opening' = opening := by
  rcases append_cons_cases (h.eq.symm.trans heq) with
    ⟨-, hsame, -⟩ | ⟨middle, hinner⟩ | ⟨middle, hafter⟩
  · exact hsame.symm
  · -- it stands behind the innermost one, so it is closed
    exact absurd ((hinner ▸ h.balanced).closedBy hkind) hopen
  · -- the innermost one stands behind it and is not closed
    exact absurd (hlast middle opening inner hafter h.kind)
      h.balanced.not_closedBy

end Reckoner

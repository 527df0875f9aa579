/-
How parentheses nest.

An open parenthesis and a closing one belong together if what stands
between them is balanced: it closes all that it opens, and at no place
more than that. That is a matter of counting (`nesting`, `Balanced`), and
nothing here depends on how a converter finds the pairs.

Two relations are read off it. `Opens` tells which parenthesis is the
innermost that is open after some tokens; there is at most one
(`Opens.unique`). `ClosedBy` tells that what follows an open parenthesis
closes it: it does so exactly if at some place it has closed more than it
has opened (`not_closedBy_iff`).

The commas at the own level of a stretch are those that stand in no
parentheses of it (`ownCommas`); a balanced stretch in parentheses has
none to add.
-/
import Reckoner.Token
import Mathlib.Data.List.Induction

namespace Reckoner

-- ============================================================= the counting

/-- What a token adds to the depth at which the next one stands. -/
def Token.nesting (token : Token) : Int :=
  match token.kind with
  | .leftParen => 1
  | .rightParen => -1
  | _ => 0

/-- How many parentheses some tokens open and do not close. -/
def nesting : List Token → Int
  | [] => 0
  | token :: rest => token.nesting + nesting rest

/-- Tokens that close what they open, and nothing else. -/
structure Balanced (tokens : List Token) : Prop where
  total : nesting tokens = 0
  nonneg : ∀ front rest, tokens = front ++ rest → 0 ≤ nesting front

/-- `opening` is the innermost parenthesis that is open after `read`;
`earlier` stands before it and `inner` behind it. -/
structure Opens (read earlier : List Token) (opening : Token)
    (inner : List Token) :
    Prop where
  eq : read = earlier ++ opening :: inner
  kind : opening.kind = .leftParen
  balanced : Balanced inner

/-- The tokens that follow an open parenthesis close it. -/
def ClosedBy (rest : List Token) : Prop :=
  ∃ inner closing after, rest = inner ++ closing :: after
    ∧ closing.kind = .rightParen ∧ Balanced inner

/-- How many commas stand at depth zero, if the first token stands at the
given depth. -/
def commasAt : Int → List Token → Nat
  | _, [] => 0
  | depth, token :: rest =>
      (if token.kind = .comma ∧ depth = 0 then 1 else 0)
        + commasAt (depth + token.nesting) rest

/-- The commas at the own level of a stretch. -/
def ownCommas (tokens : List Token) : Nat := commasAt 0 tokens

-- ============================================================== the nesting

variable {tokens front rest earlier inner : List Token}
  {token opening closing : Token}

namespace Token

theorem nesting_open (h : token.kind = .leftParen) : token.nesting = 1 := by
  simp [nesting, h]

theorem nesting_close (h : token.kind = .rightParen) : token.nesting = -1 := by
  simp [nesting, h]

theorem nesting_other (hopen : token.kind ≠ .leftParen)
    (hclose : token.kind ≠ .rightParen) : token.nesting = 0 := by
  unfold nesting
  split
  · contradiction
  · contradiction
  · rfl

/-- Only a closing parenthesis lowers the nesting, and by one. -/
theorem nesting_cases (token : Token) :
    0 ≤ token.nesting ∨ token.kind = .rightParen ∧ token.nesting = -1 := by
  unfold nesting
  split <;> simp [*]

end Token

@[simp] theorem nesting_nil : nesting [] = 0 := rfl

@[simp] theorem nesting_cons (token : Token) (tokens : List Token) :
    nesting (token :: tokens) = token.nesting + nesting tokens := rfl

@[simp] theorem nesting_append (front rest : List Token) :
    nesting (front ++ rest) = nesting front + nesting rest := by
  induction front with
  | nil => simp
  | cons token front ih =>
      simp only [List.cons_append, nesting_cons, ih, Int.add_assoc]

-- ============================================================ what is closed

/-- A front part that closes more than it opens stays one. -/
theorem ClosedBy.append (h : ClosedBy tokens) (rest : List Token) :
    ClosedBy (tokens ++ rest) := by
  obtain ⟨inner, closing, after, rfl, hclosing, hinner⟩ := h
  exact ⟨inner, closing, after ++ rest, by simp, hclosing, hinner⟩

/-- A front part of some tokens is all of them or stands before the last. -/
theorem front_cases (h : tokens ++ [token] = front ++ rest) :
    front = tokens ++ [token] ∨ ∃ more, tokens = front ++ more := by
  rcases List.eq_nil_or_concat rest with rfl | ⟨more, last, rfl⟩
  · exact Or.inl (by simpa using h.symm)
  · rw [List.concat_eq_append, ← List.append_assoc] at h
    exact Or.inr ⟨more, (List.append_inj' h rfl).1⟩

/-- What follows an open parenthesis leaves it open if it never closes more
than it opens. -/
theorem not_closedBy_iff :
    ¬ ClosedBy tokens ↔ ∀ front rest, tokens = front ++ rest →
      0 ≤ nesting front := by
  constructor
  · intro hopen
    induction tokens using List.reverseRecOn with
    | nil =>
        intro front rest h
        obtain ⟨rfl, -⟩ := List.append_eq_nil_iff.mp h.symm
        simp
    | append_singleton tokens last ih =>
        have hbefore := ih fun hclosed => hopen (hclosed.append [last])
        intro front rest h
        rcases front_cases h with rfl | ⟨more, hfront⟩
        · -- the whole: if it went below zero, then at its last token
          have htokens := hbefore tokens [] (by simp)
          rcases last.nesting_cases with hlast | ⟨hkind, hlast⟩
          · simp only [nesting_append, nesting_cons, nesting_nil]
            omega
          · by_contra hneg
            simp only [nesting_append, nesting_cons, nesting_nil] at hneg
            exact hopen ⟨tokens, last, [], rfl, hkind, by omega, hbefore⟩
        · exact hbefore front more hfront
  · rintro hnonneg ⟨inner, closing, after, rfl, hclosing, hinner⟩
    have hfront := hnonneg (inner ++ [closing]) after (by simp)
    simp [hinner.total, Token.nesting_close hclosing] at hfront

namespace Balanced

theorem not_closedBy (h : Balanced tokens) : ¬ ClosedBy tokens :=
  not_closedBy_iff.mpr h.nonneg

/-- Every parenthesis that is opened is closed. -/
theorem closedBy (h : Balanced (earlier ++ opening :: rest))
    (hkind : opening.kind = .leftParen) : ClosedBy rest := by
  by_contra hopen
  have hrest := not_closedBy_iff.mp hopen rest [] (by simp)
  have hearlier := h.nonneg earlier (opening :: rest) rfl
  have htotal := h.total
  simp only [nesting_append, nesting_cons, Token.nesting_open hkind] at htotal
  omega

-- ========================================================= what is balanced

theorem nil : Balanced [] :=
  ⟨rfl, fun front rest h => by simp [(List.append_eq_nil_iff.mp h.symm).1]⟩

/-- Balanced parts one after the other are balanced. -/
theorem append (hfront : Balanced front) (hrest : Balanced rest) :
    Balanced (front ++ rest) := by
  refine ⟨by simp [hfront.total, hrest.total], fun left right h => ?_⟩
  rcases List.append_eq_append_iff.mp h with ⟨middle, rfl, hmiddle⟩
    | ⟨middle, hleft, -⟩
  · have := hrest.nonneg middle right hmiddle
    simpa [hfront.total] using this
  · exact hfront.nonneg left middle hleft

/-- A token that is no parenthesis is balanced. -/
theorem single (hopen : token.kind ≠ .leftParen)
    (hclose : token.kind ≠ .rightParen) :
    Balanced [token] := by
  have htoken := Token.nesting_other hopen hclose
  refine ⟨by simp [htoken], fun front rest h => ?_⟩
  have hsplit : [] ++ [token] = front ++ rest := h
  rcases front_cases hsplit with rfl | ⟨more, hfront⟩
  · simp [htoken]
  · rw [(List.append_eq_nil_iff.mp hfront.symm).1]
    simp

/-- A balanced part in brackets is balanced. -/
theorem group (hopening : opening.kind = .leftParen) (hinner : Balanced inner)
    (hclosing : closing.kind = .rightParen) :
    Balanced (opening :: inner ++ [closing]) := by
  have hup := Token.nesting_open hopening
  have hdown := Token.nesting_close hclosing
  refine ⟨by simp [hup, hdown, hinner.total], fun front rest h => ?_⟩
  rcases front_cases h with rfl | ⟨more, hfront⟩
  · simp [hup, hdown, hinner.total]
  · cases front with
    | nil => simp
    | cons first front =>
        obtain ⟨rfl, hbehind⟩ := List.cons.inj hfront
        have := hinner.nonneg front more hbehind
        simp only [nesting_cons, hup]
        omega

end Balanced

-- ============================================================= what is open

/-- Of two places in a list one is the other, or stands behind it. -/
theorem append_cons_cases {before after : List Token} {here there : Token}
    (h : front ++ here :: rest = before ++ there :: after) :
    (front = before ∧ here = there ∧ rest = after)
      ∨ (∃ middle, rest = middle ++ there :: after)
      ∨ ∃ middle, after = middle ++ here :: rest := by
  rcases List.append_eq_append_iff.mp h with ⟨middle, rfl, hmiddle⟩
    | ⟨middle, rfl, hmiddle⟩
  · cases middle with
    | nil => exact Or.inl (by simpa using hmiddle)
    | cons first middle =>
        exact Or.inr (Or.inl ⟨middle, (List.cons.inj hmiddle).2⟩)
  · cases middle with
    | nil => exact Or.inl (by simpa [eq_comm] using hmiddle)
    | cons first middle =>
        exact Or.inr (Or.inr ⟨middle, (List.cons.inj hmiddle).2⟩)

namespace Opens

variable {read earlier' inner' : List Token} {opening' : Token}

/-- Where all is balanced nothing is open. -/
theorem not_balanced (h : Opens read earlier opening inner) :
    ¬ Balanced read := by
  intro hread
  obtain ⟨rfl, hkind, hinner⟩ := h
  exact hinner.not_closedBy (hread.closedBy hkind)

/-- At most one parenthesis is the innermost that is open. -/
theorem unique (h : Opens read earlier opening inner)
    (h' : Opens read earlier' opening' inner') :
    earlier = earlier' ∧ opening = opening' ∧ inner = inner' := by
  -- if one stood before the other, the latter would be open in what the
  -- former has balanced behind it
  rcases append_cons_cases (h.eq.symm.trans h'.eq) with
    hsame | ⟨middle, hinner⟩ | ⟨middle, hinner⟩
  · exact hsame
  · have hopens : Opens inner middle opening' inner' :=
      ⟨hinner, h'.kind, h'.balanced⟩
    exact absurd h.balanced hopens.not_balanced
  · have hopens : Opens inner' middle opening inner :=
      ⟨hinner, h.kind, h.balanced⟩
    exact absurd h'.balanced hopens.not_balanced

end Opens

-- ============================================================== own commas

/-- Where the commas of the rest count is told by how deep the front ended.
-/
theorem commasAt_append (depth : Int) (front rest : List Token) :
    commasAt depth (front ++ rest)
      = commasAt depth front + commasAt (depth + nesting front) rest := by
  induction front generalizing depth with
  | nil => simp [commasAt]
  | cons token front ih =>
      simp only [List.cons_append, commasAt, ih, nesting_cons, Nat.add_assoc,
        Int.add_assoc]

/-- Behind a balanced stretch the commas are counted as before it. -/
theorem ownCommas_append (hfront : Balanced front) (rest : List Token) :
    ownCommas (front ++ rest) = ownCommas front + ownCommas rest := by
  simp [ownCommas, commasAt_append, hfront.total]

/-- Inside parentheses no comma is counted. -/
theorem commasAt_inside {depth : Int} (hdepth : 0 < depth)
    (h : ∀ front rest, tokens = front ++ rest → 0 ≤ nesting front) :
    commasAt depth tokens = 0 := by
  have hpos : ∀ front rest, tokens = front ++ rest →
      0 < depth + nesting front := by
    intro front rest heq
    have := h front rest heq
    omega
  clear h hdepth
  induction tokens generalizing depth with
  | nil => rfl
  | cons token tokens ih =>
      have hhere := hpos [] (token :: tokens) rfl
      have hrest : commasAt (depth + token.nesting) tokens = 0 := by
        refine ih fun front rest heq => ?_
        have := hpos (token :: front) rest (by simp [heq])
        simpa [Int.add_assoc] using this
      simp only [nesting_nil] at hhere
      simp only [commasAt, hrest]
      simp
      omega

theorem ownCommas_group (hopening : opening.kind = .leftParen)
    (hinner : Balanced inner) (hclosing : closing.kind = .rightParen) :
    ownCommas (opening :: inner ++ [closing]) = 0 := by
  have hinside : commasAt 1 inner = 0 :=
    commasAt_inside (by decide) hinner.nonneg
  simp [ownCommas, commasAt, commasAt_append, hopening, hclosing,
    Token.nesting_open hopening, hinside]

theorem ownCommas_single (token : Token) :
    ownCommas [token] = if token.kind = .comma then 1 else 0 := by
  simp [ownCommas, commasAt]

end Reckoner

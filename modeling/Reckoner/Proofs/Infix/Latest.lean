/-
The latest token of a bracket level.

Looking back from a place among tokens over operands, functions and whole
pairs of parentheses (`Quiet`), one meets an operator or a comma of the same
level, or the parenthesis that this level stands in, or else the beginning.
What is met is the latest token of the level (`Latest`); there is at most
one (`Latest.unique`), and where every closing parenthesis has something to
close, there is one unless all is quiet (`quiet_or_latest`).
-/
import Reckoner.Proofs.Infix.Nesting

namespace Reckoner

-- ========================================================= the definitions

/-- Operands, functions and whole pairs of parentheses: tokens among which no
operator and no comma stands at their own level. -/
inductive Quiet : List Token → Prop where
  | nil : Quiet []
  | single {front token} (h : Quiet front)
      (hkind : token.kind = .number ∨ token.kind = .identifier
        ∨ token.kind = .function) :
      Quiet (front ++ [token])
  | group {front opening inner closing} (h : Quiet front)
      (hopening : opening.kind = .leftParen) (hinner : Balanced inner)
      (hclosing : closing.kind = .rightParen) :
      Quiet (front ++ (opening :: inner ++ [closing]))

/-- `token` is the latest operator or comma of the level that `read` ends in,
or the parenthesis that opened this level; `earlier` stands before it and
`between` behind it. -/
structure Latest (read earlier : List Token) (token : Token)
    (between : List Token) :
    Prop where
  eq : read = earlier ++ token :: between
  kind : token.kind = .operator ∨ token.kind = .comma ∨ token.kind = .leftParen
  quiet : Quiet between

-- =============================================================== the quiet

variable {tokens front rest read earlier between more : List Token}
  {token : Token}

/-- A member of a list stands before the last or is it. -/
theorem middle_or_last {last : Token}
    (h : tokens ++ [last] = front ++ token :: rest) :
    (∃ more, tokens = front ++ token :: more) ∨ last = token := by
  rcases List.eq_nil_or_concat rest with rfl | ⟨rest, final, rfl⟩
  · obtain ⟨-, hsame⟩ := List.append_inj' h rfl
    exact Or.inr (List.cons.inj hsame).1
  · rw [List.concat_eq_append, ← List.cons_append, ← List.append_assoc] at h
    exact Or.inl ⟨rest, (List.append_inj' h rfl).1⟩

/-- What stands in a pair of parentheses is at least one deep. -/
theorem nesting_pos_of_group {opening closing : Token} {inner : List Token}
    (hopening : opening.kind = .leftParen) (hinner : Balanced inner)
    (hclosing : closing.kind = .rightParen)
    (heq : opening :: inner ++ [closing] = front ++ token :: rest)
    (hkind : token.kind = .operator ∨ token.kind = .comma) :
    0 < nesting front := by
  cases front with
  | nil =>
      obtain ⟨rfl, -⟩ := List.cons.inj heq
      simp [hopening] at hkind
  | cons first front =>
      obtain ⟨rfl, hinside⟩ := List.cons.inj heq
      rcases middle_or_last hinside with ⟨more, hfront⟩ | rfl
      · have hnonneg := hinner.nonneg front _ hfront
        rw [nesting_cons, Token.nesting_open hopening]
        omega
      · simp [hclosing] at hkind

namespace Quiet

theorem balanced (h : Quiet tokens) : Balanced tokens := by
  induction h with
  | nil => exact .nil
  | single _ hkind ih =>
      apply ih.append
      rcases hkind with hkind | hkind | hkind <;>
        exact Balanced.single (by simp [hkind]) (by simp [hkind])
  | group _ hopening hinner hclosing ih =>
      exact ih.append (Balanced.group hopening hinner hclosing)

theorem append (h : Quiet tokens) (hmore : Quiet more) :
    Quiet (tokens ++ more) := by
  induction hmore with
  | nil =>
      rw [List.append_nil]
      exact h
  | single _ hkind ih =>
      rw [← List.append_assoc]
      exact ih.single hkind
  | group _ hopening hinner hclosing ih =>
      rw [← List.append_assoc]
      exact ih.group hopening hinner hclosing

/-- An operator or a comma among them stands in parentheses of theirs. -/
theorem nesting_pos (h : Quiet tokens) (heq : tokens = front ++ token :: rest)
    (hkind : token.kind = .operator ∨ token.kind = .comma) :
    0 < nesting front := by
  induction h generalizing front rest with
  | nil => simp at heq
  | single _ hlast ih =>
      rcases middle_or_last heq with ⟨more, hbefore⟩ | rfl
      · exact ih hbefore
      · rcases hlast with h | h | h <;> simp [h] at hkind
  | group hquiet hopening hinner hclosing ih =>
      rcases List.append_eq_append_iff.mp heq with
        ⟨middle, rfl, hmiddle⟩ | ⟨middle, hbefore, hmiddle⟩
      · -- behind the quiet part: in the pair of parentheses
        rw [nesting_append, hquiet.balanced.total, Int.zero_add]
        exact nesting_pos_of_group hopening hinner hclosing hmiddle hkind
      · cases middle with
        | nil =>
            obtain ⟨rfl, -⟩ := List.cons.inj hmiddle
            simp [hopening] at hkind
        | cons first middle =>
            obtain ⟨rfl, -⟩ := List.cons.inj hmiddle
            exact ih hbefore

end Quiet

-- ============================================================== the latest

namespace Latest

variable {earlier' between' : List Token} {token' : Token}

theorem append (h : Latest read earlier token between) (hmore : Quiet more) :
    Latest (read ++ more) earlier token (between ++ more) :=
  ⟨by simp [h.eq], h.kind, h.quiet.append hmore⟩

/-- Behind the latest token there is none. -/
theorem not_behind (h : Latest read earlier token between)
    {middle : List Token}
    (hkind : token'.kind = .operator ∨ token'.kind = .comma
      ∨ token'.kind = .leftParen)
    (hquiet : Quiet between') : between ≠ middle ++ token' :: between' := by
  intro heq
  have hbalanced := h.quiet.balanced
  have htotal := hbalanced.total
  rw [heq, nesting_append, nesting_cons, hquiet.balanced.total] at htotal
  rcases hkind with hkind | hkind | hkind
  · have hpos := h.quiet.nesting_pos heq (Or.inl hkind)
    rw [Token.nesting_other (by simp [hkind]) (by simp [hkind])] at htotal
    omega
  · have hpos := h.quiet.nesting_pos heq (Or.inr hkind)
    rw [Token.nesting_other (by simp [hkind]) (by simp [hkind])] at htotal
    omega
  · have hnonneg := hbalanced.nonneg middle _ heq
    rw [Token.nesting_open hkind] at htotal
    omega

/-- There is at most one latest token. -/
theorem unique (h : Latest read earlier token between)
    (h' : Latest read earlier' token' between') :
    earlier = earlier' ∧ token = token' := by
  rcases append_cons_cases (h.eq.symm.trans h'.eq) with
    ⟨rfl, rfl, -⟩ | ⟨middle, hbetween⟩ | ⟨middle, hbetween⟩
  · exact ⟨rfl, rfl⟩
  · exact absurd hbetween (h.not_behind h'.kind h'.quiet)
  · exact absurd hbetween (h'.not_behind h.kind h.quiet)

end Latest

/-- Where every closing parenthesis closes something, all is quiet or there
is a latest token: by recursion on the tokens, past a pair of parentheses at
their end. -/
theorem quiet_or_latest (read : List Token)
    (hclosings : ∀ before closing after, read = before ++ closing :: after →
      closing.kind = .rightParen →
      ∃ earlier opening inner, Opens before earlier opening inner) :
    Quiet read ∨ ∃ earlier token between,
      Latest read earlier token between := by
  rcases List.eq_nil_or_concat read with rfl | ⟨before, last, hread⟩
  · exact Or.inl .nil
  rw [List.concat_eq_append] at hread
  -- what is known of a shorter front carries over, with quiet tokens behind
  -- it
  have hback : ∀ front more, read = front ++ more → Quiet more →
      front.length < read.length →
      Quiet read ∨ ∃ earlier token between,
        Latest read earlier token between := by
    rintro front more heq hmore hshorter
    have hfront : ∀ before closing after, front = before ++ closing :: after →
        closing.kind = .rightParen →
        ∃ earlier opening inner, Opens before earlier opening inner :=
      fun before closing after hsplit =>
        hclosings before closing (after ++ more) (by simp [heq, hsplit])
    rcases quiet_or_latest front hfront with hquiet
      | ⟨earlier, token, between, hlatest⟩
    · exact Or.inl (heq ▸ hquiet.append hmore)
    · exact Or.inr ⟨earlier, token, _, heq ▸ hlatest.append hmore⟩
  have hshorter : before.length < read.length := by simp [hread]
  cases hkind : last.kind with
  | number | identifier | function =>
      exact hback before [last] hread (Quiet.single .nil (by simp [hkind]))
        hshorter
  | operator | comma | leftParen =>
      exact Or.inr ⟨before, last, [], hread, by simp [hkind], .nil⟩
  | rightParen =>
      obtain ⟨earlier, opening, inner, hopens⟩ :=
        hclosings before last [] hread hkind
      -- the pair of brackets is skipped as a whole
      apply hback earlier (opening :: inner ++ [last])
      · simp [hread, hopens.eq]
      · exact Quiet.group .nil hopens.kind hopens.balanced hkind
      · rw [hopens.eq, List.length_append] at hshorter
        omega
termination_by read.length

end Reckoner

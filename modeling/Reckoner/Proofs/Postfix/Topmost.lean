/-
What lies on top of the stack.

The converter works above the parenthesis that it is in: as long as that is
not closed, what lies below stays (`Above.feed`), and when it is closed only
the function of the call goes as well (`stack_of_group`). Operands and whole
pairs of parentheses so leave the stack as it was (`stack_of_quiet`), and
what lies on top of it is a matter of the latest token of the level: the
operator itself, if it is one, as it stands in a postfix form; and else no
operator at all (`operator_on_top`, `nothing_on_top`,
`latest_of_operator_on_top`).
-/
import Reckoner.Proofs.Infix.Latest
import Reckoner.Proofs.Postfix.Records
import Reckoner.Proofs.Postfix.Rearrangement
import Reckoner.Proofs.Postfix.Substitution

namespace Reckoner.Converter

variable {g : Grammar} {c c' : Converter} {token opening : Token}
variable {tokens out base stack : List Token}

-- =============================================== above an open parenthesis

/-- What waits lies above the parenthesis `opening`, which lies above
`base`, and has as many open parentheses as `depth` says. -/
def Above (opening : Token) (base : List Token) (depth : Int)
    (stack : List Token) : Prop :=
  ∃ above, stack = above ++ opening :: base ∧ (openings above : Int) = depth

namespace Above

variable {depth : Int}

theorem start (opening : Token) (base : List Token) :
    Above opening base 0 (opening :: base) :=
  ⟨[], rfl, rfl⟩

theorem push (h : Above opening base depth stack)
    (hinside : isInside token = true) :
    Above opening base depth (token :: stack) := by
  obtain ⟨above, rfl, hdepth⟩ := h
  exact ⟨token :: above, rfl, by rwa [openings_cons_inside hinside]⟩

private theorem nest (h : Above opening base depth stack)
    (hkind : token.kind = .leftParen) :
    Above opening base (depth + 1) (token :: stack) := by
  obtain ⟨above, rfl, hdepth⟩ := h
  refine ⟨token :: above, rfl, ?_⟩
  rw [openings_cons_open hkind]
  omega

section Cutting

variable (hopening : opening.kind = .leftParen)
include hopening

/-- What stands in no parenthesis of its own may go. -/
theorem cut {front kept : List Token}
    (h : Above opening base depth (front ++ kept))
    (hinside : ∀ t ∈ front, isInside t = true) :
    Above opening base depth kept := by
  obtain ⟨above, heq, hdepth⟩ := h
  have hnone := openings_eq_zero_iff.mpr hinside
  rcases List.append_eq_append_iff.mp heq with ⟨middle, rfl, hkept⟩
    | ⟨middle, rfl, hmiddle⟩
  · rw [openings_append, hnone, Nat.zero_add] at hdepth
    exact ⟨middle, hkept, hdepth⟩
  · cases middle with
    | nil =>
        rw [List.append_nil] at hnone
        rw [hnone] at hdepth
        exact ⟨[], hmiddle.symm, hdepth⟩
    | cons first middle =>
        obtain ⟨rfl, -⟩ := List.cons.inj hmiddle
        have hin := hinside opening (by simp)
        rw [isInside_iff] at hin
        exact absurd hopening hin

/-- A parenthesis above `opening` is closed before it. -/
theorem close {top : Token} {below : List Token}
    (h : Above opening base depth (top :: below))
    (htop : top.kind = .leftParen) (hdepth : 0 < depth) :
    Above opening base (depth - 1) (splitCalled below).2 := by
  obtain ⟨above, heq, hopenings⟩ := h
  cases above with
  | nil =>
      have hzero : (0 : Int) = depth := hopenings
      omega
  | cons first above =>
      obtain ⟨rfl, hbelow⟩ := List.cons.inj heq
      have hbelow : below = above ++ opening :: base := hbelow
      rw [openings_cons_open htop] at hopenings
      rw [hbelow, splitCalled_enclosed hopening]
      refine ⟨(splitCalled above).2, rfl, ?_⟩
      rw [openings_splitCalled]
      omega

/-- A move that does not close `opening` leaves what lies below. -/
theorem move (h : Above opening base depth c.stack)
    (hmove : Moves g c token out c') (hdepth : 0 ≤ depth + token.nesting) :
    Above opening base (depth + token.nesting) c'.stack := by
  -- only brackets change the depth
  have hother : ∀ {kind : TokenKind}, token.kind = kind → kind ≠ .leftParen →
      kind ≠ .rightParen → depth + token.nesting = depth := by
    rintro kind rfl hopen hclose
    rw [Token.nesting_other hopen hclose, Int.add_zero]
  cases hmove with
  | operand _ hkind =>
      rcases hkind with hkind | hkind
      · rw [hother hkind (by decide) (by decide)]
        exact h
      · rw [hother hkind (by decide) (by decide)]
        exact h
  | function _ hkind _ =>
      rw [hother hkind (by decide) (by decide)]
      exact h.push (by simp [isInside, hkind])
  | minus hminus _ _ =>
      rw [hother (Token.kind_of_meant? hminus) (by decide) (by decide)]
      exact h.push rfl
  | operator _ hop _ _ hsplit =>
      have hkind := Token.kind_of_meant? hop
      rw [hother hkind (by decide) (by decide)]
      dsimp only at h
      rw [← splitYielding_append hsplit] at h
      have hkept := h.cut hopening (isInside_of_splitYielding hsplit)
      exact hkept.push (by simp [isInside, Token.kind_carrying, hkind])
  | @comma stack _ _ _ _ hkind =>
      rw [hother hkind (by decide) (by decide)]
      dsimp only at h
      rw [← List.takeWhile_append_dropWhile (p := isInside) (l := stack)] at h
      exact h.cut hopening (isInside_takeWhile stack)
  | opening hkind =>
      rw [Token.nesting_open hkind]
      exact h.nest hkind
  | closing _ hkind hinner htop _ =>
      rw [Token.nesting_close hkind] at hdepth ⊢
      -- the depth stays at zero or above, so it is not `opening` that is
      -- closed
      exact (h.cut hopening hinner).close hopening htop (by omega)

/-- So does a run. -/
theorem feed (h : Above opening base depth c.stack)
    (hfeed : Converter.feed g c tokens = .ok (out, c'))
    (hdepth : ∀ front rest, tokens = front ++ rest →
      0 ≤ depth + nesting front) :
    Above opening base (depth + nesting tokens) c'.stack := by
  induction tokens generalizing depth c out with
  | nil =>
      cases hfeed
      rw [nesting_nil, Int.add_zero]
      exact h
  | cons token rest ih =>
      obtain ⟨first, middle, more, hmove, hrest, -⟩ :=
        feed_cons_eq_ok_iff.mp hfeed
      have hfirst : 0 ≤ depth + token.nesting := by
        have hfront := hdepth [token] rest rfl
        rwa [nesting_cons, nesting_nil, Int.add_zero] at hfront
      rw [nesting_cons, ← Int.add_assoc]
      apply ih (h.move hopening hmove hfirst) hrest
      intro front behind heq
      have hfront :=
        hdepth (token :: front) behind (by rw [heq, List.cons_append])
      rwa [nesting_cons, ← Int.add_assoc] at hfront

end Cutting

end Above

-- ============================================================== the groups

/-- The function that was just read, if the last token is one. -/
def fresh (previous : Option Token) : List Token :=
  (previous.filter (·.kind == .function)).toList

private theorem fresh_of_idle {previous : Option Token} (h : Idle previous) :
    fresh previous = [] := by
  rw [fresh, filter_of_idle h]
  rfl

/-- What a step leaves on top of the stack, by the kind of its token. -/
def Leaves (c : Converter) (token : Token) (c' : Converter) : Prop :=
  match token.kind with
  | .number | .identifier | .function =>
      Idle c.previous ∧ c'.stack = fresh (some token) ++ c.stack
  | .operator => ∃ kept, c'.stack = token.settled c.previous :: kept
  | .comma => ∀ top ∈ c'.stack.head?, top.kind = .leftParen
  | .leftParen => c'.stack = token :: c.stack
  | .rightParen =>
      Idle c.previous ∧ ∃ inner top below, c.stack = inner ++ top :: below
        ∧ (∀ t ∈ inner, isInside t = true) ∧ top.kind = .leftParen
        ∧ c'.stack = (splitCalled below).2

private theorem leaves_of_moves (h : Moves g c token out c') :
    Leaves c token c' := by
  unfold Leaves
  cases h with
  | operand hidle hkind =>
      rcases hkind with hkind | hkind <;>
        simpa [hkind, fresh, Option.filter] using hidle
  | function hidle hkind _ => simpa [hkind, fresh, Option.filter] using hidle
  | minus hminus hplace _ =>
      rw [Token.kind_of_meant? hminus]
      exact ⟨_, by rw [Token.settled_minus hminus hplace]⟩
  | operator _ hop _ hplace _ =>
      rw [Token.kind_of_meant? hop]
      exact ⟨_, by rw [Token.settled_operator hop hplace]⟩
  | comma _ hkind =>
      rw [hkind]
      intro top htop
      obtain ⟨below, hbelow⟩ := List.head?_eq_some_iff.mp htop
      exact kind_of_dropWhile hbelow
  | opening hkind => rw [hkind]
  | closing hidle hkind hinner htop _ =>
      rw [hkind]
      exact ⟨hidle, _, _, _, rfl, hinner, htop, rfl⟩

/-- Of a whole pair of parentheses nothing is left, and the function of the
call is gone. -/
theorem stack_of_group {inner : List Token} {closing : Token}
    (hopening : opening.kind = .leftParen) (hinner : Balanced inner)
    (hclosing : closing.kind = .rightParen)
    (h : feed g c (opening :: inner ++ [closing]) = .ok (out, c')) :
    c'.previous = some closing ∧ c'.stack = (splitCalled c.stack).2 := by
  obtain ⟨first, opened, more, hopen, hrest, -⟩ := feed_cons_eq_ok_iff.mp h
  obtain ⟨between, reached, last, hfeed, hmove, -⟩ :=
    feed_concat_eq_ok_iff.mp hrest
  have hopened := leaves_of_moves hopen
  rw [Leaves, hopening] at hopened
  have hstart : Above opening c.stack 0 opened.stack := by
    rw [hopened]
    exact .start opening c.stack
  have habove := hstart.feed hopening hfeed fun front behind heq => by
    rw [Int.zero_add]
    exact hinner.nonneg front behind heq
  rw [hinner.total, Int.add_zero] at habove
  -- so the parenthesis that is closed is `opening`
  have hclosed := leaves_of_moves hmove
  rw [Leaves, hclosing] at hclosed
  obtain ⟨-, waiting, top, below, hstack, hwaiting, htop, hleft⟩ := hclosed
  refine ⟨previous_of_moves hmove, ?_⟩
  rw [hstack] at habove
  obtain ⟨above, heq, hdepth⟩ := habove.cut hopening hwaiting
  cases above with
  | nil =>
      obtain ⟨-, rfl⟩ := List.cons.inj heq
      exact hleft
  | cons next above =>
      obtain ⟨rfl, -⟩ := List.cons.inj heq
      rw [openings_cons_open htop] at hdepth
      omega

-- ============================================================== the levels

private theorem splitCalled_fresh {parens : List OpenParen}
    {previous : Option Token}
    (h : Aligned stack parens) :
    (splitCalled (fresh previous ++ stack)).2 = stack := by
  unfold fresh
  cases hfunction : previous.filter (·.kind == .function) with
  | none => exact congrArg Prod.snd h.splitCalled_eq
  | some function =>
      rw [Option.filter_eq_some_iff, beq_iff_eq] at hfunction
      show (splitCalled (function :: stack)).2 = stack
      rw [splitCalled, if_pos hfunction.2]

/-- Operands, functions and whole pairs of parentheses leave the stack as it
was, but for a function that was just read. -/
theorem stack_of_quiet (hquiet : Quiet tokens) (hstep : InStep c)
    (h : feed g c tokens = .ok (out, c')) :
    ∃ stack, c.stack = fresh c.previous ++ stack
      ∧ c'.stack = fresh c'.previous ++ stack := by
  induction hquiet generalizing out c' with
  | nil =>
      cases h
      obtain ⟨stack, hstack, -⟩ := hstep
      exact ⟨stack, hstack, hstack⟩
  | single _ hkind ih =>
      obtain ⟨before, middle, after, hfront, hmove, -⟩ :=
        feed_concat_eq_ok_iff.mp h
      obtain ⟨stack, hstack, hmiddle⟩ := ih hfront
      obtain ⟨hidle, hafter⟩ : Idle middle.previous
          ∧ c'.stack = fresh (some _) ++ middle.stack := by
        have hleaves := leaves_of_moves hmove
        rcases hkind with hkind | hkind | hkind <;> rwa [Leaves, hkind]
          at hleaves
      rw [fresh_of_idle hidle, List.nil_append] at hmiddle
      refine ⟨stack, hstack, ?_⟩
      rw [hafter, hmiddle, previous_of_moves hmove]
  | group _ hopening hinner hclosing ih =>
      obtain ⟨before, middle, after, hfront, hgroup, -⟩ :=
        feed_append_eq_ok_iff.mp h
      obtain ⟨stack, hstack, hmiddle⟩ := ih hfront
      obtain ⟨hprevious, hafter⟩ :=
        stack_of_group hopening hinner hclosing hgroup
      obtain ⟨below, hbelow, haligned⟩ := hstep.feed hfront
      obtain rfl : stack = below :=
        List.append_cancel_left (hmiddle.symm.trans hbelow)
      have hidle : Idle c'.previous := by
        rw [hprevious]
        rintro last ⟨⟩ hfunction
        simp [hclosing] at hfunction
      refine ⟨stack, hstack, ?_⟩
      rw [hafter, hmiddle, splitCalled_fresh haligned, fresh_of_idle hidle,
        List.nil_append]

section Reading

variable {read earlier between : List Token}

/-- What lies on the stack after the latest token of the level does so still
where no function waits. -/
theorem exists_moves_of_latest (hfeed : feed g {} read = .ok (out, c))
    (hlatest : Latest read earlier token between) (hidle : Idle c.previous) :
    ∃ before after more, before.previous = earlier.getLast?
      ∧ Moves g before token more after ∧ c.stack = after.stack := by
  rw [hlatest.eq] at hfeed
  obtain ⟨_, before, _, hearlier, hrest, -⟩ := feed_append_eq_ok_iff.mp hfeed
  obtain ⟨more, after, _, hmove, hbetween, -⟩ := feed_cons_eq_ok_iff.mp hrest
  have hstep : InStep after := (inStep_start.feed hearlier).move hmove
  obtain ⟨stack, hafter, hstack⟩ := stack_of_quiet hlatest.quiet hstep hbetween
  have hnext : Idle after.previous := by
    rw [previous_of_moves hmove]
    rintro last ⟨⟩ hfunction
    simpa [hfunction] using hlatest.kind
  rw [fresh_of_idle hnext] at hafter
  rw [fresh_of_idle hidle] at hstack
  exact ⟨before, after, more, previous_of_feed hearlier, hmove,
    hstack.trans hafter.symm⟩

/-- If the latest token of the level is an operator, it lies on top. -/
theorem operator_on_top (hfeed : feed g {} read = .ok (out, c))
    (hlatest : Latest read earlier token between)
    (hkind : token.kind = .operator) (hidle : Idle c.previous) :
    ∃ kept, c.stack = token.settled earlier.getLast? :: kept := by
  obtain ⟨before, after, more, hprevious, hmove, hstack⟩ :=
    exists_moves_of_latest hfeed hlatest hidle
  have hleaves := leaves_of_moves hmove
  rw [Leaves, hkind, hprevious] at hleaves
  rw [hstack]
  exact hleaves

/-- What is closed was open. -/
theorem opens_of_feed (hfeed : feed g {} read = .ok (out, c))
    {before after : List Token} {closing : Token}
    (heq : read = before ++ closing :: after)
    (hkind : closing.kind = .rightParen) :
    ∃ earlier opening inner, Opens before earlier opening inner := by
  rw [heq] at hfeed
  obtain ⟨_, middle, _, hbefore, hrest, -⟩ := feed_append_eq_ok_iff.mp hfeed
  obtain ⟨_, _, _, hmove, -, -⟩ := feed_cons_eq_ok_iff.mp hrest
  have hfollows : Follows before middle := .of_feed hbefore
  have hleaves := leaves_of_moves hmove
  rw [Leaves, hkind] at hleaves
  obtain ⟨hidle, inner, top, below, hstack, -, htop, -⟩ := hleaves
  rcases hfollows.open_cases hidle with ⟨-, -, hinside⟩
    | ⟨earlier, opening, inner, _, hopens, -⟩
  · have hin := hinside top (by simp [hstack])
    rw [isInside_iff] at hin
    exact absurd htop hin
  · exact ⟨earlier, opening, inner, hopens⟩

/-- And if it is not, no operator does. -/
theorem nothing_on_top (hfeed : feed g {} read = .ok (out, c))
    (hnone : ∀ earlier token between, Latest read earlier token between →
      token.kind ≠ .operator) (hidle : Idle c.previous) :
    ∀ top ∈ c.stack.head?, top.kind = .leftParen := by
  rcases quiet_or_latest read
      fun before closing after heq => opens_of_feed hfeed heq with
    hquiet | ⟨earlier, token, between, hlatest⟩
  · obtain ⟨stack, hempty, hstack⟩ := stack_of_quiet hquiet inStep_start hfeed
    obtain rfl : [] = stack := hempty
    rw [hstack, fresh_of_idle hidle]
    nofun
  · obtain ⟨before, after, more, -, hmove, hstack⟩ :=
      exists_moves_of_latest hfeed hlatest hidle
    have hleaves := leaves_of_moves hmove
    unfold Leaves at hleaves
    rw [hstack]
    rcases hlatest.kind with hkind | hkind | hkind
    · exact absurd hkind (hnone earlier token between hlatest)
    · rw [hkind] at hleaves
      exact hleaves
    · rw [hkind] at hleaves
      rw [hleaves]
      rintro top ⟨⟩
      exact hkind

/-- So an operator that lies on top is the latest token of its level. -/
theorem latest_of_operator_on_top (hfeed : feed g {} read = .ok (out, c))
    (hidle : Idle c.previous) {top : Token} (htop : top ∈ c.stack.head?)
    (hkind : top.kind = .operator) :
    ∃ earlier token between, Latest read earlier token between
      ∧ token.kind = .operator
      ∧ top = token.settled earlier.getLast? := by
  by_cases hlatest : ∃ earlier token between, Latest read earlier token between
      ∧ token.kind = .operator
  · obtain ⟨earlier, token, between, hlatest, hoperator⟩ := hlatest
    obtain ⟨kept, hstack⟩ := operator_on_top hfeed hlatest hoperator hidle
    rw [hstack] at htop
    exact ⟨earlier, token, between, hlatest, hoperator,
      (Option.some.inj htop).symm⟩
  · have hparen := nothing_on_top hfeed
      (fun earlier token between hl hk =>
        hlatest ⟨earlier, token, between, hl, hk⟩)
      hidle top htop
    rw [hkind] at hparen
    cases hparen

end Reading

end Reckoner.Converter

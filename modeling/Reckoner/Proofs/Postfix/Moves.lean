/-
The moves of the converter.

A step that succeeds is one of seven moves, told apart by the token that
is read and by what is found on the stack. Each of them is said here in
full: what was there before, what is put out, what is there afterwards
(`Moves`). A step does nothing else (`step_eq_ok_iff`), so whatever holds
of all steps is shown of the moves one by one, and whatever is to be a
step is built as one of them.
-/
import Reckoner.Proofs.Postfix.Emission
import Reckoner.Proofs.Postfix.Waiting

namespace Reckoner.Converter

-- ================================================================ the moves

/-- No function waits for its parenthesis. -/
def Idle (previous : Option Token) : Prop :=
  ∀ last ∈ previous, last.kind ≠ .function

/-- The records once a comma stands in the innermost parenthesis. -/
def counted : List OpenParen → List OpenParen
  | [] => []
  | paren :: outer =>
      { paren with commas := paren.commas + 1, hasArguments := true } :: outer

/-- The ways in which a step succeeds: `Moves g c token out c'` if reading
the token in the state `c` puts out `out` and leaves the state `c'`. -/
inductive Moves (g : Grammar) : Converter → Token → List Token → Converter →
    Prop where
  | operand {stack parens previous token} (hidle : Idle previous)
      (hkind : token.kind = .number ∨ token.kind = .identifier) :
      Moves g ⟨stack, parens, previous⟩ token [token]
        ⟨stack, noted parens, some token⟩
  | function {stack parens previous token} (hidle : Idle previous)
      (hkind : token.kind = .function)
      (hknown : g.functions.contains token.text = true) :
      Moves g ⟨stack, parens, previous⟩ token []
        ⟨token :: stack, noted parens, some token⟩
  | minus {stack parens previous token}
      (hminus : token.meant? = some .subtract)
      (hplace : isUnaryPlace previous = true)
      (hsubtract : g.operators.contains .subtract = true) :
      Moves g ⟨stack, parens, previous⟩ token []
        ⟨token.negating :: stack, noted parens, some token⟩
  | operator {stack parens previous token op spec out kept}
      (hidle : Idle previous)
      (hop : token.meant? = some op) (hspec : g.operators.find? op = some spec)
      (hplace : ¬ (op = .subtract ∧ isUnaryPlace previous = true))
      (hsplit : splitYielding g.operators spec stack = .ok (out, kept)) :
      Moves g ⟨stack, parens, previous⟩ token out
        ⟨token.carrying op :: kept, noted parens, some token⟩
  | comma {stack parens previous token} (hidle : Idle previous)
      (hkind : token.kind = .comma) :
      Moves g ⟨stack, parens, previous⟩ token (stack.takeWhile isInside)
        ⟨stack.dropWhile isInside, counted parens, some token⟩
  | opening {stack parens previous token} (hkind : token.kind = .leftParen) :
      Moves g ⟨stack, parens, previous⟩ token []
        ⟨token :: stack,
          ⟨token, previous.filter (·.kind == .function), 0, false⟩ :: noted
            parens,
          some token⟩
  | closing {inner top below record outer previous token}
      (hidle : Idle previous)
      (hkind : token.kind = .rightParen)
        (hinner : ∀ t ∈ inner, isInside t = true)
      (htop : top.kind = .leftParen)
        (hcheck : checkArguments g record = .ok ()) :
      Moves g ⟨inner ++ top :: below, record :: outer, previous⟩ token
        (inner ++ (splitCalled below).1)
        ⟨(splitCalled below).2, outer, some token⟩

-- ============================================================ the converter

variable {g : Grammar} {stack : List Token} {parens : List OpenParen}
variable {previous : Option Token} {token : Token}

theorem abandoned?_eq_none_iff {next : Option TokenKind} :
    (⟨stack, parens, previous⟩ : Converter).abandoned? next = none
      ↔ Idle previous ∨ next = some .leftParen := by
  unfold abandoned? Idle
  cases previous with
  | none => simp
  | some last =>
      by_cases hkind : last.kind = .function
      · simp [hkind]
      · simp [hkind]

/-- Where an operand may begin no function waits. -/
theorem idle_of_unary (h : isUnaryPlace previous = true) : Idle previous := by
  intro last hlast hkind
  obtain rfl : previous = some last := hlast
  simp [isUnaryPlace, opensOperand, hkind] at h

/-- An operator token that the handler understands means the operator. -/
theorem meant?_eq (hkind : token.kind = .operator) :
    token.meant? = token.operator.or (Operator.ofText? token.text) := by
  simp [Token.meant?, hkind]

private theorem takeWhile_of_inside {inner below : List Token} {top : Token}
    (hinner : ∀ t ∈ inner, isInside t = true) (htop : top.kind = .leftParen) :
    (inner ++ top :: below).takeWhile isInside = inner := by
  have hstop : isInside top = false := by simp [isInside, htop]
  rw [List.takeWhile_append_of_pos hinner, List.takeWhile_cons, hstop]
  simp

theorem dropWhile_of_inside {inner below : List Token} {top : Token}
    (hinner : ∀ t ∈ inner, isInside t = true) (htop : top.kind = .leftParen) :
    (inner ++ top :: below).dropWhile isInside = top :: below := by
  have hstop : isInside top = false := by simp [isInside, htop]
  rw [List.dropWhile_append_of_pos hinner, List.dropWhile_cons, hstop]
  simp

/-- An operator that the converter accepts is a minus or waits. -/
theorem moves_of_operator {out : List Token} {c : Converter}
    (hidle : Idle previous) (hkind : token.kind = .operator)
    (h : operator g ⟨stack, noted parens, previous⟩ token = .ok (out, c)) :
    Moves g ⟨stack, parens, previous⟩ token out
      { c with previous := some token } := by
  unfold operator at h
  rw [← meant?_eq hkind] at h
  split at h
  · cases h
  · next op hop =>
      split at h
      · cases h
      · next spec hspec =>
          split at h
          · next hunary =>
              cases h
              obtain ⟨rfl, hplace⟩ := hunary
              exact .minus hop hplace (by simp [OperatorTable.contains, hspec])
          · next hplace =>
              split at h
              · cases h
              · next out kept hsplit =>
                  cases h
                  exact .operator hidle hop hspec hplace hsplit

/-- A closing parenthesis that the converter accepts has one to close. -/
theorem moves_of_closeParen {out : List Token} {c : Converter}
    (hidle : Idle previous) (hkind : token.kind = .rightParen)
    (h : closeParen g ⟨stack, parens, previous⟩ token = .ok (out, c)) :
    Moves g ⟨stack, parens, previous⟩ token out
      { c with previous := some token } := by
  unfold closeParen at h
  dsimp only at h
  split at h
  · cases h
  · next top below hdrop =>
      split at h
      · cases h
      · next record outer =>
          split at h
          · cases h
          · next hcheck =>
              cases h
              have hcut := List.takeWhile_append_dropWhile (p := isInside)
                (l := stack)
              rw [hdrop] at hcut
              have hmove :
                  Moves g ⟨_ ++ top :: below, record :: outer, previous⟩ token
                    _ _ :=
                .closing hidle hkind (isInside_takeWhile stack)
                  (kind_of_dropWhile hdrop)
                  hcheck
              rw [hcut] at hmove
              exact hmove

/-- A step that succeeds is a move. -/
theorem moves_of_step {c c' : Converter} {out : List Token}
    (h : step g c token = .ok (out, c')) : Moves g c token out c' := by
  obtain ⟨stack, parens, previous⟩ := c
  obtain ⟨hidle, c'', hhandle, rfl⟩ := handle_of_step h
  rw [abandoned?_eq_none_iff, Option.some_inj] at hidle
  unfold handle at hhandle
  cases hkind : token.kind with
  | number | identifier =>
      rw [noteArgument_eq (by simp [hkind])] at hhandle
      simp only [hkind] at hhandle
      cases hhandle
      exact .operand (hidle.resolve_right (by simp [hkind])) (by simp [hkind])
  | function =>
      rw [noteArgument_eq (by simp [hkind])] at hhandle
      simp only [hkind, function] at hhandle
      split at hhandle
      · next hknown =>
          cases hhandle
          exact .function (hidle.resolve_right (by simp [hkind])) hkind hknown
      · cases hhandle
  | operator =>
      rw [noteArgument_eq (by simp [hkind])] at hhandle
      simp only [hkind] at hhandle
      exact moves_of_operator (hidle.resolve_right (by simp [hkind])) hkind
        hhandle
  | comma =>
      rw [noteArgument_eq (by simp [hkind])] at hhandle
      simp only [hkind, comma] at hhandle
      cases hhandle
      -- the record counts the comma after it has taken note of it
      have hmove : Moves g ⟨stack, parens, previous⟩ token _ _ :=
        .comma (hidle.resolve_right (by simp [hkind])) hkind
      cases parens with
      | nil => exact hmove
      | cons paren outer => exact hmove
  | leftParen =>
      rw [noteArgument_eq (by simp [hkind])] at hhandle
      simp only [hkind, openParen] at hhandle
      cases hhandle
      exact .opening hkind
  | rightParen =>
      rw [noteArgument_close hkind] at hhandle
      simp only [hkind] at hhandle
      exact moves_of_closeParen (hidle.resolve_right (by simp [hkind])) hkind
        hhandle

/-- A move is a step that succeeds. -/
theorem step_of_moves {c c' : Converter} {out : List Token}
    (h : Moves g c token out c') : step g c token = .ok (out, c') := by
  unfold step
  cases h with
  | operand hidle hkind =>
      rw [abandoned?_eq_none_iff.mpr (Or.inl hidle)]
      rcases hkind with hkind | hkind <;> simp [noteArgument_eq, handle, hkind]
  | function hidle hkind hknown =>
      rw [abandoned?_eq_none_iff.mpr (Or.inl hidle)]
      simp [noteArgument_eq, handle, hkind, Converter.function, hknown]
  | minus hminus hplace hsubtract =>
      have hkind := Token.kind_of_meant? hminus
      obtain ⟨spec, hspec⟩ := OperatorTable.find?_of_contains hsubtract
      rw [meant?_eq hkind] at hminus
      rw [abandoned?_eq_none_iff.mpr (Or.inl (idle_of_unary hplace))]
      simp [noteArgument_eq, handle, hkind, Converter.operator, hminus, hspec,
        hplace, Token.negating]
  | operator hidle hop hspec hplace hsplit =>
      have hkind := Token.kind_of_meant? hop
      rw [meant?_eq hkind] at hop
      rw [abandoned?_eq_none_iff.mpr (Or.inl hidle)]
      simp [noteArgument_eq, handle, hkind, Converter.operator, hop, hspec,
        hplace, hsplit, Token.carrying]
  | @comma stack parens _ _ hidle hkind =>
      rw [abandoned?_eq_none_iff.mpr (Or.inl hidle)]
      cases parens <;>
        simp [noteArgument_eq, handle, hkind, Converter.comma, noted, counted]
  | opening hkind =>
      rw [abandoned?_eq_none_iff.mpr (Or.inr (by rw [hkind]))]
      simp [noteArgument_eq, handle, hkind, openParen]
  | closing hidle hkind hinner htop hcheck =>
      rw [abandoned?_eq_none_iff.mpr (Or.inl hidle), noteArgument_close hkind]
      simp [handle, hkind, closeParen, takeWhile_of_inside hinner htop,
        dropWhile_of_inside hinner htop, hcheck]

/-- A token that was read is remembered. -/
theorem previous_of_moves {c c' : Converter} {out : List Token}
    (h : Moves g c token out c') : c'.previous = some token := by
  cases h <;> rfl

-- ================================================================= the runs

/-- A run that succeeds is a move and a run of the rest. -/
theorem feed_cons_eq_ok_iff {c c' : Converter} {rest out : List Token} :
    feed g c (token :: rest) = .ok (out, c')
      ↔ ∃ first middle more, Moves g c token first middle
        ∧ feed g middle rest = .ok (more, c') ∧ out = first ++ more := by
  rw [feed]
  constructor
  · intro h
    split at h
    · cases h
    · next first middle hstep =>
        split at h
        · cases h
        · next more last hrest =>
            cases h
            exact ⟨first, middle, more, moves_of_step hstep, hrest, rfl⟩
  · rintro ⟨first, middle, more, hmove, hrest, rfl⟩
    simp only [step_of_moves hmove, hrest]

/-- A run over two lists of tokens is a run over each. -/
theorem feed_append_eq_ok_iff {c c' : Converter}
    {first second out : List Token} :
    feed g c (first ++ second) = .ok (out, c')
      ↔ ∃ before middle after, feed g c first = .ok (before, middle)
        ∧ feed g middle second = .ok (after, c') ∧ out = before ++ after := by
  rw [feed_append]
  constructor
  · intro h
    split at h
    · cases h
    · next before middle hfirst =>
        split at h
        · cases h
        · next after last hsecond =>
            cases h
            exact ⟨before, middle, after, hfirst, hsecond, rfl⟩
  · rintro ⟨before, middle, after, hfirst, hsecond, rfl⟩
    simp only [hfirst, hsecond]

private theorem feed_singleton_eq_ok_iff {c c' : Converter}
    {out : List Token} :
    feed g c [token] = .ok (out, c') ↔ Moves g c token out c' := by
  rw [feed_cons_eq_ok_iff]
  constructor
  · rintro ⟨first, middle, more, hmove, hrest, rfl⟩
    cases hrest
    rwa [List.append_nil]
  · intro hmove
    exact ⟨out, c', [], hmove, rfl, (List.append_nil out).symm⟩

/-- A run over one token more ends in a move. -/
theorem feed_concat_eq_ok_iff {c c' : Converter} {read out : List Token} :
    feed g c (read ++ [token]) = .ok (out, c')
      ↔ ∃ before middle more, feed g c read = .ok (before, middle)
        ∧ Moves g middle token more c' ∧ out = before ++ more := by
  simp only [feed_append_eq_ok_iff, feed_singleton_eq_ok_iff]

/-- What two lists of tokens put out one after the other. -/
theorem convert_append (c : Converter) (first second : List Token) :
    convert g c (first ++ second) =
      match feed g c first with
      | .error failure => .error failure
      | .ok (out, c') => ahead out (convert g c' second) := by
  unfold convert
  rw [feed_append]
  cases feed g c first with
  | error failure => rfl
  | ok result =>
      obtain ⟨out, c'⟩ := result
      dsimp only
      cases feed g c' second with
      | error failure => rfl
      | ok result' => simp

section Keeping

variable {P : List Token → List Token → Converter → Prop}
  {tokens more : List Token}
variable {c c' : Converter}

private theorem feed_keeps_after {read out : List Token}
    (hkeeps : ∀ {read out c token more c'}, P read out c →
      Moves g c token more c' →
      P (read ++ [token]) (out ++ more) c')
    (h : P read out c) (hfeed : feed g c tokens = .ok (more, c')) :
    P (read ++ tokens) (out ++ more) c' := by
  induction tokens generalizing read out more c with
  | nil =>
      cases hfeed
      simpa using h
  | cons token rest ih =>
      obtain ⟨first, middle, others, hmove, hrest, rfl⟩ :=
        feed_cons_eq_ok_iff.mp hfeed
      have hlast := ih (hkeeps h hmove) hrest
      simpa using hlast

/-- What every move keeps, of what was read, what was put out and the
state, every run keeps. -/
theorem feed_keeps
    (hkeeps : ∀ {read out c token more c'}, P read out c →
      Moves g c token more c' →
      P (read ++ [token]) (out ++ more) c')
    (h : P [] [] c) (hfeed : feed g c tokens = .ok (more, c')) :
    P tokens more c' :=
  feed_keeps_after hkeeps h hfeed

end Keeping

/-- The end of the input is refused if a function waits for its
parenthesis or a parenthesis is open, and puts out all that waits. -/
theorem finish_eq_ok_iff {c : Converter} {out : List Token} :
    c.finish g = .ok out
      ↔ Idle c.previous ∧ (∀ t ∈ c.stack, isInside t = true)
        ∧ out = c.stack := by
  have hidle : c.abandoned? none = none ↔ Idle c.previous
      ∨ none = some TokenKind.leftParen :=
    abandoned?_eq_none_iff
  unfold finish
  split
  · next function habandoned =>
      rw [habandoned] at hidle
      simp only [reduceCtorEq, or_false, false_iff] at hidle ⊢
      exact fun h => hidle h.1
  · next habandoned =>
      rw [habandoned] at hidle
      simp only [reduceCtorEq, or_false, true_iff] at hidle
      split
      · next paren hparen =>
          -- a bracket that is still open lies on the stack, and it is not
          -- inside
          have hopen : isInside paren = false := by
            simpa [isInside] using List.find?_some hparen
          simp only [reduceCtorEq, false_iff]
          rintro ⟨-, hinside, -⟩
          rw [hinside paren (List.mem_of_find?_eq_some hparen)] at hopen
          cases hopen
      · next hnone =>
          rw [List.find?_eq_none] at hnone
          simp only [Except.ok.injEq]
          constructor
          · rintro rfl
            refine ⟨hidle, fun t ht => ?_, rfl⟩
            simpa [isInside] using hnone t ht
          · rintro ⟨-, -, rfl⟩
            rfl

end Reckoner.Converter

namespace Reckoner

open Converter

/-- Tokens have a postfix form if they can be read to an end at which
nothing is open; it is what was put out and what still waits. -/
theorem toPostfix_eq_ok_iff {g : Grammar} {tokens output : List Token} :
    toPostfix g tokens = .ok output
      ↔ ∃ out c, feed g.orStandard {} tokens = .ok (out, c) ∧ Idle c.previous
        ∧ (∀ t ∈ c.stack, isInside t = true) ∧ output = out ++ c.stack := by
  rw [toPostfix_eq_convert, convert]
  cases hfeed : feed g.orStandard {} tokens with
  | error failure => simp
  | ok result =>
      obtain ⟨out, c⟩ := result
      cases hfinish : c.finish g.orStandard with
      | error failure =>
          have hrefused : ∀ rest, c.finish g.orStandard ≠ .ok rest := by
            simp [hfinish]
          simp only [finish_eq_ok_iff, ne_eq] at hrefused
          simp only [ahead, hfinish, Except.map, reduceCtorEq, false_iff]
          rintro ⟨out', c', heq, hidle, hinside, -⟩
          cases heq
          exact hrefused c.stack ⟨hidle, hinside, rfl⟩
      | ok rest =>
          obtain ⟨hidle, hinside, rfl⟩ := finish_eq_ok_iff.mp hfinish
          simp only [ahead, hfinish, Except.map, Except.ok.injEq]
          constructor
          · rintro rfl
            exact ⟨out, c, rfl, hidle, hinside, rfl⟩
          · rintro ⟨out', c', heq, -, -, rfl⟩
            cases heq
            rfl

end Reckoner

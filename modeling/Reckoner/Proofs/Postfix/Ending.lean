/-
How a conversion ends that has no postfix form to give.

It stops at a token, when those before it have been read, or at the end of
the input (`stops_of_feed`). What it then reports is a fault of the
conversion, placed in the source; or else it breaks down, for which there
are three ways (`Fails`): an arriving operator is compared with a waiting
one that the table does not have, a parenthesis is closed that has no
record, a call ends whose function the registry does not know. Which of
them can happen is a matter of what the converter keeps in order, and not
asked here.
-/
import Reckoner.Proofs.Postfix.Moves

namespace Reckoner

/-- A failure is one of the conversion: a fault of that stage, placed in the
source, or a breakdown. -/
def Failure.IsOfConversion (source : String) (failure : Failure) : Prop :=
  (∃ fault position, fault.stage = .conversion
    ∧ failure = .at fault position source)
    ∨ ∃ breakdown, failure = .broken breakdown

private theorem isOfConversion_at {fault : Fault}
    (h : fault.stage = .conversion) (position : Int)
    (source : String) :
    (Failure.at fault position source).IsOfConversion source :=
  .inl ⟨fault, position, h, rfl⟩

namespace Converter

-- =============================================================== the steps

/-- The ways in which a step fails. -/
inductive Fails (g : Grammar) : Converter → Token → Failure → Prop where
  | fault {c token fault} (hstage : fault.stage = .conversion)
      (position : Int) :
      Fails g c token (.at fault position g.source)
  | operator {stack parens previous token op spec breakdown}
      (hidle : Idle previous)
      (hop : token.meant? = some op) (hspec : g.operators.find? op = some spec)
      (hplace : ¬ (op = .subtract ∧ isUnaryPlace previous = true))
      (hsplit : splitYielding g.operators spec stack = .error breakdown) :
      Fails g ⟨stack, parens, previous⟩ token (.broken breakdown)
  | unrecorded {stack previous token top} (hidle : Idle previous)
      (htop : top ∈ stack)
      (hkind : top.kind = .leftParen) :
      Fails g ⟨stack, [], previous⟩ token (.broken .emptyStack)
  | unknownCall {stack record outer previous token function}
      (hcall : record.function = some function)
      (hunknown : g.functions.find? function.text = none) :
      Fails g ⟨stack, record :: outer, previous⟩ token
        (.broken (.absentFunction function.text))

variable {g : Grammar} {stack : List Token} {parens : List OpenParen}
variable {previous : Option Token} {token : Token} {failure : Failure}
  {c : Converter}

private theorem fails_of_operator (hidle : Idle previous)
    (hkind : token.kind = .operator)
    (h : operator g ⟨stack, noted parens, previous⟩ token = .error failure) :
    Fails g ⟨stack, parens, previous⟩ token failure := by
  unfold operator at h
  rw [← meant?_eq hkind] at h
  split at h
  · cases h
    exact .fault rfl _
  · next op hop =>
      split at h
      · cases h
        exact .fault rfl _
      · next spec hspec =>
          split at h
          · cases h
          · next hplace =>
              split at h
              · next breakdown hsplit =>
                  cases h
                  exact .operator hidle hop hspec hplace hsplit
              · cases h

/-- What the check of a call finds is a wrong number of arguments, or that
there is no such function. -/
theorem failure_of_checkArguments {record : OpenParen}
    (h : checkArguments g record = .error failure) :
    (∃ fault position, fault.stage = .conversion
        ∧ failure = .at fault position g.source)
      ∨ ∃ function, record.function = some function
        ∧ g.functions.find? function.text = none
        ∧ failure = .broken (.absentFunction function.text) := by
  unfold checkArguments at h
  split at h
  · cases h
  · next function hcall =>
      split at h
      · split at h
        · next breakdown hlookup =>
            cases h
            unfold Registry.lookup at hlookup
            split at hlookup
            · cases hlookup
            · next hunknown =>
                cases hlookup
                exact .inr ⟨function, hcall, hunknown, rfl⟩
        · dsimp only at h
          split at h
          · cases h
            exact .inl ⟨_, _, rfl, rfl⟩
          · cases h
      · cases h

private theorem fails_of_closeParen (hidle : Idle previous)
    (h : closeParen g ⟨stack, parens, previous⟩ token = .error failure) :
    Fails g ⟨stack, parens, previous⟩ token failure := by
  unfold closeParen at h
  dsimp only at h
  split at h
  · cases h
    exact .fault rfl _
  · next top below hdrop =>
      have htop : top ∈ stack := by
        apply (List.dropWhile_sublist isInside).subset
        rw [hdrop]
        exact List.mem_cons_self ..
      split at h
      · cases h
        exact .unrecorded hidle htop (kind_of_dropWhile hdrop)
      · next record outer =>
          split at h
          · next failure' hcheck =>
              cases h
              obtain ⟨fault, position, hstage, rfl⟩
                  | ⟨function, hcall, hunknown, rfl⟩ :=
                failure_of_checkArguments hcheck
              · exact .fault hstage position
              · exact .unknownCall hcall hunknown
          · cases h

/-- A step that fails does so in one of these ways. -/
theorem fails_of_step (h : step g c token = .error failure) :
    Fails g c token failure := by
  obtain ⟨stack, parens, previous⟩ := c
  unfold step at h
  split at h
  · cases h
    exact .fault rfl _
  · next hnone =>
      have hidle := abandoned?_eq_none_iff.mp hnone
      rw [Option.some_inj] at hidle
      split at h
      · next failure' hhandle =>
          cases h
          unfold handle at hhandle
          cases hkind : token.kind with
          | number | identifier | comma | leftParen =>
              rw [noteArgument_eq (by simp [hkind])] at hhandle
              simp only [hkind] at hhandle
              cases hhandle
          | function =>
              rw [noteArgument_eq (by simp [hkind])] at hhandle
              simp only [hkind, function] at hhandle
              split at hhandle
              · cases hhandle
              · cases hhandle
                exact .fault rfl _
          | operator =>
              rw [noteArgument_eq (by simp [hkind])] at hhandle
              simp only [hkind] at hhandle
              exact fails_of_operator (hidle.resolve_right (by simp [hkind]))
                hkind hhandle
          | rightParen =>
              rw [noteArgument_close hkind] at hhandle
              simp only [hkind] at hhandle
              exact fails_of_closeParen (hidle.resolve_right (by simp [hkind]))
                hhandle
      · cases h

theorem Fails.isOfConversion (h : Fails g c token failure) :
    failure.IsOfConversion g.source := by
  cases h with
  | fault hstage position => exact isOfConversion_at hstage position g.source
  | operator | unrecorded | unknownCall => exact .inr ⟨_, rfl⟩

-- ================================================================ the runs

/-- A run that fails has stopped at a token, by induction on the tokens. -/
theorem stops_of_feed {tokens : List Token}
    (h : feed g c tokens = .error failure) :
    ∃ before token after out c', tokens = before ++ token :: after
      ∧ feed g c before = .ok (out, c')
      ∧ step g c' token = .error failure := by
  induction tokens generalizing c with
  | nil => cases h
  | cons token rest ih =>
      rw [feed] at h
      cases hstep : step g c token with
      | error failure' =>
          rw [hstep] at h
          cases h
          exact ⟨[], token, rest, [], c, rfl, rfl, hstep⟩
      | ok result =>
          rw [hstep] at h
          dsimp only at h
          split at h
          · next failure' hrest =>
              cases h
              obtain ⟨before, last, after, out, c', rfl, hbefore, hlast⟩ :=
                ih hrest
              refine ⟨token :: before, last, after, result.1 ++ out, c', rfl,
                ?_, hlast⟩
              simp only [feed, hstep, hbefore]
          · cases h

/-- A run stops at a token that cannot be read after those before it. -/
theorem feed_of_stop {before after out : List Token} {c' : Converter}
    (hbefore : feed g c before = .ok (out, c'))
    (h : step g c' token = .error failure) :
    feed g c (before ++ token :: after) = .error failure := by
  simp only [feed_append, hbefore, feed, h]

/-- At the end of the input nothing breaks down. -/
theorem fault_of_finish (h : c.finish g = .error failure) :
    ∃ fault position, fault.stage = .conversion
      ∧ failure = .at fault position g.source := by
  unfold finish at h
  split at h
  · cases h
    exact ⟨_, _, rfl, rfl⟩
  · split at h
    · cases h
      exact ⟨_, _, rfl, rfl⟩
    · cases h

end Converter

open Converter

/-- What stops a run stops the conversion. -/
theorem toPostfix_of_stop {g : Grammar} {before after out : List Token}
    {token : Token} {c : Converter} {failure : Failure}
    (hbefore : feed g.orStandard {} before = .ok (out, c))
    (h : step g.orStandard c token = .error failure) :
    toPostfix g (before ++ token :: after) = .error failure := by
  rw [toPostfix_eq_convert, convert, feed_of_stop hbefore h]

/-- A conversion fails at a token or at the end, where it cannot break
down. -/
theorem toPostfix_eq_error {g : Grammar} {tokens : List Token}
    {failure : Failure} (h : toPostfix g tokens = .error failure) :
    (∃ before token after out c, tokens = before ++ token :: after
        ∧ feed g.orStandard {} before = .ok (out, c)
        ∧ step g.orStandard c token = .error failure)
      ∨ ∃ fault position, fault.stage = .conversion
        ∧ failure = .at fault position g.source := by
  rw [toPostfix_eq_convert, convert] at h
  split at h
  · next failure' hfeed =>
      cases h
      exact .inl (stops_of_feed hfeed)
  · next out c hfeed =>
      cases hfinish : c.finish g.orStandard with
      | ok rest =>
          rw [hfinish] at h
          cases h
      | error failure' =>
          rw [hfinish] at h
          cases h
          exact .inr (fault_of_finish hfinish)

/-- So it fails by a fault of its own or breaks down. -/
theorem isOfConversion_of_toPostfix {g : Grammar} {tokens : List Token}
    {failure : Failure}
    (h : toPostfix g tokens = .error failure) :
    failure.IsOfConversion g.source := by
  obtain ⟨before, token, after, out, c, -, -, hstep⟩ | hfault :=
    toPostfix_eq_error h
  · exact (fails_of_step hstep).isOfConversion
  · exact .inl hfault

end Reckoner

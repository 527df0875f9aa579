/-
The faults that a text can have, and outcomes that have no others.

A fault is found by the stage that looks for it. Some of them are looked
for only because tokens may be made by hand: a token of no known kind, a
number without a value, a call with another number of arguments than was
counted. No text has these. What a text may have is `isForeseen`, ten
kinds of faults in all (`Fault.mem_foreseenKinds`); breakdowns are not
among them.

`Lands` says that a computation ends in one of two ways: in a result with
one property or in an error with another. What lands can be followed by
what lands (`Lands.bind`), so the claim that a text has no other faults is
put together from the stages.
-/
import Reckoner.Failure

namespace Reckoner

-- ============================================================= the faults

namespace Fault

/-- Whether a text can have a fault. Of the reports of resolvers only
those of an unresolved variable are foreseen. -/
def isForeseen : Fault → Bool
  | .unknownToken _ | .unexpectedToken _ | .malformedNumber _
    | .unknownFunction _
  | .wrongArity .. | .unknownOperator _ => false
  | .reported kind _ => kind = .unresolvedVariable
  | _ => true

/-- The kinds of the faults that a text can have, with the stages that
find them. -/
def foreseenKinds : List (Stage × FaultKind) :=
  [(.lexing, .invalidCharacter), (.lexing, .malformedNumber),
    (.conversion, .unbalancedParens), (.conversion, .invalidCall),
    (.evaluation, .missingOperand), (.evaluation, .missingFunctionArgument),
    (.evaluation, .divisionByZero), (.evaluation, .malformedExpression),
    (.evaluation, .unresolvedVariable), (.limits, .limitExceeded)]

/-- A foreseen fault is of one of the listed stages and kinds. -/
theorem mem_foreseenKinds {fault : Fault} (h : fault.isForeseen = true) :
    (fault.stage, fault.kind) ∈ foreseenKinds := by
  rw [← List.contains_iff_mem]
  cases fault with
  | reported kind message =>
      obtain rfl : kind = .unresolvedVariable := of_decide_eq_true h
      rfl
  | unknownToken | unexpectedToken | malformedNumber | unknownFunction
    | wrongArity
  | unknownOperator => cases h
  | _ => rfl

/-- What a resolver may report of a variable is foreseen. -/
theorem isForeseen_of_unresolved {fault : Fault}
    (hstage : fault.stage = .evaluation)
    (hkind : fault.kind = .unresolvedVariable) : fault.isForeseen = true := by
  cases fault with
  | reported kind message => exact decide_eq_true hkind
  | unknownToken => cases hstage
  | unexpectedToken | malformedNumber | unknownFunction | wrongArity
        | unknownOperator =>
      cases hkind
  | _ => rfl

end Fault

/-- A diagnostic of a foreseen fault. -/
def Diagnostic.IsForeseen (d : Diagnostic) : Prop := d.fault.isForeseen = true

/-- A failure that is foreseen; breakdowns never are. -/
def Failure.IsForeseen : Failure → Prop
  | .diagnosed d => d.IsForeseen
  | .broken _ => False

theorem isForeseen_at {fault : Fault} (h : fault.isForeseen = true)
    (position : Int)
    (expression : String) :
    (Failure.at fault position expression).IsForeseen := h

-- =========================================================== the outcomes

/-- A computation ends in an error or in a result of which something
holds. -/
def Lands {ε α : Type} (error : ε → Prop) (ok : α → Prop) : Except ε α → Prop
  | .ok a => ok a
  | .error e => error e

section Landing

variable {ε α β : Type} {error : ε → Prop} {ok : α → Prop} {next : β → Prop}
variable {x : Except ε α}

theorem lands_of_ok (h : ∀ a, x = .ok a → ok a) :
    Lands (fun _ => True) ok x := by
  cases x with
  | error e => trivial
  | ok a => exact h a rfl

/-- Outcomes land where each part of a sequence lands. -/
theorem Lands.bind {f : α → Except ε β} (h : Lands error ok x)
    (hf : ∀ a, ok a → Lands error next (f a)) :
    Lands error next (x.bind f) := by
  cases x with
  | error e => exact h
  | ok a => exact hf a h

theorem Lands.map {f : α → β} (h : Lands error ok x)
    (hf : ∀ a, ok a → next (f a)) :
    Lands error next (x.map f) := by
  cases x with
  | error e => exact h
  | ok a => exact hf a h

/-- An error is where the outcome lands. -/
theorem Lands.of_error {e : ε} (h : Lands error ok x) (hx : x = .error e) :
    error e := by
  rw [hx] at h
  exact h

theorem eq_ok_of_toOption {a : α} (h : x.toOption = some a) : x = .ok a := by
  cases x with
  | error _ => cases h
  | ok _ => exact congrArg Except.ok (Option.some.inj h)

section Renaming

variable {ε' : Type} {f : ε → ε'} {a : α} {e : ε'}

/-- Renaming errors makes no success and loses none. -/
theorem mapError_eq_ok_iff : x.mapError f = .ok a ↔ x = .ok a := by
  cases x with
  | error _ => constructor <;> intro h <;> cases h
  | ok b =>
      have hmap : (Except.ok b : Except ε α).mapError f = .ok b := rfl
      rw [hmap, Except.ok.injEq, Except.ok.injEq]

theorem mapError_eq_error_iff : x.mapError f = .error e
    ↔ ∃ e', x = .error e' ∧ f e' = e := by
  constructor
  · intro h
    cases x with
    | error e' => exact ⟨e', rfl, Except.error.inj h⟩
    | ok _ => cases h
  · rintro ⟨e', rfl, rfl⟩
    rfl

end Renaming

theorem map_eq_ok_iff {f : α → β} {b : β} :
    x.map f = .ok b ↔ ∃ a, x = .ok a ∧ f a = b := by
  cases x <;> simp [Except.map]

/-- A computation in two stages succeeds when both of them do. -/
theorem bind_eq_ok_iff {f : α → Except ε β} {b : β} :
    x >>= f = .ok b ↔ ∃ a, x = .ok a ∧ f a = .ok b := by
  constructor
  · intro h
    cases x with
    | error fault => cases h
    | ok a => exact ⟨a, rfl, h⟩
  · rintro ⟨a, rfl, h⟩
    exact h

end Landing

end Reckoner

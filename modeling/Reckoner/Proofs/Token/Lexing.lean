/-
The scan reads the lexemes of a text in order.

A text within the length limit is scanned to the tokens of its lexemes,
one for each, if all of them are admitted. Otherwise the scan reports the
first one that is not, whatever is wrong with those after it
(`scan_first_fault`).

The induction is on the steps of the scan (`lands_scanFrom_runs`). A step
takes the first of the runs that are left, so what a step finds is said of
the head of a list of runs, and what the rest of the scan finds is said of
its tail with the count one higher.
-/
import Reckoner.Proofs.Token.Lexeme

namespace Reckoner

-- ============================================================ the sequence

namespace Lexeme

/-- Whether all lexemes are admitted, where `count` came before. -/
def AllAdmitted (limits : Limits) (count : Nat) (lexemes : List (List Glyph)) :
    Prop :=
  ∀ i run, lexemes[i]? = some run → Admitted limits (count + i + 1) run

/-- The report on the first lexeme that is not admitted. -/
def FirstFault (limits : Limits) (source : String) (count : Nat)
    (lexemes : List (List Glyph)) (d : Diagnostic) : Prop :=
  ∃ i run, lexemes[i]? = some run ∧ AtFault limits source (count + i + 1) run d
    ∧ ∀ j earlier, j < i → lexemes[j]? = some earlier →
      Admitted limits (count + j + 1) earlier

section Sequence

variable {limits : Limits} {source : String} {count : Nat} {run : List Glyph}
variable {lexemes : List (List Glyph)} {d : Diagnostic}

private theorem allAdmitted_nil : AllAdmitted limits count [] := by
  intro i run h
  cases h

theorem AllAdmitted.cons (h : Admitted limits (count + 1) run)
    (hrest : AllAdmitted limits (count + 1) lexemes) :
    AllAdmitted limits count (run :: lexemes) := by
  intro i other hother
  cases i with
  | zero =>
      cases hother
      exact h
  | succ i =>
      have hadmitted := hrest i other hother
      rwa [show count + 1 + i + 1 = count + (i + 1) + 1 by omega] at hadmitted

private theorem firstFault_head (h : AtFault limits source (count + 1) run d) :
    FirstFault limits source count (run :: lexemes) d :=
  ⟨0, run, rfl, h, fun j _ hj => absurd hj (Nat.not_lt_zero j)⟩

theorem FirstFault.cons (h : Admitted limits (count + 1) run)
    (hrest : FirstFault limits source (count + 1) lexemes d) :
    FirstFault limits source count (run :: lexemes) d := by
  obtain ⟨i, faulty, hi, hfault, hbefore⟩ := hrest
  refine ⟨i + 1, faulty, hi, ?_, fun j earlier hj hearlier => ?_⟩
  · rwa [show count + (i + 1) + 1 = count + 1 + i + 1 by omega]
  · cases j with
    | zero =>
        cases hearlier
        exact h
    | succ j =>
        have hadmitted := hbefore j earlier (by omega) hearlier
        rwa [show count + 1 + j + 1 = count + (j + 1) + 1 by omega]
          at hadmitted

/-- Lexemes of which one is at fault are not all admitted. -/
theorem FirstFault.not_allAdmitted
    (h : FirstFault limits source count lexemes d) :
    ¬ AllAdmitted limits count lexemes := by
  obtain ⟨i, run, hi, hfault, -⟩ := h
  exact fun hall => hfault.not_admitted (hall i run hi)

end Sequence

end Lexeme

-- ================================================================ the scan

namespace Token

open Lexeme

/-- The scan of what is left of a text comes to the tokens of its lexemes or
to the first fault among them. -/
theorem lands_scanFrom_runs (registry : Registry) (limits : Limits)
    (source : String) (count : Nat) (glyphs : List Glyph) :
    Lands (FirstFault limits source count (runs glyphs))
      (fun tokens => List.Forall₂ (IsOf registry) (runs glyphs) tokens
        ∧ AllAdmitted limits count (runs glyphs))
      (scanFrom registry limits source count glyphs) := by
  fun_induction scanFrom registry limits source count glyphs with
  | case1 count => exact ⟨.nil, allAdmitted_nil⟩
  | case2 count first rest ih =>
      rw [runs_cons]
      have htoken := @lands_token_take registry source first rest
      generalize (take first rest).token registry source = taken at htoken
      cases taken with
      | error d => exact firstFault_head (htoken limits (count + 1))
      | ok token =>
          obtain ⟨hof, hlexeme⟩ := htoken
          show Lands _ _
            ((limits.check .tokens (count + 1 : Nat)
              (some token.position)).bind
            fun _ => (scanFrom registry limits source (count + 1)
              (skip first rest)).bind
              fun tokens => .ok (token :: tokens))
          by_cases hcount : ((count + 1 : Nat) : Int) ≤ limits.of .tokens
          · have hadmitted : Admitted limits (count + 1)
                (take first rest).glyphs :=
              ⟨hlexeme, hcount⟩
            rw [Limits.check_eq_ok_iff.mpr hcount]
            generalize scanFrom registry limits source (count + 1)
              (skip first rest)
              = outcome at ih
            cases outcome with
            | error d => exact FirstFault.cons hadmitted ih
            | ok tokens => exact ⟨.cons hof ih.1, ih.2.cons hadmitted⟩
          · -- one token too many, seen after it was found to be a token
            have habove := Int.not_le.mp hcount
            have hposition : (first.offset : Int) = token.position :=
              Option.some.inj hof.position
            rw [Limits.check_eq_error habove, ← hposition]
            exact firstFault_head (.tooMany hlexeme habove)

/-- A text that is too long is reported as that. Any other is scanned to
one token for each of its lexemes in order, if all of them are admitted;
and if not, the first that is not is reported. -/
theorem scan_first_fault (registry : Registry) (limits : Limits)
    (text : String) :
    let lexemes := runs (Glyph.ofText text)
    (limits.of .expressionLength < text.length →
      scan registry limits text
        = .error ⟨.limitExceeded .expressionLength
          (limits.of .expressionLength) text.length, none, none⟩)
    ∧ (text.length ≤ limits.of .expressionLength →
      (AllAdmitted limits 0 lexemes → ∃ tokens,
        scan registry limits text = .ok tokens
        ∧ List.Forall₂ (IsOf registry.orBuiltin) lexemes tokens)
      ∧ (¬ AllAdmitted limits 0 lexemes →
        ∃ d, scan registry limits text = .error d
        ∧ FirstFault limits text 0 lexemes d)) := by
  intro lexemes
  refine ⟨fun hlong => ?_, fun hlength => ?_⟩
  · rw [scan, Limits.check_eq_error hlong]
    rfl
  · have hscan : scan registry limits text
        = scanFrom registry.orBuiltin limits text 0 (Glyph.ofText text) := by
      rw [scan, Limits.check_eq_ok_iff.mpr hlength]
      rfl
    have hlands :=
      lands_scanFrom_runs registry.orBuiltin limits text 0 (Glyph.ofText text)
    rw [hscan]
    generalize scanFrom registry.orBuiltin limits text 0 (Glyph.ofText text)
      = outcome
      at hlands
    cases outcome with
    | ok tokens =>
        exact ⟨fun _ => ⟨tokens, rfl, hlands.1⟩, fun hnot =>
          absurd hlands.2 hnot⟩
    | error d =>
        exact ⟨fun hall => absurd hall hlands.not_allAdmitted,
          fun _ => ⟨d, rfl, hlands⟩⟩

end Token

end Reckoner

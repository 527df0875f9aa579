/-
What the converter refuses, and what it reports.

The converter is told of a fault in the parentheses or calls by its two
stacks and the token before, never by the tokens that it has read. Yet the
faults that it reports are those that reading the tokens from the left
gives (`Reported`). As long as no token violates anything the converter
goes on and follows what it reads (`feed_untroubled`). The first violation
stops it: at once if a parenthesis is closed, at the next token or the end
if a function stands without its own (`convert_of_violation`). Without
any violation all that is left to ask is whether a parenthesis is still
open, and the one that is found on the stack is the innermost
(`convert_of_untroubled`).

So the converter accepts exactly what is well bracketed, and of the rest
it reports the first fault (`toPostfix_verdict`).
-/
import Mathlib.Data.List.TakeWhile
import Reckoner.Proofs.Evaluation.Calculation
import Reckoner.Proofs.Infix.Derivation
import Reckoner.Proofs.Postfix.Records

namespace Reckoner

namespace Converter

variable {g : Grammar} {read rest before after tokens : List Token}
  {token : Token}
variable {c : Converter} {failure : Failure}

-- ================================================================ the stops

private theorem convert_of_error (h : step g c token = .error failure)
    (rest : List Token) :
    convert g c (token :: rest) = .error failure := by
  simp [convert, feed, h]

section Uncalled

variable {function : Token} (hprevious : c.previous = some function)
variable (hkind : function.kind = .function)
include hprevious hkind

/-- After a function nothing is read but its parenthesis. -/
theorem step_uncalled (hother : token.kind ≠ .leftParen) :
    step g c token = .error (unopenedCall g function) := by
  simp [step, abandoned?, hprevious, hkind, hother]

theorem finish_uncalled : c.finish g = .error (unopenedCall g function) := by
  simp [finish, abandoned?, hprevious, hkind]

/-- A function without its parenthesis is reported by the next token or at
the end. -/
theorem convert_uncalled
    (hnext : ∀ next ∈ after.head?, next.kind ≠ .leftParen) :
    convert g c after = .error (unopenedCall g function) := by
  cases after with
  | nil => rw [convert_nil, finish_uncalled hprevious hkind]
  | cons next rest =>
      exact convert_of_error
        (step_uncalled hprevious hkind (hnext next rfl)) rest

end Uncalled

/-- A closing parenthesis is read where no function waits. -/
theorem step_closing (hidle : Idle c.previous)
    (hkind : token.kind = .rightParen)
    (h : closeParen g c token = .error failure) :
    step g c token = .error failure := by
  have hnone : c.abandoned? (some token.kind) = none :=
    abandoned?_eq_none_iff.mpr (Or.inl hidle)
  unfold step
  rw [hnone, noteArgument_close hkind]
  simp [handle, hkind, h]

/-- Where nothing is open a closing parenthesis is reported. -/
theorem step_unopened (h : Follows before c) (hidle : Idle c.previous)
    (hkind : token.kind = .rightParen)
    (hnone : ∀ earlier opening inner, ¬ Opens before earlier opening inner) :
    step g c token = .error (.at .unopenedParen token.position g.source) := by
  apply step_closing hidle hkind
  rcases h.open_cases hidle with ⟨-, -, hinside⟩ | ⟨_, _, _, _, hopens, -⟩
  · have hdrop : c.stack.dropWhile isInside = [] :=
      List.dropWhile_eq_nil_iff.mpr hinside
    simp [closeParen, hdrop]
  · exact absurd hopens (hnone _ _ _)

/-- Where a call ends that has arguments, but not as many as its function
takes, the function is reported. -/
theorem step_miscounted {earlier inner : List Token}
    {function opening : Token} {spec : FunctionSpec} (h : Follows before c)
    (hidle : Idle c.previous) (hkind : token.kind = .rightParen)
    (hopens : Opens before (earlier ++ [function]) opening inner)
    (hfunction : function.kind = .function) (hinner : inner ≠ [])
    (hspec : g.functions.find? function.text = some spec)
    (hcount : ownCommas inner + 1 ≠ spec.arity) :
    step g c token = .error (.at (.argumentCount function.text spec.arity
      (ownCommas inner + 1)) function.position g.source) := by
  apply step_closing hidle hkind
  obtain ⟨outer, hparens⟩ := h.tallies.eq_cons hopens
  have haligned := (inStep_iff_of_idle hidle).mp h.inStep
  rw [hparens] at haligned
  obtain ⟨above, top, below, hstack, habove, htop⟩ := haligned.exists_open
  have hcheck := checkArguments_call hfunction hspec earlier opening inner
  rw [if_pos ⟨hinner, hcount⟩] at hcheck
  simp [closeParen, hstack, dropWhile_of_inside habove htop, hparens, hcheck]

-- ================================================================= going on

/-- A function that waits is followed by its parenthesis, if nothing was
violated. -/
theorem idle_or_open {functions : Registry} (h : Follows read c)
    (hread : Untroubled functions read (token :: rest)) :
    Idle c.previous ∨ token.kind = .leftParen := by
  rw [or_iff_not_imp_right]
  intro hnext last hlast hkind
  rw [h.previous] at hlast
  obtain ⟨next, hmem, hparen⟩ := hread.called last hlast hkind
  obtain rfl : token = next := by simpa using hmem
  exact hnext hparen

/-- As long as nothing is violated the converter follows. -/
theorem feed_untroubled (hall : ∀ op, g.operators.contains op = true)
    (hread : ∀ t ∈ read, t.Filled g.functions)
    (h : Untroubled g.functions read rest) :
    ∃ out c, feed g {} read = .ok (out, c) ∧ Follows read c := by
  induction read using List.reverseRecOn generalizing rest with
  | nil => exact ⟨[], {}, rfl, follows_start⟩
  | append_singleton read token ih =>
      obtain ⟨hbefore, htoken⟩ := untroubled_append_singleton.mp h
      have hfilled : ∀ t ∈ read, t.Filled g.functions :=
        fun t ht => hread t (by simp [ht])
      obtain ⟨out, c, hfeed, hfollows⟩ := ih hfilled hbefore
      obtain ⟨more, c', hmove⟩ :=
        hfollows.exists_move rest hall hfilled (hread token (by simp))
        (idle_or_open hfollows hbefore) fun _ => htoken
      exact ⟨out ++ more, c',
        feed_concat_eq_ok_iff.mpr ⟨_, _, _, hfeed, hmove, rfl⟩,
        hfollows.move hmove⟩

end Converter

open Converter

section Verdict

variable {g : Grammar} {tokens before after : List Token} {token : Token}
variable {fault : Fault} {position : Int}

/-- The first violation stops the converter. -/
theorem convert_of_violation (hall : ∀ op, g.operators.contains op = true)
    (htokens : ∀ t ∈ before ++ token :: after, t.Filled g.functions)
    (h : Violation g.functions before token after fault position)
    (hfirst : Untroubled g.functions before (token :: after)) :
    convert g {} (before ++ token :: after)
      = .error (.at fault position g.source) := by
  have hbefore : ∀ t ∈ before, t.Filled g.functions :=
    fun t ht => htokens t (by simp [ht])
  obtain ⟨out, c, hfeed, hfollows⟩ := feed_untroubled hall hbefore hfirst
  have hgoes := idle_or_open hfollows hfirst
  have hstop :
      convert g c (token :: after) = .error (.at fault position g.source) := by
    cases h with
    | uncalled hkind hnext =>
        obtain ⟨more, c', hmove⟩ := hfollows.exists_move after hall hbefore
          (htokens token (by simp)) hgoes fun hother => absurd hkind hother
        have hafter := convert_uncalled (g := g) (previous_of_moves hmove)
          hkind hnext
        rw [← List.singleton_append, convert_append]
        simp only [feed, step_of_moves hmove, hafter]
        rfl
    | unopened hkind hnone =>
        have hidle := hgoes.resolve_right (by simp [hkind])
        exact convert_of_error (step_unopened hfollows hidle hkind hnone) after
    | miscounted hkind hopens hfunction hinner hspec hcount =>
        have hidle := hgoes.resolve_right (by simp [hkind])
        exact convert_of_error
          (step_miscounted hfollows hidle hkind hopens hfunction hinner hspec
            hcount) after
  rw [convert_append, hfeed]
  simp only [hstop]
  rfl

/-- Without any violation the tokens are accepted, or the innermost open
parenthesis is reported. -/
theorem convert_of_untroubled (hall : ∀ op, g.operators.contains op = true)
    (htokens : ∀ t ∈ tokens, t.Filled g.functions)
    (h : Untroubled g.functions tokens []) :
    (Balanced tokens ∧ ∃ output, convert g {} tokens = .ok output)
      ∨ ∃ earlier opening inner, Opens tokens earlier opening inner
        ∧ convert g {} tokens
          = .error (.at .unclosedParen opening.position g.source) := by
  obtain ⟨out, c, hfeed, hfollows⟩ := feed_untroubled hall htokens h
  have hidle : Idle c.previous := by
    intro last hlast hkind
    rw [hfollows.previous] at hlast
    obtain ⟨next, hmem, -⟩ := h.called last hlast hkind
    simp at hmem
  rcases hfollows.open_cases hidle with
    ⟨hbalanced, -, hinside⟩ | ⟨earlier, opening, inner, -, hopens, -, hfind⟩
  · refine Or.inl ⟨hbalanced, out ++ c.stack, ?_⟩
    simp [convert, hfeed, finish_eq_ok_iff.mpr ⟨hidle, hinside, rfl⟩, ahead,
      Except.map]
  · refine Or.inr ⟨earlier, opening, inner, hopens, ?_⟩
    have hnone : c.abandoned? none = none :=
      abandoned?_eq_none_iff.mpr (Or.inl hidle)
    simp [convert, hfeed, finish, hnone, hfind, ahead, Except.map]

-- =============================================================== the verdict

/-- What is to be reported is what the converter reports. -/
theorem convert_of_reported (hall : ∀ op, g.operators.contains op = true)
    (htokens : ∀ t ∈ tokens, t.Filled g.functions)
    (h : Reported g.functions tokens fault position) :
    convert g {} tokens = .error (.at fault position g.source) := by
  cases h with
  | violation heq hviolation hfirst =>
      subst heq
      exact convert_of_violation hall htokens hviolation hfirst
  | unclosed heq hnone hkind hopen hlast =>
      rcases convert_of_untroubled hall htokens hnone with
        ⟨hbalanced, -⟩ | ⟨earlier, opening, inner, hopens, herror⟩
      · exact absurd ((heq ▸ hbalanced).closedBy hkind) hopen
      · rw [hopens.eq_last heq hkind hopen hlast]
        exact herror

/-- The converter reports nothing else. -/
theorem reported_of_convert {failure : Failure}
    (hall : ∀ op, g.operators.contains op = true)
    (htokens : ∀ t ∈ tokens, t.Filled g.functions)
    (h : convert g {} tokens = .error failure) :
    ∃ fault position, Reported g.functions tokens fault position
      ∧ failure = .at fault position g.source := by
  have hsame : ∀ {fault position}, Reported g.functions tokens fault position →
      failure = .at fault position g.source := by
    intro fault position hreported
    rw [convert_of_reported hall htokens hreported] at h
    exact (Except.error.inj h).symm
  rcases untroubled_or_violation g.functions tokens [] with
    hnone | ⟨before, token, after, fault, position, heq, hviolation, hfirst⟩
  · rcases convert_of_untroubled hall htokens hnone with
      ⟨-, output, hok⟩ | ⟨earlier, opening, inner, hopens, -⟩
    · rw [hok] at h
      cases h
    · have hreported :=
        Reported.unclosed hopens.eq hnone hopens.kind hopens.last.1
        hopens.last.2
      exact ⟨_, _, hreported, hsame hreported⟩
  · rw [List.append_nil] at hviolation hfirst
    have hreported := Reported.violation heq hviolation hfirst
    exact ⟨_, _, hreported, hsame hreported⟩

/-- What is well bracketed is accepted, and nothing else. -/
theorem convert_eq_ok_iff_wellBracketed
    (hall : ∀ op, g.operators.contains op = true)
    (htokens : ∀ t ∈ tokens, t.Filled g.functions) :
    (∃ output, convert g {} tokens = .ok output)
      ↔ WellBracketed g.functions tokens := by
  rw [wellBracketed_iff]
  constructor
  · rintro ⟨output, hok⟩
    rcases untroubled_or_violation g.functions tokens [] with
      hnone | ⟨before, token, after, fault, position, heq, hviolation, hfirst⟩
    · rcases convert_of_untroubled hall htokens hnone with
        ⟨hbalanced, -⟩ | ⟨earlier, opening, inner, -, herror⟩
      · refine ⟨hnone, ?_⟩
        rintro before opening after rfl hkind
        exact hbalanced.closedBy hkind
      · rw [hok] at herror
        cases herror
    · rw [List.append_nil] at hviolation hfirst
      rw [convert_of_reported hall htokens (.violation heq hviolation hfirst)]
        at hok
      cases hok
  · rintro ⟨hnone, hclosed⟩
    rcases convert_of_untroubled hall htokens hnone with
      ⟨-, hok⟩ | ⟨earlier, opening, inner, hopens, -⟩
    · exact hok
    · exact absurd (hclosed earlier opening inner hopens.eq hopens.kind)
        hopens.last.1

end Verdict

/-- The tokens of a text have a postfix form if and only if they are well
bracketed, however `^` is grouped. If they are not, then the failure is the
first of their faults in the brackets and calls, at its place. -/
theorem toPostfix_verdict {functions : Registry} {limits : Limits}
    {text : String} {tokens : List Token}
    (hscan : Token.scan functions limits text = .ok tokens)
    (grouping : Associativity) (source : String) :
    ((∃ output, toPostfix ⟨.grouping grouping, functions, source⟩ tokens
        = .ok output)
        ↔ WellBracketed functions.orBuiltin tokens)
    ∧ ∀ failure, toPostfix ⟨.grouping grouping, functions, source⟩ tokens
        = .error failure
        ↔ ∃ fault position, Reported functions.orBuiltin tokens fault position
          ∧ failure = .at fault position source := by
  have htokens : ∀ t ∈ tokens, t.Filled functions.orBuiltin := by
    have hfilled := lands_scan_filled functions limits text
    rw [hscan] at hfilled
    exact hfilled
  let g : Grammar := ⟨.grouping grouping, functions.orBuiltin, source⟩
  have hall : ∀ op, g.operators.contains op = true := contains_grouping
  have hconvert : toPostfix ⟨.grouping grouping, functions, source⟩ tokens
      = convert g {} tokens := by
    rw [toPostfix_eq_convert, Grammar.orStandard, orStandard_grouping]
  rw [hconvert]
  refine ⟨convert_eq_ok_iff_wellBracketed hall htokens, fun failure => ?_⟩
  constructor
  · exact reported_of_convert hall htokens
  · rintro ⟨fault, position, hreported, rfl⟩
    exact convert_of_reported hall htokens hreported

/-- In `sin(x,(y))+(` the call is reported, which ends before the last
parenthesis is found open. -/
theorem toPostfix_verdict_two_arguments :
    ∃ tokens, Token.scan .builtin {} "sin(x,(y))+(" = .ok tokens
      ∧ ¬ WellBracketed (Registry.orBuiltin .builtin) tokens
      ∧ Reported (Registry.orBuiltin .builtin) tokens
        (.argumentCount "sin" 1 2) 0 := by
  let tokens : List Token := [⟨.function, "sin", 0, none, none⟩,
    ⟨.leftParen, "(", 3, none, none⟩, ⟨.identifier, "x", 4, none, none⟩,
    ⟨.comma, ",", 5, none, none⟩, ⟨.leftParen, "(", 6, none, none⟩,
    ⟨.identifier, "y", 7, none, none⟩, ⟨.rightParen, ")", 8, none, none⟩,
    ⟨.rightParen, ")", 9, none, none⟩, ⟨.operator, "+", 10, none, some .add⟩,
    ⟨.leftParen, "(", 11, none, none⟩]
  have hscan : Token.scan .builtin {} "sin(x,(y))+(" = .ok tokens :=
    eq_ok_of_toOption (by decide +kernel)
  obtain ⟨hok, herror⟩ := toPostfix_verdict hscan .left ""
  have hrun : toPostfix ⟨.grouping .left, .builtin, ""⟩ tokens
      = .error (.at (.argumentCount "sin" 1 2) 0 "") := rfl
  refine ⟨tokens, hscan, fun hwell => ?_, ?_⟩
  · obtain ⟨output, houtput⟩ := hok.mpr hwell
    rw [hrun] at houtput
    cases houtput
  · obtain ⟨fault, position, hreported, heq⟩ := (herror _).mp hrun
    cases heq
    exact hreported

end Reckoner

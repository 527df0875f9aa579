/-
Which reports name the text they are about.

Every report that a stage makes of its own is made with the text at hand.
The checks of the limits have only figures to go by, and what they report
goes out as it is. So the report of a calculation names the text unless a
limit was exceeded (`expression_of_evaluate`).

When a limit is exceeded is said without the reports (`Calculator.Exceeds`):
by the length of the text, by its lexemes, or by the machine whose stack is
not limited. A report of a limit by the resolver is none of these, and the
machine puts the text into it like into all that the resolver reports.
-/
import Reckoner.Proofs.Calculator.Caret
import Reckoner.Proofs.Evaluation.Depth

namespace Reckoner

open Evaluation Lexeme

-- ============================================================= the lexemes

namespace Lexeme

variable {limits : Limits} {source : String} {index count : Nat}
  {run : List Glyph}
variable {lexemes : List (List Glyph)} {d : Diagnostic}

/-- A well-formed lexeme can only be one too many. -/
theorem AtFault.of_wellFormed (h : AtFault limits source index run d)
    (hlexeme : WellFormed (charsOf run)) :
    limits.of .tokens < index
      ∧ d = ⟨.limitExceeded .tokens (limits.of .tokens) index,
        run.head?.map fun glyph => (glyph.offset : Int), none⟩ := by
  cases h with
  | tooMany _ hindex => exact ⟨hindex, rfl⟩
  | invalidCharacter offset hsymbol hletter hpart =>
      -- it would be at fault under any limits
      have hraised : AtFault ⟨0, index, 0⟩ source index _ _ :=
        .invalidCharacter offset hsymbol hletter hpart
      exact absurd ⟨hlexeme, Int.le_refl _⟩ hraised.not_admitted
  | malformedNumber hparts hnumeral =>
      have hraised : AtFault ⟨0, index, 0⟩ source index _ _ :=
        .malformedNumber hparts hnumeral
      exact absurd ⟨hlexeme, Int.le_refl _⟩ hraised.not_admitted

/-- The lexeme at fault is the first that is not admitted. -/
theorem FirstFault.atFault {i : Nat}
    (h : FirstFault limits source count lexemes d)
    (hrun : lexemes[i]? = some run)
    (hnot : ¬ Admitted limits (count + i + 1) run)
    (hbefore : ∀ j earlier, j < i → lexemes[j]? = some earlier →
      Admitted limits (count + j + 1) earlier) :
    AtFault limits source (count + i + 1) run d := by
  obtain ⟨k, faulty, hfaulty, hat, hearlier⟩ := h
  rcases Nat.lt_trichotomy k i with hlt | rfl | hlt
  · exact absurd (hbefore k faulty hlt hfaulty) hat.not_admitted
  · obtain rfl : faulty = run := Option.some.inj (hfaulty.symm.trans hrun)
    exact hat
  · exact absurd (hearlier i run hlt hrun) hnot

end Lexeme

-- ============================================================== the limits

namespace Calculator

variable {σ : Type}

/-- A limit is exceeded in the calculation of a text: which one, by what
figure and at which place. The text is too long; or, if it is not, a
well-formed lexeme after admitted ones is one too many; or, if the text has
a postfix form, the machine gets within its limit to a token, and by that
token to too many values. -/
inductive Exceeds (c : Calculator) (resolver : Resolver (StateM σ))
    (text : String) (world : σ) : Resource → Int → Option Int → Prop where
  | length (hlong : c.settings.limits.of .expressionLength < text.length) :
      Exceeds c resolver text world .expressionLength text.length none
  | tokens {i : Nat} {run : List Glyph}
      (hlength : text.length ≤ c.settings.limits.of .expressionLength)
      (hrun : (runs (Glyph.ofText text))[i]? = some run)
      (hlexeme : WellFormed (charsOf run))
      (hbefore : ∀ j earlier, j < i →
        (runs (Glyph.ofText text))[j]? = some earlier →
        Admitted c.settings.limits (j + 1) earlier)
      (hmany : c.settings.limits.of .tokens < (i + 1 : Nat)) :
      Exceeds c resolver text world .tokens (i + 1 : Nat)
        (run.head?.map fun glyph => (glyph.offset : Int))
  | depth {before rest : List Token} {token : Token} {stack : Stack}
      (hform : c.toPostfix text = .ok (before ++ token :: rest))
      (hshallow : Shallow (c.context text).orStandard resolver before []
        c.bindings world)
      (hreaches : Reaches (c.context text).orStandard resolver c.bindings world
        (before ++ [token]) stack)
      (hdeep : c.settings.limits.of .stackDepth < stack.length) :
      Exceeds c resolver text world .stackDepth stack.length
        (some token.position)

variable {c : Calculator} {resolver : Resolver (StateM σ)} {text : String}
  {world : σ}

-- ====================================================== the limit reported

private theorem scan_of_tooMany {i : Nat} {run : List Glyph}
    (hlength : text.length ≤ c.settings.limits.of .expressionLength)
    (hrun : (runs (Glyph.ofText text))[i]? = some run)
    (hlexeme : WellFormed (charsOf run))
    (hbefore : ∀ j earlier, j < i →
      (runs (Glyph.ofText text))[j]? = some earlier →
      Admitted c.settings.limits (j + 1) earlier)
    (hmany : c.settings.limits.of .tokens < (i + 1 : Nat)) :
    Token.scan c.functions c.settings.limits text
      = .error ⟨.limitExceeded .tokens (c.settings.limits.of .tokens)
        (i + 1 : Nat), run.head?.map
          fun glyph => (glyph.offset : Int), none⟩ := by
  have hnot : ¬ Admitted c.settings.limits (0 + i + 1) run := by
    rintro ⟨-, hle⟩
    omega
  have hearlier :
      ∀ j earlier, j < i → (runs (Glyph.ofText text))[j]? = some earlier →
      Admitted c.settings.limits (0 + j + 1) earlier := by
    intro j earlier hj hget
    rw [Nat.zero_add]
    exact hbefore j earlier hj hget
  have hlands :=
    Token.lands_scanFrom_runs c.functions.orBuiltin c.settings.limits text 0
    (Glyph.ofText text)
  rw [Token.scan, Limits.check_eq_ok_iff.mpr hlength]
  show Token.scanFrom c.functions.orBuiltin c.settings.limits text 0
    (Glyph.ofText text) = _
  generalize Token.scanFrom c.functions.orBuiltin c.settings.limits text 0
    (Glyph.ofText text)
    = outcome at hlands
  cases outcome with
  | ok tokens => exact absurd (hlands.2 i run hrun) hnot
  | error d =>
      obtain ⟨-, rfl⟩ :=
        (hlands.atFault hrun hnot hearlier).of_wellFormed hlexeme
      rw [Nat.zero_add]

/-- A limit that is exceeded is reported, and the report names no text. -/
theorem report_of_exceeds {resource : Resource} {actual : Int}
    {position : Option Int}
    (h : c.Exceeds resolver text world resource actual position) :
    ((c.evaluate resolver text).run world).1.1
      = .error (.diagnosed
        ⟨.limitExceeded resource (c.settings.limits.of resource) actual,
          position, none⟩) := by
  cases h with
  | length hlong =>
      have hform : c.toPostfix text
          = .error (.diagnosed ⟨.limitExceeded .expressionLength
          (c.settings.limits.of .expressionLength) text.length, none,
          none⟩) := by
        rw [Calculator.toPostfix, Token.scan, Limits.check_eq_error hlong]
        rfl
      rw [run_evaluate_of_toPostfix_error hform]
  | @tokens i run hlength hrun hlexeme hbefore hmany =>
      have hscan := scan_of_tooMany hlength hrun hlexeme hbefore hmany
      have hform :
          c.toPostfix text = .error (.diagnosed ⟨.limitExceeded .tokens
          (c.settings.limits.of .tokens) (i + 1 : Nat),
          run.head?.map fun glyph => (glyph.offset : Int), none⟩) := by
        rw [Calculator.toPostfix, hscan]
      rw [run_evaluate_of_toPostfix_error hform]
  | depth hform hshallow hreaches hdeep =>
      obtain ⟨middle, between, world', bindings', world'', hbefore, hstep⟩ :=
        (reaches_append_iff hshallow).mp hreaches
      have hrun := run_of_stop hbefore (.deep hstep hdeep)
      rw [run_evaluate_of_toPostfix hform]
      dsimp only
      rw [evaluatePostfix, runWorld_bind, hrun]
      rfl

-- ======================================================= the other reports

/-- What the scan reports names the text or is that a limit is exceeded. -/
theorem named_or_exceeds_of_scan {d : Diagnostic}
    (h : Token.scan c.functions c.settings.limits text = .error d) :
    d.expression = some text
      ∨ ∃ resource actual position,
        c.Exceeds resolver text world resource actual position := by
  by_cases hlength : text.length ≤ c.settings.limits.of .expressionLength
  · rw [Token.scan, Limits.check_eq_ok_iff.mpr hlength] at h
    obtain ⟨i, run, hrun, hat, hbefore⟩ :=
      (Token.lands_scanFrom_runs c.functions.orBuiltin c.settings.limits text 0
        (Glyph.ofText text)).of_error h
    simp only [Nat.zero_add] at hat hbefore
    cases hat with
    | invalidCharacter | malformedNumber => exact .inl rfl
    | tooMany hlexeme hmany =>
        exact .inr ⟨_, _, _, .tokens hlength hrun hlexeme hbefore hmany⟩
  · exact .inr ⟨_, _, _, .length (Int.not_le.mp hlength)⟩

end Calculator

/-- What the machine reports names the source or is that its stack is too
deep. -/
theorem Evaluation.named_or_deep {σ : Type} {ctx : Context}
    {resolver : Resolver (StateM σ)} (hunplaced : resolver.Unplaced)
    {tokens : List Token} {bindings : Bindings} {world : σ} {d : Diagnostic}
    (h : ((evaluatePostfix ctx resolver tokens bindings).run world).1.1
      = .error (.diagnosed d)) :
    d.expression = some ctx.source
      ∨ ∃ before token rest stack, tokens = before ++ token :: rest
        ∧ Shallow ctx.orStandard resolver before [] bindings world
        ∧ Reaches ctx.orStandard resolver bindings world
          (before ++ [token]) stack
        ∧ ctx.limits.of .stackDepth < stack.length := by
  rw [evaluatePostfix, runWorld_bind] at h
  obtain ⟨stack, bindings', world', hrun⟩ |
    ⟨before, token, rest, middle, between, world', rfl, hbefore, hstop⟩ :=
    stops_of_run ctx.orStandard resolver tokens [] bindings world
  · rw [hrun] at h
    have hresult : result ctx.orStandard stack = .error (.diagnosed d) := h
    unfold result at hresult
    split at hresult
    · cases hresult
    · cases hresult
      exact .inl rfl
  · generalize (run ctx.orStandard resolver (before ++ token :: rest) []
      bindings).run world
      = after at h hstop
    cases hstop with
    | failed hstep =>
        cases h
        refine .inl ?_
        cases stepFailure_of_step hstep with
        | found hfound =>
            obtain ⟨fault, -, hat⟩ | ⟨breakdown, hbroken⟩ := hfound
            · cases hat
              rfl
            · cases hbroken
        | @reported d' _ _ hask haccept =>
            -- a report without a place gets that of the token, and the source
            have hnone : d'.position.isNone = true := by
              rw [hunplaced _ _ _ (congrArg Prod.fst hask)]
              rfl
            unfold accept at haccept
            dsimp only at haccept
            rw [if_pos hnone] at haccept
            cases haccept
            rfl
    | deep hstep hdeep =>
        have hshallow := shallow_of_run hbefore
        exact .inr ⟨before, token, rest, _, rfl, hshallow,
          (reaches_append_iff hshallow).mpr ⟨_, _, _, _, _, hbefore, hstep⟩,
          hdeep⟩

namespace Calculator

variable {σ : Type} {c : Calculator} {resolver : Resolver (StateM σ)}
  {text : String}
variable {world : σ}

/-- A report names the text unless a limit is exceeded, stage by stage. -/
theorem named_or_exceeds (hunplaced : resolver.Unplaced) {d : Diagnostic}
    (h : ((c.evaluate resolver text).run world).1.1 = .error (.diagnosed d)) :
    d.expression = some text
      ∨ ∃ resource actual position,
        c.Exceeds resolver text world resource actual position := by
  cases hform : c.toPostfix text with
  | error failure =>
      rw [run_evaluate_of_toPostfix_error hform] at h
      cases h
      rw [Calculator.toPostfix] at hform
      cases hscan : Token.scan c.functions c.settings.limits text with
      | error d' =>
          rw [hscan] at hform
          cases hform
          exact named_or_exceeds_of_scan hscan
      | ok tokens =>
          rw [hscan] at hform
          obtain ⟨fault, position, -, hat⟩ | ⟨breakdown, hbroken⟩ :=
            isOfConversion_of_toPostfix hform
          · cases hat
            exact .inl rfl
          · cases hbroken
  | ok output =>
      rw [run_evaluate_of_toPostfix hform] at h
      obtain hnamed | ⟨before, token, rest, stack, rfl, hshallow, hreaches,
          hdeep⟩ :=
        named_or_deep hunplaced h
      · exact .inl hnamed
      · exact .inr ⟨_, _, _, .depth hform hshallow hreaches hdeep⟩

-- ============================================================== the result

/-- What a calculation reports names the text, exactly if no limit is
exceeded. A limit that is exceeded is what is reported, with the figure and
the place, and without the text. -/
theorem expression_of_evaluate {σ : Type} (c : Calculator)
    {resolver : Resolver (StateM σ)}
    (hunplaced : resolver.Unplaced) (text : String) (world : σ) :
    let outcome := ((c.evaluate resolver text).run world).1.1
    let exceeds := c.Exceeds resolver text world
    (∀ d, outcome = .error (.diagnosed d) →
      (d.expression = some text
        ↔ ¬ ∃ resource actual position, exceeds resource actual position))
    ∧ ∀ resource actual position, exceeds resource actual position →
      outcome = .error (.diagnosed
        ⟨.limitExceeded resource (c.settings.limits.of resource) actual,
          position, none⟩) := by
  intro outcome exceeds
  refine ⟨fun d h => ⟨fun hnamed => ?_, fun hnot => ?_⟩, fun _ _ _ =>
    report_of_exceeds⟩
  · rintro ⟨resource, actual, position, hexceeds⟩
    have houtcome : outcome = _ := report_of_exceeds hexceeds
    rw [h] at houtcome
    cases houtcome
    cases hnamed
  · exact (named_or_exceeds hunplaced h).resolve_right hnot

/-- Where the stack may hold two values, the third variable of `x+(y+z)` is
one too many, and the report does not name the text. Two are enough for
`x/0`, which is named as what is divided by zero. -/
theorem expression_of_evaluate_third_variable :
    let resolver : Resolver (StateM Unit) := .ofFunction fun _ => .int 1
    let c : Calculator := { settings := { limits := { maxStackDepth := 2 } } }
    resolver.Unplaced
      ∧ c.Exceeds resolver "x+(y+z)" () .stackDepth 3 (some 5)
      ∧ ((c.evaluate resolver "x+(y+z)").run ()).1.1
        = .error (.diagnosed ⟨.limitExceeded .stackDepth 2 3, some 5, none⟩)
      ∧ ((c.evaluate resolver "x/0").run ()).1.1
        = .error (.diagnosed ⟨.divisionByZero, some 1, some "x/0"⟩)
      ∧ ¬ ∃ resource actual position,
        c.Exceeds resolver "x/0" () resource actual position := by
  intro resolver c
  have hunplaced : resolver.Unplaced := by
    intro name world d h
    cases h
  have hdeep : c.Exceeds resolver "x+(y+z)" () .stackDepth 3 (some 5) := by
    let x : Token := ⟨.identifier, "x", 0, none, none⟩
    let y : Token := ⟨.identifier, "y", 3, none, none⟩
    let z : Token := ⟨.identifier, "z", 5, none, none⟩
    let plus (position : Int) : Token :=
      ⟨.operator, "+", position, none, some .add⟩
    have hform :
        c.toPostfix "x+(y+z)" = .ok ([x, y] ++ z :: [plus 4, plus 1]) := by
      decide +kernel
    have hshallow :
        Shallow (c.context "x+(y+z)").orStandard resolver [x, y] []
          c.bindings () :=
      ⟨by decide, by decide, trivial⟩
    have hreaches :
        Reaches (c.context "x+(y+z)").orStandard resolver c.bindings ()
        ([x, y] ++ [z]) [1, 1, 1] := ⟨_, _, rfl⟩
    exact .depth hform hshallow hreaches (by decide)
  have hzero : ((c.evaluate resolver "x/0").run ()).1.1
      = .error (.diagnosed ⟨.divisionByZero, some 1, some "x/0"⟩) := by
    decide +kernel
  refine ⟨hunplaced, hdeep, ?_, hzero, ?_⟩
  · exact (expression_of_evaluate c hunplaced "x+(y+z)" ()).2 _ _ _ hdeep
  · exact ((expression_of_evaluate c hunplaced "x/0" ()).1 _ hzero).mp rfl

/-- Where a text may have one token, the second token of `1+2` is reported
without the text. -/
theorem evaluate_second_token_unnamed :
    let resolver : Resolver (StateM Unit) := .ofMap .empty
    let c : Calculator := { settings := { limits := { maxTokens := 1 } } }
    resolver.Unplaced ∧ ∃ d,
      ((c.evaluate resolver "1+2").run ()).1.1 = .error (.diagnosed d)
      ∧ d.expression ≠ some "1+2" := by
  intro resolver c
  have hunplaced : resolver.Unplaced := fun name world d hd => by
    rw [Resolver.report_ofMap hd]
  have hreport : ((c.evaluate resolver "1+2").run ()).1.1
      = .error (.diagnosed ⟨.limitExceeded .tokens 1 2, some 1, none⟩) := by
    decide +kernel
  exact ⟨hunplaced, _, hreport, nofun⟩

end Calculator

end Reckoner

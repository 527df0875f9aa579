/-
Where the caret stands.

A report is placed where it is made: each stage reports at the token, or
at the lexeme, that it is looking at, and only two reports concern the
text as a whole, that it is too long and that values are left over. So a
report has a place unless it is one of these two (`Diagnostic.Placed`),
which is followed through the stages.

That the place is the beginning of a lexeme of the text needs no look at
the stages at all. What they report is moved when the tokens are moved; if
everything moves but the places of the tokens and the report stays as it
is, then it is at one of these (`exists_token_of_position`).
-/
import Reckoner.Proofs.Calculator.Blanks
import Reckoner.Proofs.Evaluation.Ending
import Reckoner.Proofs.Postfix.Ending
import Reckoner.Proofs.Token.Lexing
import Reckoner.Text.Split

namespace Reckoner

open Text

-- ================================================================ the placing

/-- Whether a fault is one of the text as a whole. -/
def Fault.isOfWhole : Fault → Bool
  | .limitExceeded .expressionLength .. => true
  | fault => fault.kind == .malformedExpression

private theorem Fault.isOfWhole_iff {fault : Fault} :
    fault.isOfWhole = true ↔ fault.kind = .malformedExpression
      ∨ ∃ limit actual,
        fault = .limitExceeded .expressionLength limit actual := by
  cases fault with
  | limitExceeded resource limit actual =>
      cases resource <;> simp [isOfWhole, kind]
  | _ => simp [isOfWhole, kind]

/-- A report has a place unless it concerns the text as a whole, and it
names the text if it names any. -/
structure Diagnostic.Placed (source : String) (d : Diagnostic) : Prop where
  position : d.position = none ↔ d.fault.isOfWhole = true
  expression : d.expression.or (some source) = some source

def Failure.Placed (source : String) : Failure → Prop
  | .diagnosed d => d.Placed source
  | .broken _ => True

/-- A computation whose failures are placed. -/
abbrev LandsPlaced {α : Type} (source : String) : Except Failure α → Prop :=
  Lands (Failure.Placed source) fun _ => True

private theorem placed_at {fault : Fault} (h : fault.isOfWhole = false)
    (position : Int)
    (source : String) : (Failure.at fault position source).Placed source :=
  ⟨by simp [h], rfl⟩

-- ============================================================= the conversion

private theorem landsPlaced_toPostfix (g : Grammar) (tokens : List Token) :
    LandsPlaced g.source (toPostfix g tokens) := by
  cases hform : toPostfix g tokens with
  | ok output => trivial
  | error failure =>
      obtain ⟨fault, position, hstage, rfl⟩ | ⟨breakdown, rfl⟩ :=
        isOfConversion_of_toPostfix hform
      · refine placed_at ?_ _ _
        cases fault <;> first | rfl | cases hstage
      · trivial

-- ============================================================= the evaluation

/-- A resolver reports nothing but that a variable is unresolved. -/
def Resolver.OnlyUnresolved {σ : Type} (resolver : Resolver (StateM σ)) :
    Prop :=
  ∀ name world d, ((resolver.ask name).run world).1 = .error (.diagnosed d) →
    d.fault.kind = .unresolvedVariable

/-- A map reports the variables that it does not know. -/
theorem Resolver.report_ofMap {σ : Type} {values : NameMap Value}
    {name : String} {world : σ} {d : Diagnostic}
    (h : (((ofMap values : Resolver (StateM σ)).ask name).run world).1
      = .error (.diagnosed d)) : d = ⟨.unknownVariable name, none, none⟩ := by
  cases hfind : values.find? name with
  | some value =>
      simp only [ofMap, hfind] at h
      cases h
  | none =>
      simp only [ofMap, hfind] at h
      cases h
      rfl

namespace Evaluation

variable {σ : Type} {ctx : Context} {resolver : Resolver (StateM σ)}
variable (hunplaced : resolver.Unplaced) (honly : resolver.OnlyUnresolved)
include hunplaced honly

private theorem placed_of_stepFailure {token : Token} {failure : Failure}
    {world world' : σ}
    (h : StepFailure ctx resolver token world failure world') :
    failure.Placed ctx.source := by
  cases h with
  | found hfound =>
      obtain ⟨fault, hown, rfl⟩ | ⟨breakdown, rfl⟩ := hfound
      · refine placed_at ?_ _ _
        cases fault <;> first | rfl | cases hown
      · trivial
  | @reported d _ _ hask haccept =>
      have hanswer := congrArg Prod.fst hask
      have hkind := honly _ _ _ hanswer
      have hnone : d.position.isNone = true := by
        rw [hunplaced _ _ _ hanswer]; rfl
      unfold accept at haccept
      dsimp only at haccept
      rw [if_pos hnone] at haccept
      cases haccept
      refine placed_at (Bool.eq_false_iff.mpr fun hwhole => ?_) _ _
      rcases Fault.isOfWhole_iff.mp hwhole with hleft
        | ⟨limit, actual, hlength⟩
      · rw [hleft] at hkind
        cases hkind
      · rw [hlength] at hkind
        cases hkind

private theorem landsPlaced_run (ctx : Context) (tokens : List Token)
    (stack : Stack) (bindings : Bindings) (world : σ) :
    LandsPlaced ctx.source
      ((run ctx resolver tokens stack bindings).run world).1.1 := by
  obtain ⟨stack', bindings', world', hrun⟩ |
    ⟨before, token, rest, middle, between, world', rfl, -, hstop⟩ :=
    stops_of_run ctx resolver tokens stack bindings world
  · rw [hrun]
    trivial
  · generalize (run ctx resolver (before ++ token :: rest) stack bindings).run
      world = after
      at hstop
    cases hstop with
    | failed hstep =>
        exact placed_of_stepFailure hunplaced honly (stepFailure_of_step hstep)
    | deep => exact ⟨by simp [Fault.isOfWhole, Fault.kind], rfl⟩

private theorem landsPlaced_evaluatePostfix (ctx : Context)
    (tokens : List Token) (bindings : Bindings) (world : σ) :
    LandsPlaced ctx.source
      ((evaluatePostfix ctx resolver tokens bindings).run world).1.1 := by
  have hrun := landsPlaced_run hunplaced honly ctx.orStandard tokens []
    bindings world
  refine hrun.bind fun stack _ => ?_
  unfold result
  split
  · trivial
  · exact ⟨by simp [Fault.isOfWhole, Fault.kind], rfl⟩

end Evaluation

-- ============================================================== the lexemes

private theorem Glyph.of_mem_ofText {text : String} {glyph : Glyph}
    (h : glyph ∈ ofText text) :
    text.toList[glyph.offset]? = some glyph.char
      ∧ isBlank glyph.char = false := by
  obtain ⟨hmem, hblank⟩ := List.mem_filter.mp h
  obtain ⟨⟨c, offset⟩, hentry, rfl⟩ := List.mem_map.mp hmem
  exact ⟨List.mem_zipIdx_iff_getElem?.mp hentry, by simpa using hblank⟩

namespace Lexeme

/-- The runs of a text consist of its characters. -/
theorem mem_of_mem_runs {glyphs run : List Glyph} {glyph : Glyph}
    (hrun : run ∈ runs glyphs) (hglyph : glyph ∈ run) : glyph ∈ glyphs := by
  have hall : (runs glyphs).flatten = glyphs := List.flatten_splitBy _ _
  rw [← hall]
  exact List.mem_flatten.mpr ⟨run, hrun, hglyph⟩

/-- A well-formed lexeme can be read. -/
theorem exists_spells (registry : Registry) {cs : List Char}
    (h : WellFormed cs) :
    ∃ kind number operator, Spells registry cs kind number operator := by
  rcases h with ⟨c, hc, rfl⟩ | hname | hnumeral
  · cases hop : Operator.ofSymbol? c with
    | some op =>
        obtain ⟨hne, rfl⟩ := Operator.ofSymbol?_eq_some_iff.mp hop
        exact ⟨_, _, _, .operator hne⟩
    | none =>
        cases hdelimiter : TokenKind.ofDelimiter? c with
        | some kind => exact ⟨_, _, _, (spells_of_ofDelimiter? hdelimiter).2⟩
        | none => exact absurd ⟨c, hc, rfl⟩ (not_isSymbol hop hdelimiter)
  · cases hknown : registry.contains (String.ofList cs) with
    | true => exact ⟨_, _, _, .function hname hknown⟩
    | false => exact ⟨_, _, _, .identifier hname hknown⟩
  · obtain ⟨x, hx⟩ := Decimal.exists_literal?_iff.mpr hnumeral
    exact ⟨_, _, _, .number hnumeral (Decimal.read?_of_literal? hx)⟩

end Lexeme

open Lexeme

/-- A place of a text at which a lexeme begins: a token, or what the fault
is about. -/
structure PointsAt (registry : Registry) (text : String) (fault : Fault)
    (p : Int) (first : Glyph) (more : List Glyph) : Prop where
  lexeme : first :: more ∈ runs (Glyph.ofText text)
  place : p = first.offset
  reading : (∃ token, Token.IsOf registry (first :: more) token)
    ∨ fault = .invalidCharacter first.char
    ∨ fault = .malformedLiteral (String.ofList (charsOf (first :: more)))

namespace PointsAt

variable {registry : Registry} {text : String} {fault : Fault} {p : Int}
variable {first : Glyph} {more : List Glyph}

/-- The character there. -/
theorem char (h : PointsAt registry text fault p first more) :
    text.toList[p.toNat]? = some first.char ∧ isBlank first.char = false := by
  rw [h.place, Int.toNat_natCast]
  exact Glyph.of_mem_ofText (mem_of_mem_runs h.lexeme (List.mem_cons_self ..))

private theorem bounds (h : PointsAt registry text fault p first more) :
    0 ≤ p ∧ p < text.length := by
  obtain ⟨hlength, -⟩ := List.getElem?_eq_some_iff.mp h.char.1
  rw [String.length_toList] at hlength
  have hplace := h.place
  omega

end PointsAt

section Pointing

variable {registry : Registry} {limits : Limits} {text : String}
  {d : Diagnostic} {p : Int}

/-- A lexeme at fault is pointed at. -/
theorem Lexeme.AtFault.pointsAt {index : Nat} {run : List Glyph}
    (hrun : run ∈ runs (Glyph.ofText text))
    (h : AtFault limits text index run d) (hp : d.position = some p) :
    ∃ first more, PointsAt registry text d.fault p first more := by
  cases h with
  | @invalidCharacter c offset =>
      obtain rfl := Option.some.inj hp
      exact ⟨⟨c, offset⟩, [], hrun, rfl, .inr (.inl rfl)⟩
  | @malformedNumber first more =>
      obtain rfl := Option.some.inj hp
      exact ⟨first, more, hrun, rfl, .inr (.inr rfl)⟩
  | @tooMany first more hlexeme =>
      obtain rfl := Option.some.inj hp
      obtain ⟨kind, number, operator, hspells⟩ :=
        exists_spells registry hlexeme
      exact ⟨first, more, hrun, rfl, .inl
        ⟨⟨kind, String.ofList (charsOf (first :: more)), first.offset, number,
          operator⟩, hspells, rfl, rfl⟩⟩

theorem Lexeme.AtFault.placed {index : Nat} {run : List Glyph}
    (h : AtFault limits text index run d) : d.Placed text := by
  cases h with
  | invalidCharacter | malformedNumber => exact placed_at rfl _ _
  | tooMany => exact ⟨by simp [Fault.isOfWhole, Fault.kind], rfl⟩

/-- A token of a scanned text is that of a lexeme. -/
theorem exists_lexeme_of_mem {lexemes : List (List Glyph)}
    {tokens : List Token} {token : Token}
    (hall : List.Forall₂ (Token.IsOf registry) lexemes tokens)
    (hmem : token ∈ tokens) :
    ∃ run ∈ lexemes, Token.IsOf registry run token := by
  obtain ⟨i, hi, rfl⟩ := List.getElem_of_mem hmem
  have hi' : i < lexemes.length := hall.length_eq ▸ hi
  have hof : Token.IsOf registry lexemes[i] tokens[i] := hall.get hi' hi
  exact ⟨lexemes[i], List.getElem_mem hi', hof⟩

/-- A token of a scanned text is pointed at by its position. -/
theorem pointsAt_of_mem {tokens : List Token} {token : Token} (fault : Fault)
    (hall : List.Forall₂ (Token.IsOf registry) (runs (Glyph.ofText text))
      tokens)
    (hmem : token ∈ tokens) :
    ∃ first more, PointsAt registry text fault token.position first more := by
  obtain ⟨run, hrun, hof⟩ := exists_lexeme_of_mem hall hmem
  cases run with
  | nil => cases hof.position
  | cons first more =>
      exact ⟨first, more, hrun, (Option.some.inj hof.position).symm,
        .inl ⟨_, hof⟩⟩

/-- What the scan reports is too long a text or a lexeme. -/
theorem of_scan_error (h : Token.scan registry limits text = .error d) :
    (∃ limit actual,
      d = ⟨.limitExceeded .expressionLength limit actual, none, none⟩)
      ∨ ∃ run ∈ runs (Glyph.ofText text), ∃ index,
        AtFault limits text index run d := by
  by_cases hlength : text.length ≤ limits.of .expressionLength
  · rw [Token.scan, Limits.check_eq_ok_iff.mpr hlength] at h
    have hlands := (Token.lands_scanFrom_runs registry.orBuiltin limits text 0
      (Glyph.ofText text)).of_error h
    obtain ⟨i, run, hrun, hat, -⟩ := hlands
    exact .inr ⟨run, List.mem_of_getElem? hrun, _, hat⟩
  · rw [Token.scan, Limits.check_eq_error (Int.not_le.mp hlength)] at h
    cases h
    exact .inl ⟨_, _, rfl⟩

/-- What the scan makes is one token for each lexeme. -/
theorem of_scan_ok {tokens : List Token}
    (h : Token.scan registry limits text = .ok tokens) :
    List.Forall₂ (Token.IsOf registry.orBuiltin) (runs (Glyph.ofText text))
      tokens := by
  have hlands := Token.lands_scanFrom_runs registry.orBuiltin limits text 0
    (Glyph.ofText text)
  rw [Token.scan] at h
  cases hcheck : limits.check .expressionLength text.length none with
  | error d =>
      rw [hcheck] at h
      cases h
  | ok _ =>
      rw [hcheck] at h
      have hscan :
          Token.scanFrom registry.orBuiltin limits text 0 (Glyph.ofText text)
        = .ok tokens := h
      rw [hscan] at hlands
      exact hlands.1

end Pointing

-- ================================================================= the lines

/-- A report with a place ends in two lines, if the text is one line. The
caret stands under the character that the place is that of. -/
theorem Diagnostic.lines_shown {d : Diagnostic} {text : String} {p : Int}
    (hposition : d.position = some p) (hexpression : d.expression = some text)
    (hline : '\n' ∉ text.toList) :
    splitOn '\n' d.shown.toList = splitOn '\n' d.fault.message.toList
      ++ ["  ".toList ++ text.toList,
        List.replicate (p.toNat + 2) ' ' ++ ['^']] := by
  have hshown : d.shown.toList = d.fault.message.toList ++ '\n' ::
      (("  ".toList ++ text.toList) ++ '\n'
        :: (List.replicate (p.toNat + 2) ' ' ++ ['^'])) := by
    simp [Diagnostic.shown, Diagnostic.inContext, hposition, hexpression,
      List.replicate_succ]
  have htext : '\n' ∉ "  ".toList ++ text.toList := by simpa using hline
  have hcaret : '\n' ∉ List.replicate (p.toNat + 2) ' ' ++ ['^'] := by simp
  rw [hshown, splitOn_append, splitOn_append, splitOn_of_not_mem htext,
    splitOn_of_not_mem hcaret]
  rfl

-- ============================================================ the calculator

namespace Calculator

variable {σ : Type} (c : Calculator) {resolver : Resolver (StateM σ)}
variable (hunplaced : resolver.Unplaced)

include hunplaced in
/-- A report on scanned tokens stands at one of them. -/
theorem exists_token_of_position {text : String} {tokens : List Token}
    {world : σ} {d : Diagnostic} {p : Int}
    (hscan : Token.scan c.functions c.settings.limits text = .ok tokens)
    (hnonneg : ∀ token ∈ tokens, 0 ≤ token.position)
    (h : ((c.evaluate resolver text).run world).1.1 = .error (.diagnosed d))
    (hp : d.position = some p) : ∃ token ∈ tokens, token.position = p := by
  -- a move of everything but the places of the tokens
  let r := Relocation.displacing text
    fun k => ∃ token ∈ tokens, token.position = (k : Int)
  have htokens : tokens.map r.token = tokens := by
    refine (List.map_congr_left fun token hmem => ?_).trans (List.map_id _)
    have hkept : r.position token.position = token.position :=
      Relocation.position_displacing_eq_iff.mpr
        ⟨hnonneg token hmem, token, hmem, by have := hnonneg token hmem; omega⟩
    rw [Relocation.token, hkept]
    rfl
  have hself : c.toPostfix text
      = recast r.failure (List.map r.token) (c.toPostfix text) := by
    have hmoved := r.toPostfix_tokens (c.context text).toGrammar tokens
    rw [htokens] at hmoved
    rw [Calculator.toPostfix, hscan]
    exact hmoved
  have hfixed : r.failure (.diagnosed d) = .diagnosed d := by
    cases hform : c.toPostfix text with
    | error failure =>
        rw [run_evaluate_of_toPostfix_error hform] at h
        rw [hform] at hself
        obtain rfl : failure = .diagnosed d := Except.error.inj h
        exact (Except.error.inj hself).symm
    | ok output =>
        rw [run_evaluate_of_toPostfix hform] at h
        rw [hform] at hself
        have houtput : output = output.map r.token := Except.ok.inj hself
        have hmoved := r.evaluatePostfix_context (c.context text) hunplaced
          output c.bindings
          world
        rw [← houtput] at hmoved
        have hsame :
            ((evaluatePostfix (c.context text) resolver output c.bindings).run
            world).1.1 = r.outcome
              ((evaluatePostfix (c.context text) resolver output
              c.bindings).run world).1.1 := congrArg (·.1.1) hmoved
        rw [h] at hsame
        exact (Except.error.inj hsame).symm
  obtain ⟨hp0, token, hmem, hposition⟩ :=
    Relocation.position_displacing_eq_iff.mp
    (r.position_of_failure_eq hfixed hp)
  exact ⟨token, hmem, by omega⟩

include hunplaced in
/-- Every place is that of a lexeme. -/
theorem pointsAt_of_evaluate {text : String} {world : σ} {d : Diagnostic}
    {p : Int}
    (h : ((c.evaluate resolver text).run world).1.1 = .error (.diagnosed d))
    (hp : d.position = some p) :
    ∃ first more,
      PointsAt c.functions.orBuiltin text d.fault p first more := by
  cases hscan : Token.scan c.functions c.settings.limits text with
  | error d' =>
      have hform : c.toPostfix text = .error (.diagnosed d') := by
        rw [Calculator.toPostfix, hscan]
      rw [run_evaluate_of_toPostfix_error hform] at h
      obtain rfl : d' = d := Failure.diagnosed.inj (Except.error.inj h)
      rcases of_scan_error hscan with ⟨limit, actual, rfl⟩
        | ⟨run, hrun, index, hat⟩
      · cases hp
      · exact hat.pointsAt hrun hp
  | ok tokens =>
      have hall := of_scan_ok hscan
      have hnonneg : ∀ token ∈ tokens, 0 ≤ token.position := by
        intro token hmem
        obtain ⟨first, more, hpoints⟩ := pointsAt_of_mem d.fault hall hmem
        exact hpoints.bounds.1
      obtain ⟨token, hmem, rfl⟩ :=
        c.exists_token_of_position hunplaced hscan hnonneg h hp
      exact pointsAt_of_mem d.fault hall hmem

include hunplaced in
/-- Every report is placed. -/
theorem landsPlaced_evaluate (honly : resolver.OnlyUnresolved) (text : String)
    (world : σ) :
    LandsPlaced text ((c.evaluate resolver text).run world).1.1 := by
  cases hform : c.toPostfix text with
  | error failure =>
      rw [run_evaluate_of_toPostfix_error hform]
      rw [Calculator.toPostfix] at hform
      cases hscan : Token.scan c.functions c.settings.limits text with
      | error d =>
          rw [hscan] at hform
          cases hform
          rcases of_scan_error hscan with ⟨limit, actual, rfl⟩
            | ⟨run, -, index, hat⟩
          · exact ⟨by simp [Fault.isOfWhole], rfl⟩
          · exact hat.placed
      | ok tokens =>
          rw [hscan] at hform
          exact (landsPlaced_toPostfix (c.context text).toGrammar
            tokens).of_error hform
  | ok output =>
      rw [run_evaluate_of_toPostfix hform]
      exact Evaluation.landsPlaced_evaluatePostfix hunplaced honly
        (c.context text) output
        c.bindings world

/-- A verdict of a fault is a report of the calculation, with the text filled
in. -/
theorem exists_report {text : String} {world : σ} {d : Diagnostic}
    (h : ((c.tryEvaluate resolver text).run world).1.1 = .ok (.error d)) :
    ∃ report, ((c.evaluate resolver text).run world).1.1
      = .error (.diagnosed report)
      ∧ d = report.orExpression text := by
  have hverdict : verdict text ((c.evaluate resolver text).run world).1.1
    = .ok (.error d) := h
  match houtcome : ((c.evaluate resolver text).run world).1.1 with
  | .ok x =>
      rw [houtcome] at hverdict
      cases hverdict
  | .error (.broken breakdown) =>
      rw [houtcome] at hverdict
      cases hverdict
  | .error (.diagnosed report) =>
      rw [houtcome] at hverdict
      exact ⟨report, rfl, (Except.error.inj (Except.ok.inj hverdict)).symm⟩

/-- The place of a fault is in the text, and there begins a token or else the
very lexeme that the fault is about. A fault has no place exactly if it is
that values are left over or that the text is too long. It is reported with
the text. If it has a place and the text is one line, then the report ends
in that line, indented, and in a line with a caret under the character. -/
theorem tryEvaluate_points_at_lexeme {σ : Type} (c : Calculator)
    {resolver : Resolver (StateM σ)} (hunplaced : resolver.Unplaced)
    (honly : resolver.OnlyUnresolved) {text : String} {world : σ}
    {d : Diagnostic}
    (h : ((c.tryEvaluate resolver text).run world).1.1 = .ok (.error d)) :
    (∀ p, d.position = some p → 0 ≤ p ∧ p < text.length
      ∧ ∃ first more, PointsAt c.functions.orBuiltin text d.fault p first more
        ∧ text.toList[p.toNat]? = some first.char ∧ isBlank first.char = false)
    ∧ (d.position = none ↔ d.fault.kind = .malformedExpression
      ∨ ∃ limit actual,
        d.fault = .limitExceeded .expressionLength limit actual)
    ∧ d.expression = some text
    ∧ ∀ p, d.position = some p → '\n' ∉ text.toList →
      ∃ earlier indented column, indented = "  ".toList ++ text.toList
        ∧ splitOn '\n' d.shown.toList
          = earlier ++ [indented, List.replicate column ' ' ++ ['^']]
        ∧ indented[column]? = text.toList[p.toNat]? := by
  obtain ⟨report, houtcome, rfl⟩ := c.exists_report h
  have hplaced : report.Placed text :=
    (c.landsPlaced_evaluate hunplaced honly text world).of_error houtcome
  refine ⟨fun p hp => ?_, ?_, hplaced.expression, fun p hp hline => ?_⟩
  · obtain ⟨first, more, hpoints⟩ :=
      c.pointsAt_of_evaluate hunplaced houtcome hp
    exact ⟨hpoints.bounds.1, hpoints.bounds.2, first, more, hpoints,
      hpoints.char⟩
  · rw [← Fault.isOfWhole_iff]
    exact hplaced.position
  · refine ⟨_, _, p.toNat + 2, rfl,
      Diagnostic.lines_shown hp hplaced.expression hline, ?_⟩
    rfl

instance (outcome : Except Breakdown (Except Diagnostic Float))
    (d : Diagnostic) :
    Decidable (outcome = .ok (.error d)) :=
  match outcome with
  | .ok (.error d') => decidable_of_iff (d' = d) (by simp)
  | .ok (.ok _) => isFalse (by simp)
  | .error _ => isFalse (by simp)

/-- In a text with blanks and a divisor that comes out as zero, the fault is
at the division sign. -/
theorem tryEvaluate_points_at_lexeme_division :
    let resolver : Resolver (StateM Unit) :=
      .ofMap ⟨[("x", .float 1.5), ("y", .int 2)]⟩
    let c : Calculator := {}
    let text := "\tx / (y - 2)"
    let d : Diagnostic := ⟨.divisionByZero, some 3, some text⟩
    resolver.Unplaced ∧ resolver.OnlyUnresolved
      ∧ ((c.tryEvaluate resolver text).run ()).1.1 = .ok (.error d)
      ∧ (∃ first more, PointsAt .builtin text d.fault 3 first more
        ∧ first.char = '/')
      ∧ ∃ earlier indented column, indented = "  ".toList ++ text.toList
        ∧ splitOn '\n' d.shown.toList
          = earlier ++ [indented, List.replicate column ' ' ++ ['^']]
        ∧ indented[column]? = text.toList[3]? := by
  intro resolver c text d
  have hunplaced : resolver.Unplaced := fun name world d hd => by
    rw [Resolver.report_ofMap hd]
  have honly : resolver.OnlyUnresolved := fun name world d hd => by
    rw [Resolver.report_ofMap hd]
    rfl
  have hverdict :
      ((c.tryEvaluate resolver text).run ()).1.1 = .ok (.error d) := by
    decide +kernel
  obtain ⟨hplace, -, -, hlines⟩ :=
    tryEvaluate_points_at_lexeme c hunplaced honly hverdict
  obtain ⟨-, -, first, more, hpoints, hchar, -⟩ := hplace 3 rfl
  have hslash : text.toList[Int.toNat 3]? = some '/' := by decide
  exact ⟨hunplaced, honly, hverdict,
    ⟨first, more, hpoints, Option.some.inj (hchar.symm.trans hslash)⟩,
    hlines 3 rfl (by decide)⟩

end Calculator

end Reckoner

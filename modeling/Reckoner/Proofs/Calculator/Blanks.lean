/-
Blanks count for nothing.

A text is its compact form, the same characters without the blanks, moved
apart: the character at offset `k` of the compact form is the `k`-th one
of the text that is not blank (`ofText_eq_spread`). A calculation commutes
with such moves (`Relocation.evaluate_eq`). So two texts with the same
compact form come to the same, and where a fault has a place in one it has
the corresponding place in the other (`evaluate_alike`).

That every place is that of a character follows from the same law: a move
that leaves the characters where they are changes nothing, so it changes
no place (`offset_of_position`).
-/
import Reckoner.Proofs.Evaluation.Relocation

namespace Reckoner

open Text

-- ========================================================= the characters

/-- A text without its blanks. -/
def compact (text : String) : String :=
  String.ofList (text.toList.filter fun c => !isBlank c)

private theorem length_compact_le (text : String) :
    (compact text).length ≤ text.length := by
  rw [compact, String.length_ofList, ← String.length_toList]
  exact List.length_filter_le _ _

namespace Glyph

/-- The characters of a text that are not blank, in order. -/
theorem chars_ofText (text : String) :
    (ofText text).map Glyph.char = text.toList.filter fun c => !isBlank c := by
  rw [ofText, List.filter_map, List.map_map]
  conv => rhs; rw [← List.zipIdx_map_fst 0 text.toList, List.filter_map]
  rfl

/-- In the compact form the `k`-th character stands at offset `k`. -/
theorem getElem?_ofText_compact (text : String) (k : Nat) :
    (ofText (compact text))[k]? = (ofText text)[k]?.map
      fun glyph => ⟨glyph.char, k⟩ := by
  have hall : ofText (compact text)
      = ((ofText text).map Glyph.char).zipIdx.map
        fun entry => ⟨entry.1, entry.2⟩ := by
    rw [ofText, compact, String.toList_ofList, ← chars_ofText]
    refine List.filter_eq_self.mpr fun glyph hmem => ?_
    obtain ⟨entry, hentry, rfl⟩ := List.mem_map.mp hmem
    have hc := List.fst_mem_of_mem_zipIdx hentry
    rw [chars_ofText] at hc
    exact (List.mem_filter.mp hc).2
  rw [hall, List.getElem?_map, List.getElem?_zipIdx, List.getElem?_map,
    Nat.zero_add]
  cases (ofText text)[k]? <;> rfl

end Glyph

/-- The move that spreads the compact form of a text. -/
def spread (text : String) : Relocation where
  offset k := ((Glyph.ofText text)[k]?.map Glyph.offset).getD 0
  source := text

private theorem position_spread {text : String} {k : Nat} {glyph : Glyph}
    (h : (Glyph.ofText text)[k]? = some glyph) :
    (spread text).position k = glyph.offset := by
  simp [Relocation.position, spread, h]

private theorem ofText_eq_spread (text : String) :
    Glyph.ofText text = (Glyph.ofText (compact text)).map
      (spread text).glyph := by
  apply List.ext_getElem?
  intro k
  rw [List.getElem?_map, Glyph.getElem?_ofText_compact]
  cases h : (Glyph.ofText text)[k]? with
  | none => rfl
  | some glyph => simp [Relocation.glyph, spread, h]

-- ======================================================== the calculation

section Moving

variable {σ : Type} (c : Calculator) {resolver : Resolver (StateM σ)}
variable (hunplaced : resolver.Unplaced)
include hunplaced

/-- The calculation of a text whose characters come from those of another
by a move is that of the other, with a failure moved. -/
theorem Relocation.evaluate_eq (r : Relocation) {text : String}
    (hglyphs : Glyph.ofText r.source = (Glyph.ofText text).map r.glyph)
    (hlength : text.length ≤ c.settings.limits.of .expressionLength)
    (hlength' : r.source.length ≤ c.settings.limits.of .expressionLength)
    (world : σ) : (c.evaluate resolver r.source).run world
      = r.ending ((c.evaluate resolver text).run world) := by
  have hform : c.toPostfix r.source
      = recast r.failure (List.map r.token) (c.toPostfix text) := by
    rw [Calculator.toPostfix, Calculator.toPostfix,
      r.scan_glyphs c.functions c.settings.limits hglyphs hlength hlength']
    cases Token.scan c.functions c.settings.limits text with
    | error d => rfl
    | ok tokens => exact r.toPostfix_tokens (c.context text).toGrammar tokens
  rw [Calculator.evaluate, Calculator.evaluate, hform]
  cases c.toPostfix text with
  | error failure => rfl
  | ok tokens =>
      have hcontext : c.context r.source = r.context (c.context text) := rfl
      dsimp only [recast]
      rw [runWorld_bind, runWorld_bind, hcontext,
        r.evaluatePostfix_context (c.context text) hunplaced]
      rfl

/-- The place of a fault is that of a character that is not blank. -/
theorem offset_of_position {text : String}
    (hlength : text.length ≤ c.settings.limits.of .expressionLength)
    {world : σ} {d : Diagnostic} {p : Int}
    (h : ((c.evaluate resolver text).run world).1.1 = .error (.diagnosed d))
    (hp : d.position = some p) :
    ∃ glyph ∈ Glyph.ofText text, p = glyph.offset := by
  -- a move of everything but the characters
  let r := Relocation.displacing text
    fun k => ∃ glyph ∈ Glyph.ofText text, glyph.offset = k
  have hglyphs : Glyph.ofText text = (Glyph.ofText text).map r.glyph := by
    refine (List.map_id _).symm.trans
      (List.map_congr_left fun glyph hmem => ?_)
    have hkept : ∃ other ∈ Glyph.ofText text, other.offset = glyph.offset :=
      ⟨glyph, hmem, rfl⟩
    simp [Relocation.glyph, r, Relocation.displacing, hkept]
  have hsame : ((c.evaluate resolver text).run world).1.1
      = r.outcome ((c.evaluate resolver text).run world).1.1 :=
    congrArg (·.1.1) (r.evaluate_eq c hunplaced hglyphs hlength hlength world)
  rw [h] at hsame
  have hfixed := r.position_of_failure_eq (Except.error.inj hsame).symm hp
  obtain ⟨hnonneg, glyph, hmem, hoffset⟩ :=
    Relocation.position_displacing_eq_iff.mp hfixed
  exact ⟨glyph, hmem, by omega⟩

end Moving

-- ============================================================== two texts

namespace Calculator

/-- Outcomes for two texts that are the same but for the place of a fault.
If it has one in either, then in both, and there it is that of the `k`-th
character that is not blank. -/
inductive Alike (text text' : String) :
    Except Failure Float → Except Failure Float → Prop where
  | value (x : Float) : Alike text text' (.ok x) (.ok x)
  | broken (breakdown : Breakdown) :
      Alike text text' (.error (.broken breakdown))
        (.error (.broken breakdown))
  | unplaced (fault : Fault) (expression expression' : Option String) :
      Alike text text' (.error (.diagnosed ⟨fault, none, expression⟩))
        (.error (.diagnosed ⟨fault, none, expression'⟩))
  | placed (fault : Fault) (k : Nat) {glyph glyph' : Glyph}
      (h : (Glyph.ofText text)[k]? = some glyph)
      (h' : (Glyph.ofText text')[k]? = some glyph')
      (expression expression' : Option String) :
      Alike text text'
        (.error (.diagnosed ⟨fault, some glyph.offset, expression⟩))
        (.error (.diagnosed ⟨fault, some glyph'.offset, expression'⟩))

/-- Spread to two texts, an outcome for their common compact form is alike. -/
theorem alike_spread {text text' : String}
    (hcompact : compact text = compact text') {outcome : Except Failure Float}
    (h : ∀ d p, outcome = .error (.diagnosed d) → d.position = some p →
      ∃ glyph ∈ Glyph.ofText (compact text), p = glyph.offset) :
    Alike text text' ((spread text).outcome outcome)
      ((spread text').outcome outcome) := by
  cases outcome with
  | ok x => exact .value x
  | error failure =>
      cases failure with
      | broken breakdown => exact .broken breakdown
      | diagnosed d =>
          obtain ⟨fault, position, expression⟩ := d
          cases position with
          | none => exact .unplaced fault _ _
          | some p =>
              obtain ⟨middle, hmem, rfl⟩ := h _ p rfl rfl
              obtain ⟨k, hk⟩ := List.getElem?_of_mem hmem
              have hk' := hk
              rw [Glyph.getElem?_ofText_compact, Option.map_eq_some_iff] at hk
              rw [hcompact, Glyph.getElem?_ofText_compact,
                Option.map_eq_some_iff] at hk'
              obtain ⟨glyph, hglyph, rfl⟩ := hk
              obtain ⟨glyph', hglyph', -⟩ := hk'
              have halike := Alike.placed fault k hglyph hglyph'
                (expression.map fun _ => text) (expression.map fun _ => text')
              rwa [← position_spread hglyph, ← position_spread hglyph']
                at halike

/-- Two texts with the same characters between their blanks, both within
the limit, come to the same value or to the same fault at the same
character. The calculator is left with the same bindings, and so is the
world, in which the resolver may keep account of its questions. -/
theorem evaluate_alike {σ : Type} (c : Calculator)
    {resolver : Resolver (StateM σ)} (hunplaced : resolver.Unplaced)
    {text text' : String}
    (hsame : (text.toList.filter fun c => !isBlank c)
      = text'.toList.filter fun c => !isBlank c)
    (hlength : text.length ≤ c.settings.limits.of .expressionLength)
    (hlength' : text'.length ≤ c.settings.limits.of .expressionLength)
    (world : σ) :
    let after := (c.evaluate resolver text).run world
    let after' := (c.evaluate resolver text').run world
    Alike text text' after.1.1 after'.1.1 ∧ after'.1.2 = after.1.2
      ∧ after'.2 = after.2 := by
  intro after after'
  have hcompact : compact text = compact text' := congrArg String.ofList hsame
  have hshort :
      (compact text).length ≤ c.settings.limits.of .expressionLength := by
    have hle := length_compact_le text
    omega
  have hafter : after
      = (spread text).ending
        ((c.evaluate resolver (compact text)).run world) :=
    (spread text).evaluate_eq c hunplaced (ofText_eq_spread text) hshort
      hlength world
  have hafter' : after'
      = (spread text').ending
        ((c.evaluate resolver (compact text)).run world) := by
    rw [hcompact] at hshort ⊢
    exact (spread text').evaluate_eq c hunplaced (ofText_eq_spread text')
      hshort hlength'
      world
  rw [hafter, hafter']
  refine ⟨alike_spread hcompact fun d p houtcome hp => ?_, rfl, rfl⟩
  exact offset_of_position c hunplaced hshort houtcome hp

/-- A resolver that notes its questions, knows no `u` and gives every other
name the value zero. With blanks in the middle of names and numbers it is
asked for the same three names. -/
theorem evaluate_alike_spaced :
    let resolver : Resolver (StateM (List String)) := ⟨fun name asked =>
      (if name = "u" then
          .error (.diagnosed ⟨.unknownVariable name, none, none⟩)
        else .ok (.int 0), asked ++ [name])⟩
    let c : Calculator := {}
    let after := (c.evaluate resolver "ab+1.50*(x-u)/0").run []
    let after' := (c.evaluate resolver " a b + 1. 5\t0*(x - u ) /0").run []
    resolver.Unplaced
      ∧ Alike "ab+1.50*(x-u)/0" " a b + 1. 5\t0*(x - u ) /0" after.1.1
        after'.1.1
      ∧ after'.1.2 = after.1.2 ∧ after'.2 = after.2
      ∧ after.2 = ["ab", "x", "u"] := by
  intro resolver c after after'
  have hunplaced : resolver.Unplaced := by
    intro name world d hd
    change (if name = "u" then _ else _) = _ at hd
    split at hd
    · cases hd
      rfl
    · cases hd
  obtain ⟨halike, hcalculator, hquestions⟩ :
      Alike "ab+1.50*(x-u)/0" " a b + 1. 5\t0*(x - u ) /0" after.1.1 after'.1.1
        ∧ after'.1.2 = after.1.2 ∧ after'.2 = after.2 :=
    evaluate_alike c hunplaced (by decide) (by decide) (by decide) []
  exact ⟨hunplaced, halike, hcalculator, hquestions, by decide +kernel⟩

end Calculator

end Reckoner

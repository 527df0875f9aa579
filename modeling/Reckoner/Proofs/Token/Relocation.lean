/-
Moving the characters of a text.

The stages of a calculation hand positions on and never look at them: no
branch is taken on one and none is computed. A `Relocation` says where
each offset is moved to and which text is reported, and everything that
carries positions can be relocated: characters, lexemes, tokens,
diagnostics. Each stage then does to relocated things what it did to the
things, relocated. This file has the first stage, scanning
(`Relocation.scan_glyphs`).

Any text comes from another with the same characters between its blanks by
such a move, so blanks are nothing but a relocation.
-/
import Reckoner.Token.Scan

namespace Reckoner

-- ========================================================= the relocation

/-- Where each offset is moved to, and the text that is reported. -/
structure Relocation where
  offset : Nat → Nat
  source : String

/-- An outcome whose error or result is changed. -/
def recast {ε ε' α α' : Type} (error : ε → ε') (ok : α → α') :
    Except ε α → Except ε' α'
  | .ok a => .ok (ok a)
  | .error e => .error (error e)

/-- What follows an outcome that was changed, changed, follows it. -/
theorem recast_bind {ε ε' α α' β β' : Type} {error : ε → ε'} {ok : α → α'}
    {next : β → β'} {x : Except ε α} {f : α → Except ε β}
    {f' : α' → Except ε' β'} (h : ∀ a, f' (ok a) = recast error next (f a)) :
    (recast error ok x).bind f' = recast error next (x.bind f) := by
  cases x with
  | error e => rfl
  | ok a => exact h a

namespace Relocation

variable (r : Relocation)

/-- Positions are offsets here; what is negative counts as the first. -/
def position (p : Int) : Int := r.offset p.toNat

/-- A character somewhere else. -/
def glyph (glyph : Glyph) : Glyph :=
  { glyph with offset := r.offset glyph.offset }

/-- A lexeme, with each of its characters moved. -/
def lexeme (lexeme : Lexeme) : Lexeme :=
  ⟨r.glyph lexeme.first, lexeme.more.map r.glyph⟩

/-- A token somewhere else. -/
def token (token : Token) : Token :=
  { token with position := r.position token.position }

/-- A diagnostic at its new place, on the text that is reported. -/
def diagnostic (d : Diagnostic) : Diagnostic where
  fault := d.fault
  position := d.position.map r.position
  expression := d.expression.map fun _ => r.source

/-- A failure, moved if it has a place. Breakdowns have none. -/
def failure : Failure → Failure
  | .diagnosed d => .diagnosed (r.diagnostic d)
  | .broken breakdown => .broken breakdown

@[simp] theorem token_kind (token : Token) :
    (r.token token).kind = token.kind := rfl

@[simp] theorem token_text (token : Token) :
    (r.token token).text = token.text := rfl

@[simp] theorem token_number (token : Token) :
    (r.token token).number = token.number := rfl

@[simp] theorem token_operator (token : Token) :
    (r.token token).operator = token.operator := rfl

@[simp] theorem token_position (token : Token) :
    (r.token token).position = r.position token.position := rfl

/-- A failure that stays as it is keeps its place. -/
theorem position_of_failure_eq {d : Diagnostic} {p : Int}
    (h : r.failure (.diagnosed d) = .diagnosed d) (hp : d.position = some p) :
    r.position p = p := by
  have hposition : d.position.map r.position = d.position :=
    congrArg Diagnostic.position (Failure.diagnosed.inj h)
  rw [hp] at hposition
  exact Option.some.inj hposition

/-- The move of all offsets but some. -/
def displacing (source : String) (kept : Nat → Prop) [DecidablePred kept] :
    Relocation where
  offset k := if kept k then k else k + 1
  source := source

/-- What is kept stays where it is, and nothing else does. -/
theorem position_displacing_eq_iff {source : String} {kept : Nat → Prop}
    [DecidablePred kept] {p : Int} :
    (displacing source kept).position p = p ↔ 0 ≤ p ∧ kept p.toNat := by
  by_cases hkept : kept p.toNat
  · have hsame : (displacing source kept).position p = p.toNat := by
      simp [position, displacing, hkept]
    rw [hsame]
    simp only [hkept, and_true]
    omega
  · have hmoved : (displacing source kept).position p = p.toNat + 1 := by
      simp [position, displacing, hkept]
    rw [hmoved]
    simp only [hkept, and_false, iff_false]
    omega

-- =========================================================== the scanning

/-- Where a lexeme ends is told from characters, not from where they are. -/
theorem take_glyphs (first : Glyph) (rest : List Glyph) :
    Lexeme.take (r.glyph first) (rest.map r.glyph)
      = r.lexeme (Lexeme.take first rest) := by
  rw [Lexeme.take, List.takeWhile_map]
  rfl

/-- What follows a lexeme still follows it. -/
theorem skip_glyphs (first : Glyph) (rest : List Glyph) :
    Lexeme.skip (r.glyph first) (rest.map r.glyph)
      = (Lexeme.skip first rest).map r.glyph := by
  rw [Lexeme.skip, List.dropWhile_map]
  rfl

private theorem chars_lexeme (lexeme : Lexeme) :
    (r.lexeme lexeme).chars = lexeme.chars := by
  show _ :: (lexeme.more.map r.glyph).map Glyph.char = _
  rw [List.map_map]
  rfl

/-- A lexeme that is moved is the same token elsewhere, or has the same
fault there. -/
theorem token_lexeme (registry : Registry) (source : String)
    (lexeme : Lexeme) : (r.lexeme lexeme).token registry r.source
      = recast r.diagnostic r.token (lexeme.token registry source) := by
  have htext : (r.lexeme lexeme).text = lexeme.text := by
    rw [Lexeme.text, chars_lexeme]
    rfl
  have hfirst : (r.lexeme lexeme).first = r.glyph lexeme.first := rfl
  have hchar : (r.glyph lexeme.first).char = lexeme.first.char := rfl
  simp only [Lexeme.token, htext, chars_lexeme, hfirst, hchar]
  cases Operator.ofSymbol? lexeme.first.char with
  | some op => rfl
  | none =>
      cases TokenKind.ofDelimiter? lexeme.first.char with
      | some kind => rfl
      | none =>
          dsimp only
          by_cases hnumeral : Lexeme.isNumeralPart lexeme.first.char = true
          · rw [if_pos hnumeral, if_pos hnumeral]
            cases Decimal.literal? lexeme.chars <;> rfl
          · rw [if_neg hnumeral, if_neg hnumeral]
            by_cases hletter : Text.isAsciiLetter lexeme.first.char = true
            · rw [if_pos hletter, if_pos hletter]
              rfl
            · rw [if_neg hletter, if_neg hletter]
              rfl

theorem check_position (limits : Limits) (resource : Resource) (actual : Int)
    (position : Int) :
    limits.check resource actual (some (r.position position))
      = recast r.diagnostic id
        (limits.check resource actual (some position)) := by
  unfold Limits.check
  dsimp only
  split <;> rfl

/-- By induction on the lexemes: each gives its token before and after the
move, and the count that is held against the limit is the same. -/
theorem scanFrom_glyphs (registry : Registry) (limits : Limits)
    (source : String) (count : Nat) (glyphs : List Glyph) :
    Token.scanFrom registry limits r.source count (glyphs.map r.glyph)
      = recast r.diagnostic (List.map r.token)
          (Token.scanFrom registry limits source count glyphs) := by
  fun_induction Token.scanFrom registry limits source count glyphs with
  | case1 count => rw [List.map_nil, Token.scanFrom, recast, List.map_nil]
  | case2 count first rest ih =>
      rw [List.map_cons, Token.scanFrom, take_glyphs, skip_glyphs,
        token_lexeme, ih]
      refine recast_bind fun token => ?_
      rw [token_position, check_position]
      exact recast_bind fun _ => recast_bind fun tokens => rfl

/-- A text whose characters come from those of another by a move, both short
enough, has the same tokens or the same fault, moved. -/
theorem scan_glyphs (registry : Registry) (limits : Limits) {text : String}
    (hglyphs : Glyph.ofText r.source = (Glyph.ofText text).map r.glyph)
    (hlength : text.length ≤ limits.of .expressionLength)
    (hlength' : r.source.length ≤ limits.of .expressionLength) :
    Token.scan registry limits r.source
      = recast r.diagnostic (List.map r.token)
        (Token.scan registry limits text) := by
  rw [Token.scan, Token.scan, Limits.check_eq_ok_iff.mpr hlength,
    Limits.check_eq_ok_iff.mpr hlength', hglyphs]
  exact r.scanFrom_glyphs registry.orBuiltin limits text 0 _

end Relocation

end Reckoner

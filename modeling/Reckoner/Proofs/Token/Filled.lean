/-
What scanned tokens carry.

The later stages look into tokens: the converter for the operator of an
operator token and for a function's name in the registry, the evaluation
for the value of a number. Tokens that are made by hand may lack any of
these. Those that a text is scanned to do not (`lands_scan_filled`): they are
`Filled`, with the same registry that the later stages use.
-/
import Reckoner.Proofs.Foreseen
import Reckoner.Token.Scan

namespace Reckoner

-- =========================================================== the property

/-- The kinds of tokens that are gone after the conversion. -/
def TokenKind.isDelimiter : TokenKind → Bool
  | .leftParen | .rightParen | .comma => true
  | _ => false

namespace Token

/-- A token with which the evaluation can do something: a variable, a
number with its value, an operator that says which one it is, a function
of the registry. -/
def Ready (registry : Registry) (token : Token) : Prop :=
  match token.kind with
  | .number => token.number.isSome = true
  | .identifier => True
  | .function => registry.contains token.text = true
  | .operator => token.operator.isSome = true
  | .leftParen | .rightParen | .comma => False

/-- A token that lacks nothing. -/
def Filled (registry : Registry) (token : Token) : Prop :=
  token.kind.isDelimiter = true ∨ token.Ready registry

variable {registry : Registry} {token : Token}

/-- What the scan filled in is all that the evaluation looks for. -/
theorem Filled.ready (h : token.Filled registry)
    (hkind : token.kind.isDelimiter = false) : token.Ready registry := by
  rcases h with h | h
  · rw [h] at hkind
    cases hkind
  · exact h

theorem Ready.contains (h : token.Ready registry)
    (hkind : token.kind = .function) :
    registry.contains token.text = true := by
  simpa [Ready, hkind] using h

theorem Ready.operator (h : token.Ready registry)
    (hkind : token.kind = .operator) :
    ∃ op, token.operator = some op := by
  simpa [Ready, hkind, Option.isSome_iff_exists] using h

theorem Ready.number (h : token.Ready registry)
    (hkind : token.kind = .number) :
    ∃ x, token.number = some x := by
  simpa [Ready, hkind, Option.isSome_iff_exists] using h

end Token

-- =========================================================== the scanning

open Token

/-- A lexeme is a token that lacks nothing or has a foreseen fault. -/
theorem Lexeme.lands_token (registry : Registry) (source : String)
    (lexeme : Lexeme) :
    Lands Diagnostic.IsForeseen (Filled registry)
      (lexeme.token registry source) := by
  unfold Lexeme.token
  dsimp only
  cases Operator.ofSymbol? lexeme.first.char with
  | some op => exact Or.inr rfl
  | none =>
      cases hkind : TokenKind.ofDelimiter? lexeme.first.char with
      | some kind =>
          refine Or.inl ?_
          unfold TokenKind.ofDelimiter? at hkind
          split at hkind <;> cases hkind <;> rfl
      | none =>
          dsimp only
          split
          · -- a numeral
            cases Decimal.literal? lexeme.chars with
            | some x => exact Or.inr rfl
            | none => exact rfl
          · split
            · -- a name, which the registry tells to be that of a function
              refine Or.inr ?_
              cases hfunction : registry.contains lexeme.text with
              | true => simpa [Ready] using hfunction
              | false => simp [Ready]
            · exact rfl

theorem lands_check (limits : Limits) (resource : Resource) (actual : Int)
    (position : Option Int) :
    Lands Diagnostic.IsForeseen (fun _ => True)
      (limits.check resource actual position) := by
  unfold Limits.check
  dsimp only
  split
  · exact rfl
  · trivial

section Scanning

variable {error : Diagnostic → Prop} {ok : Token → Prop}
variable {registry : Registry} {limits : Limits} {source : String}

/-- If every lexeme lands and every check does, then so do all tokens of a
scan. -/
theorem lands_scanFrom
    (hlexeme : ∀ lexeme : Lexeme,
      Lands error ok (lexeme.token registry source))
    (hcheck : ∀ resource actual position,
      Lands error (fun _ => True) (limits.check resource actual position))
    (count : Nat) (glyphs : List Glyph) :
    Lands error (∀ token ∈ ·, ok token)
      (scanFrom registry limits source count glyphs) := by
  fun_induction scanFrom registry limits source count glyphs with
  | case1 => exact fun _ h => absurd h (by simp)
  | case2 count first rest ih =>
      refine (hlexeme _).bind fun token htoken => ?_
      refine (hcheck .tokens _ _).bind fun _ _ => ?_
      refine ih.bind fun tokens htokens => ?_
      simpa [Lands] using ⟨htoken, htokens⟩

/-- What holds of each lexeme, and of the limit, holds of the scan. -/
theorem lands_scan
    (hlexeme : ∀ lexeme : Lexeme,
      Lands error ok (lexeme.token registry.orBuiltin source))
    (hcheck : ∀ resource actual position,
      Lands error (fun _ => True) (limits.check resource actual position)) :
    Lands error (∀ token ∈ ·, ok token) (scan registry limits source) :=
  (hcheck .expressionLength _ _).bind
    fun _ _ => lands_scanFrom hlexeme hcheck 0 _

end Scanning

/-- A text is scanned to tokens that lack nothing, unless it has a foreseen
fault. -/
theorem lands_scan_filled (registry : Registry) (limits : Limits)
    (text : String) :
    Lands Diagnostic.IsForeseen (∀ token ∈ ·, token.Filled registry.orBuiltin)
      (scan registry limits text) :=
  lands_scan (Lexeme.lands_token registry.orBuiltin text) (lands_check limits)

end Reckoner

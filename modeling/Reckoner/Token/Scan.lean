/-
From text to tokens.

Blanks are dropped before anything else, so `1 2` is the number `12`;
offsets refer to the text as it was given. What is left falls into
lexemes: maximal runs of digits and points, maximal runs of letters, and
single other characters. Each lexeme is one token or one fault, and the
tokens are counted against their limit as they come.

Main facts: a lexeme and what follows it are together what was there
(`Lexeme.take_append_skip`), so no character is lost or read twice, and
scanning ends.
-/
import Reckoner.Text.Blank
import Reckoner.Text.Digit
import Reckoner.Number.Decimal
import Reckoner.Limits.Check
import Reckoner.Registry
import Reckoner.Token

namespace Reckoner

open Text

-- ============================================================ the lexemes

/-- A character of an expression and its offset. -/
structure Glyph where
  char : Char
  offset : Nat
  deriving DecidableEq, Repr

/-- The characters of a text that are not blank. -/
def Glyph.ofText (text : String) : List Glyph :=
  (text.toList.zipIdx.map fun (c, offset) => ⟨c, offset⟩).filter
    fun glyph => !isBlank glyph.char

/-- A lexeme: its first character and those after it. -/
structure Lexeme where
  first : Glyph
  more : List Glyph
  deriving DecidableEq, Repr

namespace Lexeme

/-- The characters that numerals are made of. -/
def isNumeralPart (c : Char) : Bool := isAsciiDigit c || c == '.'

/-- The characters that may follow a given one within a lexeme. -/
def continues (first c : Char) : Bool :=
  if isNumeralPart first then isNumeralPart c
  else isAsciiLetter first && isAsciiLetter c

/-- The lexeme that begins with a character and goes on in the
characters after it. -/
def take (first : Glyph) (rest : List Glyph) : Lexeme :=
  ⟨first, rest.takeWhile fun glyph => continues first.char glyph.char⟩

def skip (first : Glyph) (rest : List Glyph) : List Glyph :=
  rest.dropWhile fun glyph => continues first.char glyph.char

def chars (lexeme : Lexeme) : List Char :=
  lexeme.first.char :: lexeme.more.map Glyph.char

def text (lexeme : Lexeme) : String := String.ofList lexeme.chars

/-- A lexeme and what follows it are what was there. -/
theorem take_append_skip (first : Glyph) (rest : List Glyph) :
    (take first rest).first :: ((take first rest).more ++ skip first rest)
      = first :: rest := by
  simp [take, skip, List.takeWhile_append_dropWhile]

/-- What follows a lexeme is no longer than what followed its first
character. -/
theorem skip_length_le (first : Glyph) (rest : List Glyph) :
    (skip first rest).length ≤ rest.length :=
  (List.dropWhile_sublist _).length_le

end Lexeme

-- ============================================================= the tokens

/-- The delimiter that a character is. -/
def TokenKind.ofDelimiter? : Char → Option TokenKind
  | '(' => some .leftParen
  | ')' => some .rightParen
  | ',' => some .comma
  | _ => none

/-- The token that a lexeme is, or the fault in it. -/
def Lexeme.token (registry : Registry) (source : String) (lexeme : Lexeme) :
    Except Diagnostic Token :=
  let c := lexeme.first.char
  let position : Int := lexeme.first.offset
  let text := lexeme.text
  match Operator.ofSymbol? c, TokenKind.ofDelimiter? c with
  | some op, _ => .ok ⟨.operator, text, position, none, some op⟩
  | none, some kind => .ok ⟨kind, text, position, none, none⟩
  | none, none =>
      if isNumeralPart c then
        match Decimal.literal? lexeme.chars with
        | some x => .ok ⟨.number, text, position, some x, none⟩
        | none => .error ⟨.malformedLiteral text, some position, some source⟩
      else if isAsciiLetter c then
        let kind := if registry.contains text then .function else .identifier
        .ok ⟨kind, text, position, none, none⟩
      else .error ⟨.invalidCharacter c, some position, some source⟩

namespace Token

/-- The tokens of the given characters, where `count` tokens came
before. -/
def scanFrom (registry : Registry) (limits : Limits) (source : String) :
    Nat → List Glyph → Except Diagnostic (List Token)
  | _, [] => .ok []
  | count, first :: rest => do
      let token ← (Lexeme.take first rest).token registry source
      limits.check .tokens (count + 1 : Nat) (some token.position)
      let tokens ← scanFrom registry limits source (count + 1)
        (Lexeme.skip first rest)
      .ok (token :: tokens)
termination_by _ glyphs => glyphs.length
decreasing_by
  have := Lexeme.skip_length_le first rest
  simp only [List.length_cons]
  omega

/-- The tokens of an expression. -/
def scan (registry : Registry) (limits : Limits) (source : String) :
    Except Diagnostic (List Token) := do
  limits.check .expressionLength source.length none
  scanFrom registry.orBuiltin limits source 0 (Glyph.ofText source)

end Token

end Reckoner

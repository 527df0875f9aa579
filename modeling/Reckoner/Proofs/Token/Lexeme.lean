/-
The lexemes of a text, and what the scan makes of them.

The lexical grammar is said here without the scan. The characters that are
not blank fall into runs: neighbours belong together if both are digits or
points, or both are letters (`Lexeme.runs`). A run is read as a token in
one way (`Lexeme.Spells`) or is at fault in one way (`Lexeme.AtFault`),
where the count of the tokens is looked at last.

The scan takes one lexeme after the other from the front. What it takes is
the first run (`Lexeme.runs_cons`), and it makes a token of it or reports
what is wrong with it, as the reading says (`Lexeme.lands_token_take`).
-/
import Mathlib.Data.List.SplitBy
import Reckoner.Proofs.Foreseen
import Reckoner.Proofs.Number.Numeral
import Reckoner.Token.Scan

namespace Reckoner

open Text

-- =============================================================== the runs

namespace Lexeme

/-- Whether two neighbours belong to one lexeme. -/
def joins (c d : Char) : Bool :=
  (isNumeralPart c && isNumeralPart d) || (isAsciiLetter c && isAsciiLetter d)

/-- The maximal runs of digits and points, the maximal runs of letters, and
the other characters one by one. -/
def runs (glyphs : List Glyph) : List (List Glyph) :=
  glyphs.splitBy fun glyph next => joins glyph.char next.char

/-- No letter is part of a numeral. -/
theorem isNumeralPart_letter {c : Char} (h : isAsciiLetter c = true) :
    isNumeralPart c = false := by
  simp only [isAsciiLetter, Bool.or_eq_true, Bool.and_eq_true,
    decide_eq_true_eq, Char.le_def, UInt32.le_iff_toNat_le] at h
  have ha : ('a' : Char).val.toNat = 97 := rfl
  have hA : ('A' : Char).val.toNat = 65 := rfl
  have hpoint : c ≠ '.' := by
    rintro rfl
    have hdot : ('.' : Char).val.toNat = 46 := rfl
    omega
  have hdigit : isAsciiDigit c = false := by
    rw [Bool.eq_false_iff]
    intro hdigit
    obtain ⟨-, hhigh⟩ := Decimal.isAsciiDigit_iff.mp hdigit
    have hval : c.val.toNat ≤ 57 := hhigh
    omega
  rw [isNumeralPart, hdigit, Bool.false_or, beq_eq_false_iff_ne]
  exact hpoint

/-- Within a lexeme every character goes on as the first one does. -/
theorem joins_eq_continues {first c : Char}
    (h : c = first ∨ continues first c = true) (d : Char) :
    joins c d = continues first d := by
  unfold continues at h ⊢
  unfold joins
  by_cases hnumeral : isNumeralPart first = true
  · rw [if_pos hnumeral] at h ⊢
    have hc : isNumeralPart c = true := by
      rcases h with rfl | h
      · exact hnumeral
      · exact h
    have hletter : isAsciiLetter c = false := by
      rw [Bool.eq_false_iff]
      intro hletter
      rw [isNumeralPart_letter hletter] at hc
      cases hc
    rw [hc, hletter, Bool.true_and, Bool.false_and, Bool.or_false]
  · rw [if_neg hnumeral] at h ⊢
    rw [Bool.not_eq_true] at hnumeral
    rcases h with rfl | h
    · rw [hnumeral, Bool.false_and, Bool.false_or]
    · rw [Bool.and_eq_true] at h
      rw [isNumeralPart_letter h.2, h.1, h.2, Bool.false_and, Bool.false_or]

/-- The characters of a lexeme, with their places. -/
def glyphs (lexeme : Lexeme) : List Glyph := lexeme.first :: lexeme.more

private theorem continues_of_mem_more {first : Glyph} {rest : List Glyph}
    {glyph : Glyph}
    (h : glyph ∈ (take first rest).more) :
    continues first.char glyph.char = true := by
  have hmem : glyph ∈ rest.takeWhile
    fun glyph => continues first.char glyph.char := h
  have hprefix := List.mem_takeWhile_imp hmem
  exact hprefix

private theorem continues_head_skip {first : Glyph} {rest : List Glyph}
    {next : Glyph}
    (h : next ∈ (skip first rest).head?) :
    continues first.char next.char = false := by
  have hhead :=
    List.head?_dropWhile_not
      (fun glyph => continues first.char glyph.char) rest
  have hsome :
      (rest.dropWhile fun glyph => continues first.char glyph.char).head?
      = some next := h
  rwa [hsome] at hhead

private theorem of_mem_glyphs_take {first : Glyph} {rest : List Glyph}
    {glyph : Glyph} (h : glyph ∈ (take first rest).glyphs) :
    glyph.char = first.char ∨ continues first.char glyph.char = true := by
  rcases List.mem_cons.mp h with rfl | h
  · exact Or.inl rfl
  · exact Or.inr (continues_of_mem_more h)

/-- The characters of a lexeme all belong together. -/
theorem isChain_glyphs_take (first : Glyph) (rest : List Glyph) :
    (take first rest).glyphs.IsChain
      fun glyph next => joins glyph.char next.char = true := by
  refine List.Pairwise.isChain
    (List.pairwise_cons.mpr ⟨fun next hnext => ?_, ?_⟩)
  · rw [joins_eq_continues (Or.inl rfl)]
    exact continues_of_mem_more hnext
  · refine List.pairwise_of_forall_mem_list fun glyph hglyph next hnext => ?_
    rw [joins_eq_continues (Or.inr (continues_of_mem_more hglyph))]
    exact continues_of_mem_more hnext

/-- What the scan takes first is the first run. -/
theorem runs_cons (first : Glyph) (rest : List Glyph) :
    runs (first :: rest)
      = (take first rest).glyphs :: runs (skip first rest) := by
  have hsplit : first :: rest = (take first rest).glyphs ++ skip first rest :=
    (take_append_skip first rest).symm
  have hend : ∀ glyph ∈ (take first rest).glyphs.getLast?,
      ∀ next ∈ (skip first rest).head?,
        joins glyph.char next.char = false := by
    intro glyph hglyph next hnext
    have hmem := of_mem_glyphs_take (List.mem_of_getLast? hglyph)
    rw [joins_eq_continues hmem]
    exact continues_head_skip hnext
  have hne : (take first rest).glyphs ≠ [] := List.cons_ne_nil _ _
  rw [hsplit]
  unfold runs
  rw [List.splitBy_append hend,
    List.splitBy_of_isChain hne (isChain_glyphs_take first rest)]
  rfl

example : (runs (Glyph.ofText "a b1. 2-")).map (·.map Glyph.char)
    = [['a', 'b'], ['1', '.', '2'], ['-']] := by decide

-- ============================================================ the readings

/-- The symbols of operators, the parentheses and the comma. -/
def IsSymbol (cs : List Char) : Prop :=
  ∃ c ∈ ['+', '-', '*', '/', '^', '(', ')', ','], cs = [c]

/-- One or more letters. -/
def IsName (cs : List Char) : Prop :=
  cs ≠ [] ∧ ∀ c ∈ cs, isAsciiLetter c = true

/-- What a lexeme may be. -/
def WellFormed (cs : List Char) : Prop :=
  IsSymbol cs ∨ IsName cs ∨ Decimal.IsNumeral cs

/-- How the characters of a lexeme are read: as a token of which kind, with
which number or operator. -/
inductive Spells (registry : Registry) :
    List Char → TokenKind → Option Float → Option Operator → Prop where
  | operator {op : Operator} (h : op ≠ .negate) :
      Spells registry [op.symbol] .operator none (some op)
  | leftParen : Spells registry ['('] .leftParen none none
  | rightParen : Spells registry [')'] .rightParen none none
  | comma : Spells registry [','] .comma none none
  | function {cs : List Char} (h : IsName cs)
      (hknown : registry.contains (String.ofList cs) = true) :
      Spells registry cs .function none none
  | identifier {cs : List Char} (h : IsName cs)
      (hunknown : registry.contains (String.ofList cs) = false) :
      Spells registry cs .identifier none none
  | number {cs : List Char} {x : Float} (h : Decimal.IsNumeral cs)
      (hvalue : Decimal.read? (String.ofList cs) = some x) :
      Spells registry cs .number (some x) none

/-- The characters of a run. -/
def charsOf (run : List Glyph) : List Char := run.map Glyph.char

/-- Whether a run is a lexeme that may be the token with the given
number. -/
def Admitted (limits : Limits) (index : Nat) (run : List Glyph) : Prop :=
  WellFormed (charsOf run) ∧ (index : Int) ≤ limits.of .tokens

/-- The report on a run that is no lexeme, or that is one token too many.
That it is no lexeme is found first. -/
inductive AtFault (limits : Limits) (source : String) (index : Nat) :
    List Glyph → Diagnostic → Prop where
  | invalidCharacter {c : Char} (offset : Nat) (hsymbol : ¬ IsSymbol [c])
      (hletter : isAsciiLetter c = false) (hpart : isNumeralPart c = false) :
      AtFault limits source index [⟨c, offset⟩]
        ⟨.invalidCharacter c, some offset, some source⟩
  | malformedNumber {first : Glyph} {more : List Glyph}
      (hparts : ∀ c ∈ charsOf (first :: more), isNumeralPart c = true)
      (hnumeral : ¬ Decimal.IsNumeral (charsOf (first :: more))) :
      AtFault limits source index (first :: more)
        ⟨.malformedLiteral (String.ofList (charsOf (first :: more))),
          some first.offset, some source⟩
  | tooMany {first : Glyph} {more : List Glyph}
      (hlexeme : WellFormed (charsOf (first :: more)))
      (hindex : limits.of .tokens < index) :
      AtFault limits source index (first :: more)
        ⟨.limitExceeded .tokens (limits.of .tokens) index,
          some first.offset, none⟩

-- ======================================================== lexeme by lexeme

theorem isNumeralPart_of_numeral {cs : List Char} (h : Decimal.IsNumeral cs)
    {c : Char} (hc : c ∈ cs) : isNumeralPart c = true := by
  rw [isNumeralPart, Bool.or_eq_true, beq_iff_eq]
  rcases h with hdigits | ⟨whole, fraction, hwhole, hfraction, rfl⟩
  · exact Or.inl (hdigits.2 c hc)
  · rcases List.mem_append.mp hc with hc | hc
    · exact Or.inl (hwhole.2 c hc)
    · rcases List.mem_cons.mp hc with rfl | hc
      · exact Or.inr rfl
      · exact Or.inl (hfraction.2 c hc)

/-- Symbols are neither letters nor parts of numerals. -/
theorem classes_of_symbol {cs : List Char} (h : IsSymbol cs) {c : Char}
    (hc : c ∈ cs) :
    isNumeralPart c = false ∧ isAsciiLetter c = false := by
  obtain ⟨d, hd, rfl⟩ := h
  obtain rfl : c = d := List.mem_singleton.mp hc
  have hall : ['+', '-', '*', '/', '^', '(', ')', ','].all
      (fun e => !isNumeralPart e && !isAsciiLetter e) = true := by decide
  have hc := List.all_eq_true.mp hall c hd
  rwa [Bool.and_eq_true, Bool.not_eq_true', Bool.not_eq_true'] at hc

/-- A run that is at fault is not admitted. -/
theorem AtFault.not_admitted {limits : Limits} {source : String} {index : Nat}
    {run : List Glyph} {d : Diagnostic}
    (h : AtFault limits source index run d) :
    ¬ Admitted limits index run := by
  rintro ⟨hlexeme, hindex⟩
  cases h with
  | invalidCharacter offset hsymbol hletter hpart =>
      rcases hlexeme with h | h | h
      · exact hsymbol h
      · have hc := h.2 _ (List.mem_singleton.mpr rfl)
        rw [hletter] at hc
        cases hc
      · have hc := isNumeralPart_of_numeral h (List.mem_singleton.mpr rfl)
        rw [hpart] at hc
        cases hc
  | malformedNumber hparts hnumeral =>
      have hfirst := hparts _ (List.mem_cons_self ..)
      rcases hlexeme with h | h | h
      · rw [(classes_of_symbol h (List.mem_cons_self ..)).1] at hfirst
        cases hfirst
      · rw [isNumeralPart_letter (h.2 _ (List.mem_cons_self ..))] at hfirst
        cases hfirst
      · exact hnumeral h
  | tooMany _ htoo => omega

end Lexeme

/-- A token is that of a run: it is read from it, has it as its text and
stands where it begins. -/
structure Token.IsOf (registry : Registry) (run : List Glyph) (token : Token) :
    Prop where
  spells : Lexeme.Spells registry (Lexeme.charsOf run) token.kind token.number
    token.operator
  text : token.text = String.ofList (Lexeme.charsOf run)
  position : run.head?.map (fun glyph => (glyph.offset : Int))
    = some token.position

namespace Lexeme

private theorem chars_eq (lexeme : Lexeme) :
    lexeme.chars = charsOf lexeme.glyphs := rfl

/-- A character that is neither part of a numeral nor a letter is a lexeme
by itself. -/
theorem glyphs_take_single {first : Glyph} (rest : List Glyph)
    (hpart : isNumeralPart first.char = false)
    (hletter : isAsciiLetter first.char = false) :
    (take first rest).glyphs = [first] := by
  have hmore : (take first rest).more = [] := by
    refine List.eq_nil_iff_forall_not_mem.mpr fun glyph hglyph => ?_
    have hcontinues := continues_of_mem_more hglyph
    rw [continues, hpart, hletter, Bool.false_and] at hcontinues
    cases hcontinues
  rw [glyphs, hmore]
  rfl

theorem isSymbol_of_ofSymbol? {c : Char} {op : Operator}
    (h : Operator.ofSymbol? c = some op) : IsSymbol [c] := by
  obtain ⟨-, rfl⟩ := Operator.ofSymbol?_eq_some_iff.mp h
  refine ⟨op.symbol, ?_, rfl⟩
  cases op <;> decide

theorem spells_of_ofDelimiter? {registry : Registry} {c : Char}
    {kind : TokenKind} (h : TokenKind.ofDelimiter? c = some kind) :
    IsSymbol [c] ∧ Spells registry [c] kind none none := by
  unfold TokenKind.ofDelimiter? at h
  split at h
  · cases h
    exact ⟨⟨'(', by decide, rfl⟩, .leftParen⟩
  · cases h
    exact ⟨⟨')', by decide, rfl⟩, .rightParen⟩
  · cases h
    exact ⟨⟨',', by decide, rfl⟩, .comma⟩
  · cases h

/-- The characters that neither an operator nor a delimiter is. -/
theorem not_isSymbol {c : Char} (hop : Operator.ofSymbol? c = none)
    (hdelimiter : TokenKind.ofDelimiter? c = none) : ¬ IsSymbol [c] := by
  rintro ⟨d, hd, heq⟩
  obtain rfl : c = d := (List.cons.inj heq).1
  have hall : ['+', '-', '*', '/', '^', '(', ')', ','].all
      (fun e => (Operator.ofSymbol? e).isSome
        || (TokenKind.ofDelimiter? e).isSome)
        = true := by decide
  have hc := List.all_eq_true.mp hall c hd
  rw [hop, hdelimiter] at hc
  cases hc

section Taking

variable (registry : Registry) (source : String) {first : Glyph}
  (rest : List Glyph)

/-- A symbol is a lexeme and its own token. -/
theorem isOf_symbol {kind : TokenKind} {op : Option Operator}
    (hsymbol : IsSymbol [first.char])
    (hspells : Spells registry [first.char] kind none op) :
    Token.IsOf registry (take first rest).glyphs
        ⟨kind, (take first rest).text, first.offset, none, op⟩
      ∧ WellFormed (charsOf (take first rest).glyphs) := by
  obtain ⟨hpart, hletter⟩ :=
    classes_of_symbol hsymbol (List.mem_singleton.mpr rfl)
  have hglyphs := glyphs_take_single rest hpart hletter
  refine ⟨⟨?_, rfl, rfl⟩, Or.inl ?_⟩
  · rw [hglyphs]
    exact hspells
  · rw [hglyphs]
    exact hsymbol

/-- What holds of the first character and of all that go on from it holds of
the whole lexeme. -/
theorem of_mem_charsOf_take {p : Char → Prop} (hfirst : p first.char)
    (hmore : ∀ c, continues first.char c = true → p c) :
    ∀ c ∈ charsOf (take first rest).glyphs, p c := by
  intro c hc
  obtain ⟨glyph, hglyph, rfl⟩ := List.mem_map.mp hc
  rcases of_mem_glyphs_take hglyph with heq | hcontinues
  · rwa [heq]
  · exact hmore _ hcontinues

private theorem numeralParts_take (hpart : isNumeralPart first.char = true) :
    ∀ c ∈ charsOf (take first rest).glyphs, isNumeralPart c = true := by
  refine of_mem_charsOf_take rest hpart fun c hc => ?_
  rwa [continues, if_pos hpart] at hc

private theorem isName_take (hletter : isAsciiLetter first.char = true) :
    IsName (charsOf (take first rest).glyphs) := by
  refine ⟨List.cons_ne_nil _ _, of_mem_charsOf_take rest hletter
    fun c hc => ?_⟩
  have hpart : ¬ isNumeralPart first.char = true := by
    rw [isNumeralPart_letter hletter]
    exact Bool.false_ne_true
  rw [continues, if_neg hpart, Bool.and_eq_true] at hc
  exact hc.2

/-- The lexeme that the scan takes is read as a token if it is well-formed,
and reported as what is wrong with it otherwise. -/
theorem lands_token_take :
    Lands (fun d => ∀ limits index,
        AtFault limits source index (take first rest).glyphs d)
      (fun token => token.IsOf registry (take first rest).glyphs
        ∧ WellFormed (charsOf (take first rest).glyphs))
      ((take first rest).token registry source) := by
  have hfirst : (take first rest).first = first := rfl
  unfold token
  dsimp only
  rw [hfirst]
  -- The cases are those of the first character, in the order in which the
  -- scanner asks.
  cases hop : Operator.ofSymbol? first.char with
  | some op =>
      obtain ⟨hne, hchar⟩ := Operator.ofSymbol?_eq_some_iff.mp hop
      have hspells : Spells registry [first.char] .operator none (some op) :=
        hchar ▸ .operator hne
      exact isOf_symbol registry rest (isSymbol_of_ofSymbol? hop) hspells
  | none =>
      cases hdelimiter : TokenKind.ofDelimiter? first.char with
      | some kind =>
          obtain ⟨hsymbol, hspells⟩ := spells_of_ofDelimiter? hdelimiter
          exact isOf_symbol registry rest hsymbol hspells
      | none =>
          dsimp only
          by_cases hpart : isNumeralPart first.char = true
          · rw [if_pos hpart, chars_eq]
            cases hliteral : Decimal.literal?
              (charsOf (take first rest).glyphs) with
            | some x =>
                have hnumeral := Decimal.exists_literal?_iff.mp ⟨x, hliteral⟩
                have hvalue := Decimal.read?_of_literal? hliteral
                exact ⟨⟨.number hnumeral hvalue, rfl, rfl⟩,
                  Or.inr (Or.inr hnumeral)⟩
            | none =>
                refine fun limits index =>
                  .malformedNumber (numeralParts_take rest hpart)
                    fun hnumeral => ?_
                obtain ⟨x, hx⟩ := Decimal.exists_literal?_iff.mpr hnumeral
                have hnone : some x = none := hx.symm.trans hliteral
                cases hnone
          · rw [if_neg hpart]
            rw [Bool.not_eq_true] at hpart
            by_cases hletter : isAsciiLetter first.char = true
            · rw [if_pos hletter]
              have hname := isName_take rest hletter
              refine ⟨⟨?_, rfl, rfl⟩, Or.inr (Or.inl hname)⟩
              dsimp only
              -- a name is that of a function if the registry has it
              by_cases hknown : registry.contains (take first rest).text = true
              · rw [if_pos hknown]
                exact .function hname hknown
              · rw [if_neg hknown]
                exact .identifier hname (Bool.not_eq_true _ ▸ hknown)
            · rw [if_neg hletter]
              rw [Bool.not_eq_true] at hletter
              rw [glyphs_take_single rest hpart hletter]
              exact fun limits index =>
                .invalidCharacter _ (not_isSymbol hop hdelimiter) hletter hpart

end Taking

end Lexeme

end Reckoner

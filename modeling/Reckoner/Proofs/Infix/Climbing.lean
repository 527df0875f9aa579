/-
Precedence climbing, and why the converter does the same.

`climb` is the textbook reader: it reads an operand, and as long as an
operator follows that the operator before it does not go before, it
takes that operator and reads what stands behind it by climbing from
there. It recurses where the converter keeps a stack.

The two meet call by call. While `climb` works behind an operator, that
operator is the top of the converter's stack; what `climb` takes is what
that top holds back, and where `climb` stops is where the converter
sends the top out. So each call of `climb` is one `Emits` of the
postorder of the tree it returns, whatever precedences the table gives
(`climb_emits`), and brackets, calls and commas need nothing more,
because an inner level starts over from an open parenthesis.

Main facts: from the outermost level the reader never stops at an
operator (`climb_none_stops`), and every expression of the infix grammar
is read to its end and converted to the postorder of the tree read
(`toPostfix_eq_postorder_climb`).
-/
import Reckoner.Proofs.Infix.Phrase

namespace Reckoner.Expression

-- ================================================================= the reader

/-- What is left of some tokens after the first of them were read. -/
abbrev Remainder (tokens : List Token) :=
  { rest : List Token // rest.length < tokens.length }

/-- What is left of some tokens after some of them, or none, were
read. -/
abbrev Leftover (tokens : List Token) :=
  { rest : List Token // rest.length ≤ tokens.length }

/-- What follows a first token of the given kind. -/
def expect (kind : TokenKind) :
    (tokens : List Token) → Option (Remainder tokens)
  | [] => none
  | token :: rest =>
      if token.kind = kind then some ⟨rest, Nat.lt_succ_self _⟩ else none

/-- The binary operator that a token is, unless it ends what stands
behind `bound`. -/
def taken? (table : OperatorTable) (bound : Option Operator) (token : Token) :
    Option Operator :=
  token.meant?.filter fun op => op ≠ .negate ∧ table.stops bound op = false

section reader

variable (table : OperatorTable) (registry : Registry)

mutual

/-- Reads what stands behind the operator `bound`: an operand and all
that follows up to an operator that `bound` goes before. -/
def climb (bound : Option Operator) (tokens : List Token) :
    Option (Expression × Remainder tokens) := do
  let (left, rest) ← operand tokens
  let (e, rest') ← extend bound left rest.1
  return (e, ⟨rest'.1, Nat.lt_of_le_of_lt rest'.2 rest.2⟩)
termination_by (tokens.length, 1)
decreasing_by
  · exact Prod.Lex.right _ (by decide)
  · exact Prod.Lex.left _ _ rest.2

/-- Reads an operand: an atom or a minus sign and what stands behind
it. -/
def operand : (tokens : List Token) → Option (Expression × Remainder tokens)
  | [] => none
  | token :: rest =>
      match token.kind with
      | .number => some (.number token, ⟨rest, Nat.lt_succ_self _⟩)
      | .identifier => some (.identifier token, ⟨rest, Nat.lt_succ_self _⟩)
      | .operator =>
          if token.meant? = some .subtract then do
            let (body, rest') ← climb (some .negate) rest
            return (.negation token body, ⟨rest'.1, Nat.lt_succ_of_lt rest'.2⟩)
          else none
      | .leftParen => do
          let (e, inner) ← climb none rest
          let rest' ← expect .rightParen inner.1
          return (e, ⟨rest'.1,
            Nat.lt_succ_of_lt (Nat.lt_trans rest'.2 inner.2)⟩)
      | .function => do
          let spec ← registry.find? token.text
          let inner ← expect .leftParen rest
          let (args, inner') ← arguments spec.arity inner.1
          let rest' ← expect .rightParen inner'.1
          return (.call token args, ⟨rest'.1, Nat.lt_succ_of_lt
            (Nat.lt_trans (Nat.lt_of_lt_of_le rest'.2 inner'.2) inner.2)⟩)
      | .rightParen | .comma => none
termination_by tokens => (tokens.length, 0)
decreasing_by
  · exact Prod.Lex.left _ _ (Nat.lt_succ_self _)
  · exact Prod.Lex.left _ _ (Nat.lt_succ_self _)
  · exact Prod.Lex.left _ _ (Nat.lt_succ_of_lt inner.2)

/-- Extends an operand by the operators that follow, up to one that
`bound` goes before. -/
def extend (bound : Option Operator) (left : Expression) :
    (tokens : List Token) → Option (Expression × Leftover tokens)
  | [] => some (left, ⟨[], Nat.le_refl _⟩)
  | token :: rest =>
      match taken? table bound token with
      | none => some (left, ⟨token :: rest, Nat.le_refl _⟩)
      | some op => do
          let (right, rest') ← climb (some op) rest
          let (e, rest'') ← extend bound (.binary op token left right) rest'.1
          return (e, ⟨rest''.1, Nat.le_succ_of_le
            (Nat.le_of_lt (Nat.lt_of_le_of_lt rest''.2 rest'.2))⟩)
termination_by tokens => (tokens.length, 0)
decreasing_by
  · exact Prod.Lex.left _ _ (Nat.lt_succ_self _)
  · exact Prod.Lex.left _ _ (Nat.lt_succ_of_lt rest'.2)

/-- Reads as many levels as given, with commas between them. -/
def arguments : Nat → (tokens : List Token) →
    Option (List Expression × Leftover tokens)
  | 0, tokens => some ([], ⟨tokens, Nat.le_refl _⟩)
  | 1, tokens => do
      let (e, rest) ← climb none tokens
      return ([e], ⟨rest.1, Nat.le_of_lt rest.2⟩)
  | count + 2, tokens => do
      let (e, rest) ← climb none tokens
      let rest' ← expect .comma rest.1
      let (es, rest'') ← arguments (count + 1) rest'.1
      return (e :: es, ⟨rest''.1, Nat.le_of_lt (Nat.lt_of_le_of_lt rest''.2
        (Nat.lt_trans rest'.2 rest.2))⟩)
termination_by _ tokens => (tokens.length, 2)
decreasing_by
  · exact Prod.Lex.right _ (by decide)
  · exact Prod.Lex.right _ (by decide)
  · exact Prod.Lex.left _ _ (Nat.lt_trans rest'.2 rest.2)

end

end reader

-- ========================================================= reading a prefix

/-- A reader answers with `x` and leaves `rest`. -/
def Reads {α : Type} {left : List Token → Prop}
    (result : Option (α × { rest : List Token // left rest })) (x : α)
    (rest : List Token) : Prop :=
  ∃ h : left rest, result = some (x, ⟨rest, h⟩)

variable {table : OperatorTable} {registry : Registry}

private theorem expect_cons {kind : TokenKind} {token : Token}
    (h : token.kind = kind) (rest : List Token) :
    expect kind (token :: rest) = some ⟨rest, Nat.lt_succ_self _⟩ := by
  simp [expect, h]

theorem Reads.climb {bound : Option Operator} {tokens mid rest : List Token}
    {left e : Expression}
    (hleft : Reads (operand table registry tokens) left mid)
    (h : Reads (extend table registry bound left mid) e rest) :
    Reads (climb table registry bound tokens) e rest := by
  obtain ⟨hlt, hleft⟩ := hleft
  obtain ⟨hle, h⟩ := h
  refine ⟨Nat.lt_of_le_of_lt hle hlt, ?_⟩
  rw [Expression.climb]
  simp [hleft, h]

theorem Reads.number {token : Token} (hkind : token.kind = .number)
    (rest : List Token) :
    Reads (operand table registry (token :: rest)) (.number token) rest :=
  ⟨Nat.lt_succ_self _, by rw [operand]; simp [hkind]⟩

theorem Reads.identifier {token : Token} (hkind : token.kind = .identifier)
    (rest : List Token) :
    Reads (operand table registry (token :: rest)) (.identifier token) rest :=
  ⟨Nat.lt_succ_self _, by rw [operand]; simp [hkind]⟩

theorem Reads.minus {minus : Token} {tokens rest : List Token}
    {body : Expression} (hminus : minus.meant? = some .subtract)
    (h : Reads (Expression.climb table registry (some .negate) tokens) body
      rest) :
    Reads (operand table registry (minus :: tokens)) (.negation minus body)
      rest := by
  obtain ⟨hlt, h⟩ := h
  refine ⟨Nat.lt_succ_of_lt hlt, ?_⟩
  rw [operand]
  simp [Token.kind_of_meant? hminus, hminus, h]

theorem Reads.group {opening closing : Token} {tokens rest : List Token}
    {e : Expression} (hopening : opening.kind = .leftParen)
    (hclosing : closing.kind = .rightParen)
    (h : Reads (Expression.climb table registry none tokens) e
      (closing :: rest)) :
    Reads (operand table registry (opening :: tokens)) e rest := by
  obtain ⟨hlt, h⟩ := h
  refine ⟨by simp at hlt ⊢; omega, ?_⟩
  rw [operand]
  simp [hopening, h, expect_cons hclosing]

theorem Reads.call {function opening closing : Token} {spec : FunctionSpec}
    {tokens rest : List Token} {args : List Expression}
    (hfunction : function.kind = .function)
    (hspec : registry.find? function.text = some spec)
    (hopening : opening.kind = .leftParen)
    (hclosing : closing.kind = .rightParen)
    (h : Reads (arguments table registry spec.arity tokens) args
      (closing :: rest)) :
    Reads (operand table registry (function :: opening :: tokens))
      (.call function args) rest := by
  obtain ⟨hle, h⟩ := h
  refine ⟨by simp at hle ⊢; omega, ?_⟩
  rw [operand]
  simp [hfunction, hspec, expect_cons hopening, h, expect_cons hclosing]

theorem Reads.stop {bound : Option Operator} {left : Expression}
    {rest : List Token}
    (h : ∀ next ∈ rest.head?, taken? table bound next = none) :
    Reads (extend table registry bound left rest) left rest := by
  refine ⟨Nat.le_refl _, ?_⟩
  cases rest with
  | nil => rw [extend]
  | cons next rest =>
      rw [extend]
      simp [h next rfl]

theorem Reads.next {bound : Option Operator} {left right e : Expression}
    {token : Token} {op : Operator} {tokens mid rest : List Token}
    (htaken : taken? table bound token = some op)
    (hright : Reads (Expression.climb table registry (some op) tokens)
      right mid)
    (h : Reads (extend table registry bound (.binary op token left right) mid)
      e rest) :
    Reads (extend table registry bound left (token :: tokens)) e rest := by
  obtain ⟨hlt, hright⟩ := hright
  obtain ⟨hle, h⟩ := h
  refine ⟨by simp; omega, ?_⟩
  rw [extend]
  simp [htaken, hright, h]

theorem Reads.noArguments (rest : List Token) :
    Reads (arguments table registry 0 rest) [] rest :=
  ⟨Nat.le_refl _, by rw [arguments]⟩

theorem Reads.argument {tokens rest : List Token} {e : Expression}
    (h : Reads (Expression.climb table registry none tokens) e rest) :
    Reads (arguments table registry 1 tokens) [e] rest := by
  obtain ⟨hlt, h⟩ := h
  refine ⟨Nat.le_of_lt hlt, ?_⟩
  rw [arguments]
  simp [h]

theorem Reads.moreArguments {comma : Token} {count : Nat}
    {tokens others rest : List Token} {e : Expression} {es : List Expression}
    (h : Reads (Expression.climb table registry none tokens) e
      (comma :: others))
    (hcomma : comma.kind = .comma)
    (hothers : Reads (arguments table registry (count + 1) others) es rest) :
    Reads (arguments table registry (count + 2) tokens) (e :: es) rest := by
  obtain ⟨hlt, h⟩ := h
  obtain ⟨hle, hothers⟩ := hothers
  refine ⟨by simp at hlt; omega, ?_⟩
  rw [arguments]
  simp [h, expect_cons hcomma, hothers]

-- =========================================================== the simulation

open Converter

variable {g : Grammar}

/-- What follows ends a level: nothing, a closing parenthesis or a
comma. -/
def EndsLevel (rest : List Token) : Prop :=
  ∀ next ∈ rest.head?, next.kind = .rightParen ∨ next.kind = .comma

/-- Tokens begin, if at all, with a binary operator that ends what
stands behind `bound`. -/
def EndsBehind (table : OperatorTable) (bound : Option Operator)
    (tokens : List Token) : Prop :=
  ∀ next ∈ tokens.head?, ∃ op, next.meant? = some op ∧ op ≠ .negate
    ∧ table.stops bound op = true

/-- An operand and a tail are read behind `bound` up to some `kept` of
the tail, and the converter puts out the postorder of what was read. -/
def Climbs (g : Grammar) (bound : Option Operator)
    (tokens others rest : List Token) :
    Prop :=
  ∃ used kept e, others = used ++ kept
    ∧ Infix g.operators g.functions .tail kept
    ∧ EndsBehind g.operators bound kept
    ∧ Reads (climb g.operators g.functions bound
      (tokens ++ (others ++ rest))) e
      (kept ++ rest)
    ∧ Emits g bound (tokens ++ used) (kept ++ rest) (postorder e)

/-- All operands and tails of fewer than `n` tokens are so read. -/
def ClimbsBelow (g : Grammar) (n : Nat) : Prop :=
  ∀ (bound : Option Operator) (tokens others rest : List Token),
    (∀ t ∈ bound, g.operators.contains t = true) →
    Infix g.operators g.functions .operand tokens →
    Infix g.operators g.functions .tail others →
    tokens.length + others.length < n → EndsLevel rest →
    Climbs g bound tokens others rest

/-- What ends a level is not taken behind any operator. -/
theorem taken?_of_endsLevel {rest : List Token} (h : EndsLevel rest)
    (bound : Option Operator) :
    ∀ next ∈ rest.head?, taken? table bound next = none := by
  intro next hnext
  rcases h next hnext with hkind | hkind <;>
    simp [taken?, Token.meant?, hkind]

/-- Where the reading behind an operator ends, the operator goes out. -/
theorem released_of_endsBehind {t : Operator} {kept rest : List Token}
    (hkept : EndsBehind table (some t) kept) (hrest : EndsLevel rest) :
    Released table t (kept ++ rest) := by
  intro next hnext
  cases kept with
  | nil =>
      rcases hrest next hnext with hkind | hkind
      · exact Or.inl hkind
      · exact Or.inr (Or.inl hkind)
  | cons first others =>
      obtain ⟨op, hop, hbinary, hstops⟩ := hkept next hnext
      exact Or.inr (Or.inr ⟨op, hop, hbinary, hstops⟩)

/-- Nothing ends the outermost level but its end. -/
theorem eq_nil_of_endsBehind_none {kept : List Token}
    (h : EndsBehind table none kept) : kept = [] := by
  cases kept with
  | nil => rfl
  | cons next others =>
      obtain ⟨op, -, -, hstops⟩ := h next rfl
      cases hstops

/-- A whole level is read to its end. -/
theorem reads_level {n : Nat} (hbelow : ClimbsBelow g n)
    {tokens rest : List Token}
    (h : Infix g.operators g.functions .level tokens)
    (hlen : tokens.length < n) (hrest : EndsLevel rest) :
    ∃ e, Reads (climb g.operators g.functions none (tokens ++ rest)) e rest
      ∧ Emits g none tokens rest (postorder e) := by
  cases h with
  | @level first others hfirst hothers =>
    rw [List.length_append] at hlen
    obtain ⟨used, kept, e, hsplit, -, hkept, hreads, hemits⟩ :=
      hbelow none first others rest (by simp) hfirst hothers hlen hrest
    obtain rfl := eq_nil_of_endsBehind_none hkept
    obtain rfl : others = used := by simpa using hsplit
    rw [List.append_assoc]
    exact ⟨e, by simpa using hreads, by simpa using hemits⟩

/-- Arguments are read to their end, and counted. -/
theorem reads_arguments {n : Nat} (hbelow : ClimbsBelow g n) {closing : Token}
    (hclosing : closing.kind = .rightParen) (rest : List Token) (count : Nat) :
    ∀ tokens, Infix g.operators g.functions (.arguments (count + 1)) tokens →
      tokens.length < n →
      ∃ es, Reads (arguments g.operators g.functions (count + 1)
          (tokens ++ closing :: rest)) es (closing :: rest)
        ∧ EmitsArguments g count tokens (closing :: rest)
          (postorderAll es) := by
  induction count with
  | zero =>
      intro tokens h hlen
      cases h with
      | argument h =>
        have hends : EndsLevel (closing :: rest) := by
          simp [EndsLevel, hclosing]
        obtain ⟨e, hreads, hemits⟩ := reads_level hbelow h hlen hends
        refine ⟨[e], hreads.argument, ?_⟩
        simpa [postorderAll] using EmitsArguments.single hemits
  | succ count ih =>
      intro tokens h hlen
      cases h with
      | @moreArguments comma _ first others hfirst hcomma hothers =>
        simp only [List.length_append, List.length_cons] at hlen
        have hends : EndsLevel (comma :: (others ++ closing :: rest)) := by
          simp [EndsLevel, hcomma]
        obtain ⟨e, hreads, hemits⟩ :=
          reads_level hbelow hfirst (by omega) hends
        obtain ⟨es, hreads', hemits'⟩ := ih others hothers (by omega)
        refine ⟨e :: es, ?_, EmitsArguments.more hcomma hemits hemits'⟩
        rw [List.append_assoc, List.cons_append]
        exact hreads.moreArguments hcomma hreads'

/-- An atom is read as it stands, behind any operator and whatever
follows. -/
theorem reads_atom {n : Nat} (hbelow : ClimbsBelow g n) {tokens : List Token}
    (h : Infix g.operators g.functions .atom tokens) (hlen : tokens.length ≤ n)
    (rest : List Token) :
    ∃ e, Reads (operand g.operators g.functions (tokens ++ rest)) e rest
      ∧ ∀ bound, Emits g bound tokens rest (postorder e) := by
  cases h with
  | number hkind =>
    exact ⟨_, Reads.number hkind rest, fun _ => Emits.operand (Or.inl hkind)⟩
  | identifier hkind =>
    exact ⟨_, Reads.identifier hkind rest, fun _ =>
      Emits.operand (Or.inr hkind)⟩
  | @group opening closing inner hopening hclosing hinner =>
    simp only [List.length_append, List.length_cons] at hlen
    -- the closing bracket ends the level inside
    have hends : EndsLevel (closing :: rest) := by simp [EndsLevel, hclosing]
    obtain ⟨e, hreads, hemits⟩ := reads_level hbelow hinner (by omega) hends
    refine ⟨e, ?_, fun _ => Emits.group hopening hclosing hemits⟩
    rw [List.append_assoc, List.cons_append]
    exact Reads.group hopening hclosing hreads
  | @call function opening closing spec inner hfunction hspec hopening hclosing
      hinner =>
    simp only [List.length_append, List.length_cons] at hlen
    rw [List.append_assoc, List.cons_append, List.cons_append]
    cases hcount : spec.arity with
    | zero =>
        rw [hcount] at hinner
        cases hinner
        refine ⟨.call function [],
          Reads.call hfunction hspec hopening hclosing ?_,
          fun _ => Emits.emptyCall hfunction hspec hopening hclosing⟩
        rw [hcount]
        exact Reads.noArguments _
    | succ count =>
        rw [hcount] at hinner
        obtain ⟨es, hreads, hemits⟩ :=
          reads_arguments hbelow hclosing rest count inner hinner (by omega)
        refine ⟨.call function es,
          Reads.call hfunction hspec hopening hclosing ?_, fun _ =>
            Emits.call hfunction hspec hopening hclosing hcount hemits⟩
        rw [hcount]
        exact hreads

/-- A tail extends what was read before it, up to the first operator
that `bound` goes before. The recursion is on the tail: each operator
taken is one call of the reader, on fewer tokens. -/
theorem reads_tail {n : Nat} (hbelow : ClimbsBelow g n)
    {bound : Option Operator}
    (hbound : ∀ t ∈ bound, g.operators.contains t = true) {rest : List Token}
    (hrest : EndsLevel rest) {left : Expression} {tokens others : List Token}
    (hlen : others.length ≤ n)
    (htail : Infix g.operators g.functions .tail others)
    (hemits : Emits g bound tokens (others ++ rest) (postorder left)) :
    ∃ used kept e, others = used ++ kept
      ∧ Infix g.operators g.functions .tail kept
      ∧ EndsBehind g.operators bound kept
      ∧ Reads (extend g.operators g.functions bound left (others ++ rest)) e
        (kept ++ rest)
      ∧ Emits g bound (tokens ++ used) (kept ++ rest) (postorder e) := by
  cases htail with
  | stop =>
    exact ⟨[], [], left, rfl, .stop, by simp [EndsBehind],
      Reads.stop (taken?_of_endsLevel hrest bound), by simpa using hemits⟩
  | @next token op first others hop hbinary hcontains hfirst hothers =>
    cases hstops : g.operators.stops bound op with
    | true =>
        -- the operator ends what stands behind `bound`
        refine ⟨[], token :: first ++ others, left, rfl,
          .next hop hbinary hcontains hfirst hothers, ?_, ?_,
          by simpa using hemits⟩
        · simp [EndsBehind, hop, hbinary, hstops]
        · exact Reads.stop (by simp [taken?, hop, hstops])
    | false =>
        -- the operator is taken, then what stands behind it, then the rest
        simp only [List.length_append, List.length_cons] at hlen
        obtain ⟨used, kept, right, rfl, hkept, hends, hreads, hright⟩ :=
          hbelow (some op) first others rest (by simpa using hcontains) hfirst
            hothers (by omega) hrest
        have hbinaryEmits : Emits g bound (tokens ++ token :: (first ++ used))
            (kept ++ rest) (postorder (.binary op token left right)) :=
          Emits.binary (by simpa using hemits) hop hcontains hbound hstops
            hright
            (released_of_endsBehind hends hrest)
        rw [List.length_append] at hlen
        obtain ⟨used', kept', e, rfl, hkept', hends', hreads', hemits'⟩ :=
          reads_tail hbelow hbound hrest (by omega) hkept hbinaryEmits
        refine ⟨token :: first ++ used ++ used', kept', e, by simp, hkept',
          hends', ?_, by simpa using hemits'⟩
        rw [List.cons_append, List.cons_append, List.append_assoc]
        exact Reads.next (by simp [taken?, hop, hbinary, hstops]) hreads
          hreads'
termination_by others.length
decreasing_by
  subst_vars
  simp only [List.length_cons, List.length_append]
  omega

/-- Every operand and tail are read, and put out as they are read. -/
theorem climbs (g : Grammar) (n : Nat) : ClimbsBelow g n := by
  induction n with
  | zero =>
      intro bound tokens others rest _ _ _ hlen
      omega
  | succ n ih =>
      intro bound tokens others rest hbound hoperand htail hlen hrest
      cases hoperand with
      | bare hatom =>
        -- an atom and the tail behind it
        obtain ⟨left, hreads, hemits⟩ :=
          reads_atom ih hatom (by omega) (others ++ rest)
        obtain ⟨used, kept, e, rfl, hkept, hends, hreads', hemits'⟩ :=
          reads_tail ih hbound hrest (by omega) htail (hemits bound)
        exact ⟨used, kept, e, rfl, hkept, hends, hreads.climb hreads', hemits'⟩
      | @minus token inner hminus hsubtract hnegate hinner =>
        -- the minus takes what it holds back, then `bound` goes on from there
        rw [List.length_cons] at hlen
        obtain ⟨used, kept, body, rfl, hkept, hends, hreads, hemits⟩ :=
          ih (some .negate) inner others rest (by simpa using hnegate)
            hinner htail
            (by omega) hrest
        have hminusEmits :
            Emits g bound (token :: (inner ++ used)) (kept ++ rest)
            (postorder (.negation token body)) :=
          Emits.minus hminus hsubtract hemits
            (released_of_endsBehind hends hrest)
        rw [List.length_append] at hlen
        obtain ⟨used', kept', e, rfl, hkept', hends', hreads', hemits'⟩ :=
          reads_tail ih hbound hrest (by omega) hkept hminusEmits
        refine ⟨used ++ used', kept', e, by simp, hkept', hends', ?_,
          by simpa using hemits'⟩
        exact (Reads.minus hminus hreads).climb hreads'

/-- Reading on ends only where no operator can be taken. -/
theorem extend_stops {bound : Option Operator} {left e : Expression}
    {tokens rest : List Token}
    (h : Reads (extend table registry bound left tokens) e rest) :
    ∀ next ∈ rest.head?, taken? table bound next = none := by
  obtain ⟨hle, h⟩ := h
  cases tokens with
  | nil =>
      rw [extend] at h
      cases h
      simp
  | cons token others =>
      rw [extend] at h
      cases htaken : taken? table bound token with
      | none =>
          simp only [htaken, Option.some.injEq, Prod.mk.injEq,
            Subtype.mk.injEq] at h
          obtain ⟨-, rfl⟩ := h
          simpa using htaken
      | some op =>
          simp only [htaken, Option.bind_eq_bind, Option.bind_eq_some_iff] at h
          obtain ⟨⟨right, mid⟩, -, ⟨e', last⟩, hmore, hlast⟩ := h
          have hrest : last.1 = rest := by
            simp only [Option.pure_def, Option.some.injEq, Prod.mk.injEq,
              Subtype.mk.injEq] at hlast
            exact hlast.2
          have hmid := mid.2
          subst hrest
          exact extend_stops ⟨last.2, hmore⟩
termination_by tokens.length
decreasing_by
  subst_vars
  simp only [List.length_cons]
  omega

/-- The outermost reader of a level never stops at a binary operator. -/
theorem climb_none_stops {e : Expression} {tokens rest : List Token}
    (h : Reads (climb table registry none tokens) e rest) :
    ∀ next ∈ rest.head?, ∀ op, next.meant? = some op → op = .negate := by
  intro next hnext op hop
  obtain ⟨hlt, h⟩ := h
  rw [climb] at h
  simp only [Option.bind_eq_bind, Option.bind_eq_some_iff] at h
  obtain ⟨⟨left, mid⟩, -, ⟨e', last⟩, hmore, hlast⟩ := h
  have hrest : last.1 = rest := by
    simp only [Option.pure_def, Option.some.injEq, Prod.mk.injEq,
      Subtype.mk.injEq] at hlast
    exact hlast.2
  subst hrest
  have hstop := extend_stops ⟨last.2, hmore⟩ next hnext
  simpa [taken?, hop, OperatorTable.stops] using hstop

-- ================================================================ the theorem

/-- Every expression of the infix grammar is read to its end, no level of
it stopping at an operator, and its postfix form is the postorder of the
tree that was read: whatever the table says of precedence and grouping.
An empty table or registry stands for the usual one. -/
theorem toPostfix_eq_postorder_climb (g : Grammar) {tokens : List Token}
    (h : Infix g.orStandard.operators g.orStandard.functions .level tokens) :
    (∃ e,
      Reads (climb g.orStandard.operators g.orStandard.functions
        none tokens) e []
      ∧ toPostfix g tokens = .ok (postorder e))
    ∧ ∀ inner e rest,
      Reads (climb g.orStandard.operators g.orStandard.functions none inner) e
        rest →
      ∀ next ∈ rest.head?, ∀ op, next.meant? = some op → op = .negate := by
  refine ⟨?_, fun _ _ _ => climb_none_stops⟩
  have hend : EndsLevel [] := by simp [EndsLevel]
  obtain ⟨e, hreads, hemits⟩ :=
    reads_level (climbs g.orStandard _) h (Nat.lt_succ_self _) hend
  rw [List.append_nil] at hreads
  exact ⟨e, hreads, toPostfix_of_emits hemits⟩

/-- A table in which `+` binds tighter than anything, from the right, and
`-a*b+(c+d)` is one of its expressions. -/
theorem toPostfix_eq_postorder_climb_tight_sum :
    let sum : OperatorSpec := ⟨9, .right, 2, Operator.add.routine⟩
    let g : Grammar := ⟨.insert .standard .add sum, .builtin, "-a*b+(c+d)"⟩
    let minus : Token := ⟨.operator, "-", 0, none, some .subtract⟩
    let a : Token := ⟨.identifier, "a", 1, none, none⟩
    let times : Token := ⟨.operator, "*", 2, none, some .multiply⟩
    let b : Token := ⟨.identifier, "b", 3, none, none⟩
    let plus : Token := ⟨.operator, "+", 4, none, none⟩
    let opening : Token := ⟨.leftParen, "(", 5, none, none⟩
    let c : Token := ⟨.identifier, "c", 6, none, none⟩
    let plus' : Token := ⟨.operator, "+", 7, none, none⟩
    let d : Token := ⟨.identifier, "d", 8, none, none⟩
    let closing : Token := ⟨.rightParen, ")", 9, none, none⟩
    let tokens := [minus, a, times, b, plus, opening, c, plus', d, closing]
    Infix g.orStandard.operators g.orStandard.functions .level tokens
      ∧ ∃ e,
        Reads (climb g.orStandard.operators g.orStandard.functions
          none tokens) e []
        ∧ toPostfix g tokens = .ok (postorder e) := by
  intro sum g minus a times b plus opening c plus' d closing tokens
  have hplus : plus.meant? = some .add := by decide
  have hplus' : plus'.meant? = some .add := by decide
  have htimes : times.meant? = some .multiply := rfl
  have hgroup : Infix g.orStandard.operators g.orStandard.functions .atom
      (opening :: ([c] ++ ([plus', d] ++ [])) ++ [closing]) :=
    .group rfl rfl (.level (.bare (.identifier rfl))
      (.next hplus' (by decide) rfl (.bare (.identifier rfl)) .stop))
  have h : Infix g.orStandard.operators g.orStandard.functions .level
      ([minus, a] ++ ([times, b] ++
        ((plus :: (opening :: ([c] ++ ([plus', d] ++ [])) ++ [closing]))
          ++ []))) :=
    .level (.minus rfl rfl rfl (.bare (.identifier rfl)))
      (.next htimes (by decide) rfl (.bare (.identifier rfl))
        (.next hplus (by decide) rfl (.bare hgroup) .stop))
  exact ⟨h, (toPostfix_eq_postorder_climb g h).1⟩

end Reckoner.Expression

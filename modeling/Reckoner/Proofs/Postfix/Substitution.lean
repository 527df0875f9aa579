/-
Parentheses isolate what they enclose.

Inside a pair of parentheses the converter does what it would do with the
enclosed tokens alone. It starts there on a stack that is not empty, but
nothing below the open parenthesis is ever looked at before that
parenthesis is closed: no operator, no comma and no closing parenthesis
reaches below an open one. `Encloses` relates the two converters, the one
that works alone and the one that works inside, and every move of the
first is one of the second (`Encloses.move`). So an accepted list of
tokens between parentheses acts on the converter as an operand does: it
puts out one block, its postfix form, and leaves the stacks as they were
(`feed_enclosed`).

After an operand or a pair of parentheses it is all the same to the
converter which of the two it was (`convert_of_ended`). Both together make
the law of substitution: what stands around a pair of parentheses is
converted as if a variable stood in their place
(`toPostfix_substitution`).
-/
import Reckoner.Proofs.Postfix.Alignment

namespace Reckoner

namespace Converter

variable {g : Grammar} {opening : Token} {base stack : List Token}
variable {parens outer : List OpenParen} {previous : Option Token}

-- ================================================ above an open parenthesis

private theorem splitYielding_enclosed {operators : OperatorTable}
    {arriving : OperatorSpec} {out kept : List Token}
    (hopening : opening.kind = .leftParen)
    (h : splitYielding operators arriving stack = .ok (out, kept)) :
    splitYielding operators arriving (stack ++ opening :: base)
      = .ok (out, kept ++ opening :: base) := by
  induction stack generalizing out kept with
  | nil =>
      cases h
      simp [splitYielding, goesFirst, hopening, bind, Except.bind]
  | cons top rest ih =>
      simp only [splitYielding, bind, Except.bind] at h
      split at h
      · cases h
      · next goes hgoes =>
          simp only [List.cons_append, splitYielding, bind, Except.bind, hgoes]
          cases goes with
          | false =>
              cases h
              rfl
          | true =>
              simp only [if_true] at h ⊢
              split at h
              · cases h
              · next result hrest =>
                  cases h
                  rw [ih hrest]

/-- A parenthesis stops what is sent out above it. -/
theorem unwound_enclosed (hopening : opening.kind = .leftParen)
    (stack base : List Token) :
    (stack ++ opening :: base).takeWhile isInside = stack.takeWhile isInside
      ∧ (stack ++ opening :: base).dropWhile isInside
        = stack.dropWhile isInside ++ opening :: base := by
  have hstop : isInside opening = false := by simp [isInside, hopening]
  induction stack with
  | nil => simp [hstop]
  | cons top rest ih =>
      obtain ⟨htake, hdrop⟩ := ih
      simp only [List.cons_append, List.takeWhile_cons, List.dropWhile_cons]
      by_cases hinside : isInside top = true
      · simp [hinside, htake, hdrop]
      · simp [hinside]

theorem splitCalled_enclosed (hopening : opening.kind = .leftParen)
    (stack : List Token) :
    splitCalled (stack ++ opening :: base)
      = ((splitCalled stack).1, (splitCalled stack).2 ++ opening :: base) := by
  cases stack with
  | nil => simp [splitCalled, hopening]
  | cons top rest =>
      simp only [List.cons_append, splitCalled]
      by_cases hkind : top.kind = .function
      · simp [hkind]
      · simp [hkind]

/-- The innermost record of those above another takes the note, or else
that one does. -/
theorem exists_noted (parens outer : List OpenParen) {record : OpenParen}
    (hplain : record.function = none) :
    ∃ record', record'.function = none
      ∧ noted (parens ++ record :: outer)
        = noted parens ++ record' :: outer := by
  cases parens with
  | nil => exact ⟨{ record with hasArguments := true }, hplain, rfl⟩
  | cons paren rest => exact ⟨record, hplain, rfl⟩

private theorem exists_counted (parens outer : List OpenParen)
    {record : OpenParen} (hplain : record.function = none) :
    ∃ record', record'.function = none
      ∧ counted (parens ++ record :: outer)
        = counted parens ++ record' :: outer := by
  cases parens with
  | nil =>
      exact ⟨{ record with commas := record.commas + 1, hasArguments := true },
        hplain, rfl⟩
  | cons paren rest => exact ⟨record, hplain, rfl⟩

-- ============================================================ two converters

/-- The second converter is in the midst of the parenthesis `opening`, with
`base` and `outer` below it, where the first one is alone. -/
structure Encloses (opening : Token) (base : List Token)
    (outer : List OpenParen) (alone inside : Converter) : Prop where
  stack : inside.stack = alone.stack ++ opening :: base
  parens : ∃ record : OpenParen, record.function = none
    ∧ inside.parens = alone.parens ++ record :: outer
  previous : inside.previous = alone.previous
    ∨ alone.previous = none ∧ inside.previous = some opening

/-- At the beginning nothing precedes, or the parenthesis does. In neither
case does a function wait, and in both a minus sign is unary. -/
theorem same_place {inside : Option Token}
    (hopening : opening.kind = .leftParen)
    (h : inside = previous ∨ previous = none ∧ inside = some opening) :
    (Idle previous → Idle inside)
      ∧ isUnaryPlace inside = isUnaryPlace previous
      ∧ inside.filter (·.kind == .function)
        = previous.filter (·.kind == .function) := by
  rcases h with rfl | ⟨rfl, rfl⟩
  · exact ⟨id, rfl, rfl⟩
  · simp [Idle, isUnaryPlace, opensOperand, hopening]

/-- Every move of the converter that works alone is one of the converter
that works inside. -/
theorem Encloses.move {alone alone' inside : Converter} {token : Token}
    {out : List Token} (hopening : opening.kind = .leftParen)
    (h : Encloses opening base outer alone inside)
    (hmove : Moves g alone token out alone') :
    ∃ inside', Moves g inside token out inside'
      ∧ Encloses opening base outer alone' inside' := by
  obtain ⟨stack', parens', previous'⟩ := inside
  obtain ⟨rfl, ⟨record, hplain, rfl⟩, hprevious⟩ := h
  obtain ⟨hidle', hplace', hfilter'⟩ := same_place hopening hprevious
  cases hmove with
  | @operand stack parens previous _ hidle hkind =>
      obtain ⟨record', hplain', hnoted⟩ := exists_noted parens outer hplain
      exact ⟨_, .operand (hidle' hidle) hkind, rfl, ⟨record', hplain', hnoted⟩,
        Or.inl rfl⟩
  | @function stack parens previous _ hidle hkind hknown =>
      obtain ⟨record', hplain', hnoted⟩ := exists_noted parens outer hplain
      exact ⟨_, .function (hidle' hidle) hkind hknown, rfl,
        ⟨record', hplain', hnoted⟩, Or.inl rfl⟩
  | @minus stack parens previous _ hminus hplace hsubtract =>
      obtain ⟨record', hplain', hnoted⟩ := exists_noted parens outer hplain
      exact ⟨_, .minus hminus (hplace'.trans hplace) hsubtract, rfl,
        ⟨record', hplain', hnoted⟩, Or.inl rfl⟩
  | @operator stack parens previous _ op spec out kept hidle hop hspec hplace
        hsplit =>
      obtain ⟨record', hplain', hnoted⟩ := exists_noted parens outer hplain
      rw [← hplace'] at hplace
      exact ⟨_, .operator (hidle' hidle) hop hspec hplace
        (splitYielding_enclosed hopening hsplit), rfl,
        ⟨record', hplain', hnoted⟩, Or.inl rfl⟩
  | @comma stack parens previous _ hidle hkind =>
      obtain ⟨record', hplain', hcounted⟩ := exists_counted parens outer hplain
      -- unwinding stops at a bracket, at the latest at `opening`
      obtain ⟨htake, hdrop⟩ := unwound_enclosed hopening stack base
      have hmove :
          Moves g ⟨stack ++ opening :: base, parens ++ record :: outer,
            previous'⟩
          token _ _ := .comma (hidle' hidle) hkind
      rw [htake] at hmove
      exact ⟨_, hmove, hdrop, ⟨record', hplain', hcounted⟩, Or.inl rfl⟩
  | @opening stack parens previous _ hkind =>
      obtain ⟨record', hplain', hnoted⟩ := exists_noted parens outer hplain
      refine ⟨_, .opening hkind, rfl, ⟨record', hplain', ?_⟩, Or.inl rfl⟩
      dsimp only
      rw [hnoted, hfilter', List.cons_append]
  | @closing inner top below paren rest previous _ hidle hkind hinner htop
        hcheck =>
      have hmove : Moves g ⟨inner ++ top :: (below ++ opening :: base),
          paren :: (rest ++ record :: outer), previous'⟩ token _ _ :=
        .closing (hidle' hidle) hkind hinner htop hcheck
      -- the bracket that is closed lies above `opening`, for the converter
      -- alone has it too
      have hstack : inner ++ top :: (below ++ opening :: base)
          = inner ++ top :: below ++ opening :: base := by simp
      rw [splitCalled_enclosed hopening, hstack] at hmove
      exact ⟨_, hmove, rfl, ⟨record, hplain, rfl⟩, Or.inl rfl⟩

/-- Every run of the one is a run of the other. -/
theorem Encloses.feed {alone alone' inside : Converter}
    {tokens out : List Token} (hopening : opening.kind = .leftParen)
    (h : Encloses opening base outer alone inside)
    (hfeed : feed g alone tokens = .ok (out, alone')) :
    ∃ inside', Converter.feed g inside tokens = .ok (out, inside')
      ∧ Encloses opening base outer alone' inside' := by
  induction tokens generalizing alone inside out with
  | nil =>
      cases hfeed
      exact ⟨inside, rfl, h⟩
  | cons token rest ih =>
      obtain ⟨first, middle, more, hmove, hrest, rfl⟩ :=
        feed_cons_eq_ok_iff.mp hfeed
      obtain ⟨middle', hmove', hmiddle⟩ := h.move hopening hmove
      obtain ⟨inside', hrest', hlast⟩ := ih hmiddle hrest
      exact ⟨inside', feed_cons_eq_ok_iff.mpr
        ⟨first, middle', more, hmove', hrest', rfl⟩, hlast⟩

-- ================================================================== operands

/-- Reading `tokens` acts on the converter as reading an operand does: it
puts out `out` and leaves the stacks as they were. -/
def ActsAsOperand (g : Grammar) (tokens out : List Token) : Prop :=
  ∀ {stack : List Token} {parens : List OpenParen} {previous : Option Token},
    Aligned stack parens → Idle previous →
      ∃ last : Token, last.kind.endsOperand = true
        ∧ feed g ⟨stack, parens, previous⟩ tokens
          = .ok (out, ⟨stack, noted parens, some last⟩)

private theorem actsAsOperand_identifier {x : Token}
    (hkind : x.kind = .identifier) :
    ActsAsOperand g [x] [x] := by
  intro stack parens previous _ hidle
  refine ⟨x, by simp [hkind, TokenKind.endsOperand], ?_⟩
  rw [feed_cons_eq_ok_iff]
  exact ⟨[x], _, [], .operand hidle (Or.inr hkind), rfl, rfl⟩

/-- Accepted tokens between parentheses put out their postfix form. -/
theorem feed_enclosed {closing : Token} {e out : List Token}
    {alone : Converter} (hopening : opening.kind = .leftParen)
    (hclosing : closing.kind = .rightParen)
    (hfeed : feed g {} e = .ok (out, alone)) (hended : Idle alone.previous)
    (hinside : ∀ t ∈ alone.stack, isInside t = true) :
    ActsAsOperand g (opening :: e ++ [closing]) (out ++ alone.stack) := by
  intro stack parens previous halign hidle
  refine ⟨closing, by simp [hclosing, TokenKind.endsOperand], ?_⟩
  -- the parenthesis opens, and the enclosed tokens are read above it
  have hopen : Moves g ⟨stack, parens, previous⟩ opening []
      ⟨opening :: stack, ⟨opening, none, 0, false⟩ :: noted parens,
        some opening⟩ := by
    have hmove : Moves g ⟨stack, parens, previous⟩ opening _ _ :=
      .opening hopening
    rw [filter_of_idle hidle] at hmove
    exact hmove
  have hstart : Encloses opening stack (noted parens) {}
      ⟨opening :: stack, ⟨opening, none, 0, false⟩ :: noted parens,
        some opening⟩ :=
    ⟨rfl, ⟨_, rfl, rfl⟩, Or.inr ⟨rfl, rfl⟩⟩
  obtain ⟨⟨_, _, previous'⟩, hread, rfl, ⟨record, hplain, rfl⟩, hprevious⟩ :=
    hstart.feed hopening hfeed
  -- nothing is left open above it, so it is the one that is closed
  have haligned : Aligned alone.stack alone.parens :=
    (inStep_iff_of_idle hended).mp (inStep_start.feed hfeed)
  rw [haligned.parens_eq_nil hinside, List.nil_append] at hread
  have hclose :
      Moves g ⟨alone.stack ++ opening :: stack, record :: noted parens,
        previous'⟩
      closing _ _ :=
    .closing ((same_place hopening hprevious).1 hended) hclosing hinside
      hopening
      (by rw [checkArguments, hplain])
  rw [halign.splitCalled_eq, List.append_nil] at hclose
  rw [List.cons_append, feed_cons_eq_ok_iff]
  refine ⟨[], _, out ++ alone.stack, hopen, ?_, rfl⟩
  rw [feed_append, hread]
  simp only [feed, step_of_moves hclose, List.append_nil]

-- ================================================================= the frame

/-- The converter does not look at an operand that has ended but to see
that it has. -/
theorem step_of_ended {last last' : Token} (h : last.kind.endsOperand = true)
    (h' : last'.kind.endsOperand = true) (token : Token) :
    step g ⟨stack, parens, some last⟩ token
      = step g ⟨stack, parens, some last'⟩ token := by
  have hfunction := ne_function_of_ended h
  have hfunction' := ne_function_of_ended h'
  have hplace := isUnaryPlace_of_ended h
  have hplace' := isUnaryPlace_of_ended h'
  unfold step
  -- neither is a function, so neither can be abandoned
  rw [abandoned?_of_ended h, abandoned?_of_ended h']
  cases hkind : token.kind with
  | number | identifier =>
      rw [noteArgument_eq (by simp [hkind]), noteArgument_eq (by simp [hkind])]
      simp [handle, hkind]
  | function =>
      rw [noteArgument_eq (by simp [hkind]), noteArgument_eq (by simp [hkind])]
      simp only [handle, hkind, function]
      by_cases hknown : g.functions.contains token.text = true
      · simp [hknown]
      · simp [hknown]
  | operator =>
      rw [noteArgument_eq (by simp [hkind]), noteArgument_eq (by simp [hkind])]
      simp only [handle, hkind, operator, hplace, hplace', Bool.false_eq_true,
        and_false, if_false]
      cases token.operator.or (Operator.ofText? token.text) with
      | none => rfl
      | some op =>
          dsimp only
          cases g.operators.find? op with
          | none => rfl
          | some spec =>
              dsimp only
              cases splitYielding g.operators spec stack <;> rfl
  | comma =>
      rw [noteArgument_eq (by simp [hkind]), noteArgument_eq (by simp [hkind])]
      simp [handle, hkind, comma]
  | leftParen =>
      rw [noteArgument_eq (by simp [hkind]), noteArgument_eq (by simp [hkind])]
      simp [handle, hkind, openParen, Option.filter, hfunction, hfunction']
  | rightParen =>
      rw [noteArgument_close hkind, noteArgument_close hkind]
      simp only [handle, hkind, closeParen]
      cases stack.dropWhile isInside with
      | nil => rfl
      | cons top below =>
          cases parens with
          | nil => rfl
          | cons paren outer =>
              dsimp only
              cases checkArguments g paren <;> rfl

private theorem convert_of_ended {last last' : Token}
    (h : last.kind.endsOperand = true)
    (h' : last'.kind.endsOperand = true) (tokens : List Token) :
    convert g ⟨stack, parens, some last⟩ tokens
      = convert g ⟨stack, parens, some last'⟩ tokens := by
  cases tokens with
  | nil =>
      rw [convert_nil, convert_nil, finish, finish, abandoned?_of_ended h,
        abandoned?_of_ended h']
  | cons token rest =>
      unfold convert
      rw [feed, feed, step_of_ended h h']

end Converter

-- ================================================================== the law

open Converter

/-- Tokens between pairs of parentheses, the first pair outermost. -/
def enclosed (pairs : List (Token × Token)) (tokens : List Token) :
    List Token :=
  pairs.foldr (fun pair inner => pair.1 :: inner ++ [pair.2]) tokens

variable {g : Grammar}

/-- Accepted tokens between parentheses act as an operand. -/
theorem actsAsOperand_enclosed {opening closing : Token} {e out : List Token}
    (hopening : opening.kind = .leftParen)
    (hclosing : closing.kind = .rightParen) (h : toPostfix g e = .ok out) :
    ActsAsOperand g.orStandard (opening :: e ++ [closing]) out := by
  obtain ⟨read, alone, hfeed, hidle, hinside, rfl⟩ := toPostfix_eq_ok_iff.mp h
  exact feed_enclosed hopening hclosing hfeed hidle hinside

/-- Of what acts as an operand the postfix form is what it puts out. -/
theorem toPostfix_of_actsAsOperand {tokens out : List Token}
    (h : ActsAsOperand g.orStandard tokens out) :
    toPostfix g tokens = .ok out := by
  have hidle : Idle none := by simp [Idle]
  obtain ⟨last, hlast, hfeed⟩ := h Aligned.empty hidle
  rw [toPostfix_eq_ok_iff]
  refine ⟨out, _, hfeed, ?_, by simp, by simp⟩
  simpa [Idle] using ne_function_of_ended hlast

private theorem toPostfix_enclosed {pairs : List (Token × Token)}
    {e out : List Token}
    (hpairs : ∀ pair ∈ pairs, pair.1.kind = .leftParen
      ∧ pair.2.kind = .rightParen)
    (h : toPostfix g e = .ok out) :
    toPostfix g (enclosed pairs e) = .ok out := by
  induction pairs with
  | nil => exact h
  | cons pair rest ih =>
      obtain ⟨hopening, hclosing⟩ := hpairs pair (by simp)
      have hrest := ih fun pair' hmem => hpairs pair' (by simp [hmem])
      exact toPostfix_of_actsAsOperand
        (actsAsOperand_enclosed hopening hclosing hrest)

/-- What is read before and after something that acts as an operand is
converted to a frame around it, or not at all, whatever it is. -/
theorem exists_frame {pre : List Token} (post : List Token)
    (hpre : ∀ last ∈ pre.getLast?, last.kind ≠ .function) :
    (∃ before after, ∀ tokens out, ActsAsOperand g.orStandard tokens out →
        toPostfix g (pre ++ tokens ++ post) = .ok (before ++ out ++ after))
      ∨ ∃ failure, ∀ tokens out, ActsAsOperand g.orStandard tokens out →
        toPostfix g (pre ++ tokens ++ post) = .error failure := by
  cases hread : feed g.orStandard {} pre with
  | error failure =>
      refine Or.inr ⟨failure, fun tokens out _ => ?_⟩
      rw [toPostfix_eq_convert, List.append_assoc, convert_append, hread]
  | ok result =>
      obtain ⟨before, stack, parens, previous⟩ := result
      have hidle : Idle previous := by
        have hprevious := previous_of_feed hread
        dsimp only at hprevious
        rw [hprevious]
        exact hpre
      have haligned : Aligned stack parens :=
        (inStep_iff_of_idle hidle).mp (inStep_start.feed hread)
      -- after the operand the rest is converted in the same way
      have hrest : ∀ tokens out, ActsAsOperand g.orStandard tokens out →
          toPostfix g (pre ++ tokens ++ post)
            = ahead (before ++ out) (convert g.orStandard
              ⟨stack, noted parens, some ⟨.identifier, "", 0, none, none⟩⟩
                post) := by
        intro tokens out hacts
        obtain ⟨last, hlast, hfeed⟩ := hacts haligned hidle
        rw [toPostfix_eq_convert, List.append_assoc, convert_append, hread]
        dsimp only
        rw [convert_append, hfeed, ← ahead_ahead, ← convert_of_ended hlast rfl]
      cases hpost : convert g.orStandard
          ⟨stack, noted parens, some ⟨.identifier, "", 0, none, none⟩⟩
            post with
      | error failure =>
          refine Or.inr ⟨failure, fun tokens out hacts => ?_⟩
          rw [hrest tokens out hacts, hpost]
          rfl
      | ok after =>
          refine Or.inl ⟨before, after, fun tokens out hacts => ?_⟩
          rw [hrest tokens out hacts, hpost]
          rfl

/-- Parentheses isolate what they enclose. Around a place that no function
stands before, the tokens that surround it either have the postfix form
`before ++ [·] ++ after`, with a variable in the place as well as with any
accepted tokens between parentheses there, which fill it with their own
postfix form; or they have none, for the same failure with either. So any
number of parentheses around accepted tokens changes nothing. -/
theorem toPostfix_substitution (g : Grammar) :
    (∀ pre post : List Token, (∀ last ∈ pre.getLast?, last.kind ≠ .function) →
      (∃ before after,
          (∀ x : Token, x.kind = .identifier →
            toPostfix g (pre ++ x :: post) = .ok (before ++ x :: after))
          ∧ ∀ (opening closing : Token) (e out : List Token),
            opening.kind = .leftParen → closing.kind = .rightParen →
            toPostfix g e = .ok out →
            toPostfix g (pre ++ opening :: e ++ closing :: post)
              = .ok (before ++ out ++ after))
        ∨ ∃ failure,
          (∀ x : Token, x.kind = .identifier →
            toPostfix g (pre ++ x :: post) = .error failure)
          ∧ ∀ (opening closing : Token) (e out : List Token),
            opening.kind = .leftParen → closing.kind = .rightParen →
            toPostfix g e = .ok out →
            toPostfix g (pre ++ opening :: e ++ closing :: post)
              = .error failure)
    ∧ ∀ (pairs : List (Token × Token)) (e out : List Token),
        (∀ pair ∈ pairs, pair.1.kind = .leftParen
          ∧ pair.2.kind = .rightParen) →
        toPostfix g e = .ok out →
          toPostfix g (enclosed pairs e) = .ok out := by
  refine ⟨fun pre post hpre => ?_, fun pairs e out => toPostfix_enclosed⟩
  rcases exists_frame (g := g) post hpre with ⟨before, after, hframe⟩
    | ⟨failure, hframe⟩
  · refine Or.inl ⟨before, after, fun x hx => ?_, ?_⟩
    · simpa using hframe [x] [x] (actsAsOperand_identifier hx)
    · intro opening closing e out hopening hclosing he
      simpa using hframe _ _ (actsAsOperand_enclosed hopening hclosing he)
  · refine Or.inr ⟨failure, fun x hx => ?_, ?_⟩
    · simpa using hframe [x] [x] (actsAsOperand_identifier hx)
    · intro opening closing e out hopening hclosing he
      simpa using hframe _ _ (actsAsOperand_enclosed hopening hclosing he)

/-- Inside the call `sin(2*·)` the tokens `-3,y`, which begin with a minus
sign and hold a comma, fill the place of `x` once they stand in
parentheses; and so they do in two pairs of them. -/
theorem toPostfix_substitution_in_call :
    let g : Grammar := ⟨.standard, .builtin, ""⟩
    let pre : List Token := [⟨.function, "sin", 0, none, none⟩,
      ⟨.leftParen, "(", 3, none, none⟩, ⟨.number, "2", 4, none, none⟩,
      ⟨.operator, "*", 5, none, none⟩]
    let post : List Token := [⟨.rightParen, ")", 12, none, none⟩]
    let opening : Token := ⟨.leftParen, "(", 6, none, none⟩
    let closing : Token := ⟨.rightParen, ")", 11, none, none⟩
    let e : List Token :=
      [⟨.operator, "-", 7, none, none⟩, ⟨.number, "3", 8, none, none⟩,
      ⟨.comma, ",", 9, none, none⟩, ⟨.identifier, "y", 10, none, none⟩]
    let out : List Token := [⟨.number, "3", 8, none, none⟩,
      ⟨.operator, "-", 7, none, some .negate⟩,
      ⟨.identifier, "y", 10, none, none⟩]
    let x : Token := ⟨.identifier, "x", 6, none, none⟩
    toPostfix g (enclosed [(opening, closing), (opening, closing)] e) = .ok out
      ∧ ∃ before after,
        toPostfix g (pre ++ x :: post) = .ok (before ++ x :: after)
        ∧ toPostfix g (pre ++ opening :: e ++ closing :: post)
          = .ok (before ++ out ++ after) := by
  intro g pre post opening closing e out x
  obtain ⟨hframe, hpairs⟩ := toPostfix_substitution g
  have he : toPostfix g e = .ok out := rfl
  refine ⟨hpairs _ e out (by decide) he, ?_⟩
  rcases hframe pre post (by decide) with
    ⟨before, after, hx, henclosed⟩ | ⟨failure, hx, -⟩
  · exact ⟨before, after, hx x rfl, henclosed opening closing e out rfl rfl he⟩
  · have hrun := hx x rfl
    cases hrun

end Reckoner

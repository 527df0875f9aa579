/-
The records of the open parentheses, read against the tokens.

The converter never looks back at what it has read. All that it knows of
it is in the records: for each open parenthesis the function before it,
the commas behind it and whether anything stands behind it at all. These
are what counting in the tokens themselves gives (`Tallies`): the record
on top is that of the innermost parenthesis that is open, the next one
that of the innermost before it, and where there is none all that was read
is balanced. Every move keeps that (`Tallies.move`), so a converter that
`Follows` what it read knows what is open in it, and it goes on for as
long as the tokens let it (`Follows.exists_move`).
-/
import Reckoner.Proofs.Infix.Bracketing
import Reckoner.Proofs.Postfix.Alignment
import Reckoner.Proofs.Token.Filled

namespace Reckoner

private theorem TokenKind.ne_of_isDelimiter {kind : TokenKind}
    (h : kind.isDelimiter = false) :
    kind ≠ .leftParen ∧ kind ≠ .rightParen ∧ kind ≠ .comma := by
  refine ⟨?_, ?_, ?_⟩
  all_goals
    rintro rfl
    cases h

namespace Converter

-- ============================================================== the records

/-- The record that is due for a parenthesis, given what stands before and
behind it. -/
def recordOf (earlier : List Token) (opening : Token) (inner : List Token) :
    OpenParen :=
  ⟨opening, earlier.getLast?.filter (·.kind == .function), ownCommas inner,
    !inner.isEmpty⟩

/-- The records that are due after some tokens. -/
inductive Tallies : List OpenParen → List Token → Prop where
  | level {read} (h : Balanced read) : Tallies [] read
  | inside {outer read earlier opening inner}
      (hopens : Opens read earlier opening inner)
      (h : Tallies outer earlier) :
      Tallies (recordOf earlier opening inner :: noted outer) read

variable {g : Grammar} {read more earlier inner : List Token}
  {token opening : Token}
variable {parens outer : List OpenParen} {record : OpenParen}
  {c c' : Converter}

private theorem opens_append (h : Opens read earlier opening inner)
    (hmore : Balanced more) :
    Opens (read ++ more) earlier opening (inner ++ more) :=
  ⟨by simp [h.eq], h.kind, h.balanced.append hmore⟩

namespace Tallies

/-- A balanced stretch without commas of its own is noted. -/
theorem extend (h : Tallies parens read) (hmore : Balanced more)
    (hne : more ≠ [])
    (hcommas : ownCommas more = 0) :
    Tallies (noted parens) (read ++ more) := by
  cases h with
  | level h => exact .level (h.append hmore)
  | @inside outer _ earlier opening inner hopens h =>
      have hinside := inside (opens_append hopens hmore) h
      have hrecord : recordOf earlier opening (inner ++ more)
          = { recordOf earlier opening inner with hasArguments := true } := by
        simp [recordOf, ownCommas_append hopens.balanced, hcommas, hne]
      rw [hrecord] at hinside
      exact hinside

/-- So is a single token that is neither a parenthesis nor a comma. -/
theorem single (h : Tallies parens read)
    (hdelimiter : token.kind.isDelimiter = false) :
    Tallies (noted parens) (read ++ [token]) := by
  obtain ⟨hopen, hclose, hcomma⟩ := TokenKind.ne_of_isDelimiter hdelimiter
  exact h.extend (Balanced.single hopen hclose) (by simp)
    (by simp [ownCommas_single, hcomma])

/-- A comma is counted. -/
theorem comma (h : Tallies parens read) (hkind : token.kind = .comma) :
    Tallies (counted parens) (read ++ [token]) := by
  have hbalanced : Balanced [token] :=
    Balanced.single (by simp [hkind]) (by simp [hkind])
  cases h with
  | level h => exact .level (h.append hbalanced)
  | @inside outer _ earlier opening inner hopens h =>
      have hinside := inside (opens_append hopens hbalanced) h
      have hrecord : recordOf earlier opening (inner ++ [token])
          = { recordOf earlier opening inner with
              commas := ownCommas inner + 1, hasArguments := true } := by
        simp [recordOf, ownCommas_append hopens.balanced, ownCommas_single,
          hkind]
      rw [hrecord] at hinside
      exact hinside

/-- A closing parenthesis takes the record of what it closes away. -/
theorem closing (h : Tallies (record :: outer) read)
    (hkind : token.kind = .rightParen) :
    Tallies outer (read ++ [token]) := by
  cases h with
  | inside hopens h =>
      obtain ⟨rfl, hopening, hinner⟩ := hopens
      have hgroup := h.extend (Balanced.group hopening hinner hkind) (by simp)
        (ownCommas_group hopening hinner hkind)
      simpa using hgroup

/-- Every move keeps the records up to date. -/
theorem move (h : Tallies c.parens read)
    (hprevious : c.previous = read.getLast?)
    (hmove : Moves g c token more c') :
    Tallies c'.parens (read ++ [token]) := by
  cases hmove with
  | operand _ hkind =>
      refine h.single ?_
      rcases hkind with hkind | hkind <;> simp [hkind, TokenKind.isDelimiter]
  | function _ hkind _ =>
      exact h.single (by simp [hkind, TokenKind.isDelimiter])
  | minus hminus _ _ =>
      exact h.single
        (by simp [Token.kind_of_meant? hminus, TokenKind.isDelimiter])
  | operator _ hop _ _ _ =>
      exact h.single
        (by simp [Token.kind_of_meant? hop, TokenKind.isDelimiter])
  | comma _ hkind => exact h.comma hkind
  | opening hkind =>
      obtain rfl := hprevious
      exact .inside ⟨rfl, hkind, .nil⟩ h
  | closing _ hkind _ _ _ => exact h.closing hkind

/-- What is open has a record, the one that is due for it. -/
theorem eq_cons (h : Tallies parens read)
    (hopens : Opens read earlier opening inner) :
    ∃ outer, parens = recordOf earlier opening inner :: outer := by
  cases h with
  | level h => exact absurd h hopens.not_balanced
  | inside hopens' h =>
      obtain ⟨rfl, rfl, rfl⟩ := hopens.unique hopens'
      exact ⟨_, rfl⟩

end Tallies

-- ============================================================= the converter

/-- What a converter knows of the tokens that it has read. -/
structure Follows (read : List Token) (c : Converter) : Prop where
  inStep : InStep c
  previous : c.previous = read.getLast?
  tallies : Tallies c.parens read

theorem follows_start : Follows [] {} := ⟨inStep_start, rfl, .level .nil⟩

/-- Of a stack in step with a record something open can be closed. -/
theorem Aligned.exists_open {stack : List Token}
    (h : Aligned stack (record :: outer)) :
    ∃ inner top below, stack = inner ++ top :: below
      ∧ (∀ t ∈ inner, isInside t = true) ∧ top.kind = .leftParen := by
  obtain ⟨below, hdrop⟩ := List.head?_eq_some_iff.mp h.unwound.2
  refine ⟨stack.takeWhile isInside, record.token, below, ?_,
    isInside_takeWhile stack, kind_of_dropWhile hdrop⟩
  rw [← hdrop, List.takeWhile_append_dropWhile]

namespace Follows

theorem move (h : Follows read c) (hmove : Moves g c token more c') :
    Follows (read ++ [token]) c' := by
  refine ⟨h.inStep.move hmove, ?_, h.tallies.move h.previous hmove⟩
  rw [previous_of_moves hmove, List.getLast?_append, List.getLast?_singleton,
    Option.some_or]

theorem of_feed (h : feed g {} read = .ok (more, c)) : Follows read c :=
  feed_keeps (P := fun read _ c => Follows read c)
    (fun h hmove => h.move hmove) follows_start h

/-- Nothing waits that is open, or a record tells what. -/
theorem open_cases (h : Follows read c) (hidle : Idle c.previous) :
    Balanced read ∧ c.parens = [] ∧ (∀ t ∈ c.stack, isInside t = true)
      ∨ ∃ earlier opening inner outer, Opens read earlier opening inner
        ∧ c.parens = recordOf earlier opening inner :: outer
        ∧ c.stack.find? (·.kind == .leftParen) = some opening := by
  have haligned := (inStep_iff_of_idle hidle).mp h.inStep
  have htallies := h.tallies
  have hfilter := haligned.filter_eq
  generalize hparens : c.parens = parens at haligned htallies hfilter
  cases htallies with
  | level hread =>
      refine Or.inl ⟨hread, rfl, fun t ht => ?_⟩
      rw [List.map_nil, List.filter_eq_nil_iff] at hfilter
      simpa using hfilter t ht
  | @inside outer _ earlier opening inner hopens _ =>
      exact Or.inr ⟨earlier, opening, inner, _, hopens, rfl, haligned.find?_eq⟩

end Follows

-- =============================================================== going on

private theorem checkArguments_group (h : Idle earlier.getLast?)
    (opening : Token)
    (inner : List Token) :
    checkArguments g (recordOf earlier opening inner) = .ok () := by
  simp [checkArguments, recordOf, filter_of_idle h]

/-- A call with arguments is held against what its function takes. -/
theorem checkArguments_call {function : Token} {spec : FunctionSpec}
    (hkind : function.kind = .function)
    (hspec : g.functions.find? function.text = some spec)
    (earlier : List Token) (opening : Token) (inner : List Token) :
    checkArguments g (recordOf (earlier ++ [function]) opening inner)
      = if inner ≠ [] ∧ ownCommas inner + 1 ≠ spec.arity then
          .error (.at (.argumentCount function.text spec.arity
            (ownCommas inner + 1)) function.position g.source)
        else .ok () := by
  simp only [checkArguments, recordOf, List.getLast?_append,
    List.getLast?_singleton, Option.some_or, Option.filter, hkind, BEq.rfl,
    if_true, Registry.lookup, hspec]
  cases inner with
  | nil => simp
  | cons first rest => simp

/-- Where the call that a parenthesis ends has the right number of
arguments, the check lets it pass. -/
theorem checkArguments_of_counted (opening : Token)
    (hearlier : ∀ t ∈ earlier, t.Filled g.functions)
    (hcount : ∀ before function spec, earlier = before ++ [function] →
      function.kind = .function → inner ≠ [] →
      g.functions.find? function.text = some spec →
        ownCommas inner + 1 = spec.arity) :
    checkArguments g (recordOf earlier opening inner) = .ok () := by
  by_cases hidle : Idle earlier.getLast?
  · exact checkArguments_group hidle opening inner
  · simp only [Idle, not_forall, ne_eq, not_not] at hidle
    obtain ⟨function, hlast, hkind⟩ := hidle
    obtain ⟨before, rfl⟩ := List.getLast?_eq_some_iff.mp hlast
    have hready := (hearlier function (by simp)).ready
      (by simp [hkind, TokenKind.isDelimiter])
    obtain ⟨spec, hspec⟩ :=
      NameMap.contains_eq_true_iff.mp (hready.contains hkind)
    rw [checkArguments_call hkind hspec, if_neg]
    rintro ⟨hinner, hwrong⟩
    exact hwrong (hcount before function spec rfl hkind hinner hspec)

/-- A token that violates nothing is read, if the one before it does not
either. -/
theorem Follows.exists_move (h : Follows read c) (rest : List Token)
    (hall : ∀ op, g.operators.contains op = true)
    (hread : ∀ t ∈ read, t.Filled g.functions)
    (htoken : token.Filled g.functions)
    (hcalled : Idle c.previous ∨ token.kind = .leftParen)
    (hnone : token.kind ≠ .function →
      ∀ fault position,
        ¬ Violation g.functions read token rest fault position) :
    ∃ out c', Moves g c token out c' := by
  obtain ⟨stack, parens, previous⟩ := c
  cases hkind : token.kind with
  | number | identifier =>
      exact ⟨_, _, .operand (hcalled.resolve_right (by simp [hkind]))
        (by simp [hkind])⟩
  | function =>
      have hready := htoken.ready (by simp [hkind, TokenKind.isDelimiter])
      exact ⟨_, _, .function (hcalled.resolve_right (by simp [hkind])) hkind
        (hready.contains hkind)⟩
  | operator =>
      have hready := htoken.ready (by simp [hkind, TokenKind.isDelimiter])
      obtain ⟨op, hop⟩ := hready.operator hkind
      have hmeant : token.meant? = some op := by simp [meant?_eq hkind, hop]
      by_cases hplace : op = .subtract ∧ isUnaryPlace previous = true
      · obtain ⟨rfl, hplace⟩ := hplace
        exact ⟨_, _, .minus hmeant hplace (hall _)⟩
      · obtain ⟨spec, hspec⟩ := OperatorTable.find?_of_contains (hall op)
        obtain ⟨out, kept, hsplit⟩ := exists_splitYielding hall spec stack
        exact ⟨_, _, .operator (hcalled.resolve_right (by simp [hkind])) hmeant
          hspec hplace hsplit⟩
  | comma =>
      exact ⟨_, _, .comma (hcalled.resolve_right (by simp [hkind])) hkind⟩
  | leftParen => exact ⟨_, _, .opening hkind⟩
  | rightParen =>
      have hidle := hcalled.resolve_right (by simp [hkind])
      have hnone := hnone (by simp [hkind])
      -- otherwise the bracket would be unopened, and that is a violation
      have hopen : ∃ earlier opening inner,
          Opens read earlier opening inner := by
        by_contra hopens
        simp only [not_exists] at hopens
        exact hnone _ _ (.unopened hkind hopens)
      obtain ⟨earlier, opening, inner, hopens⟩ := hopen
      obtain ⟨outer, rfl⟩ := h.tallies.eq_cons hopens
      obtain ⟨above, top, below, rfl, habove, htop⟩ :=
        ((inStep_iff_of_idle hidle).mp h.inStep).exists_open
      refine ⟨_, _, .closing hidle hkind habove htop
        (checkArguments_of_counted opening ?_ ?_)⟩
      · intro t ht
        exact hread t (by simp [hopens.eq, ht])
      · rintro before function spec rfl hfunction hinner hspec
        -- nor is the call miscounted
        by_contra hcount
        exact hnone _ _ (.miscounted hkind hopens hfunction hinner hspec
          hcount)

end Converter

end Reckoner

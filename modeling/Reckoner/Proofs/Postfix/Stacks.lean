/-
What the two stacks of the converter hold between two tokens.

That the stack of waiting tokens and the list of records are in step
(`Aligned`) is read off here place by place. The record of a parenthesis
is found by counting the parentheses above it (`Aligned.record_at`,
`Aligned.opening_at`); it names the function directly below, if there is
one (`Aligned.called_eq`), and nowhere else does a function wait
(`Aligned.opening_above`). Above the innermost parenthesis there are only
operators (`Aligned.unwound`). So whatever takes the stack down to there,
a comma, a closing parenthesis or the end of the input, sends no function
out on the way and comes to the parenthesis of the innermost record
(`Unwinds`).

When an operator is laid on another, that one has just been asked to go
and stays, unless the new one is the sign of what follows
(`sign_or_stays`). As neither of them moves before the upper one goes,
all that has to be known of the past is which token laid it there
(`Lays`, `laid_of_feed`).

All of this holds after any tokens that can be read one after the other,
whatever the table and the registry (`inOrder_of_feed`).
-/
import Reckoner.Proofs.Postfix.Breakdown
import Reckoner.Proofs.Postfix.Rejection

namespace Reckoner.Converter

variable {g : Grammar} {c c' : Converter}
  {token opening function waiting : Token}
variable {stack above below read out : List Token}
  {parens outer : List OpenParen}
variable {record : OpenParen}

-- ================================================ the records by their places

namespace Aligned

/-- A parenthesis has its record: as many parentheses lie above the one as
records come before the other. -/
theorem record_at (hkind : opening.kind = .leftParen)
    (h : Aligned (above ++ opening :: below) parens) :
    ∃ record outer, parens[openings above]? = some record
      ∧ Aligned (opening :: below) (record :: outer) := by
  generalize hstack : above ++ opening :: below = stack at h
  induction h generalizing above with
  | empty => simp at hstack
  | operator hoperator h ih =>
      cases above with
      | nil =>
          obtain ⟨rfl, -⟩ := List.cons.inj hstack
          simp [hoperator] at hkind
      | cons first above =>
          obtain ⟨rfl, hrest⟩ := List.cons.inj hstack
          rw [openings_cons_inside (by simp [isInside, hoperator])]
          exact ih hrest
  | group hopen hrecord hplain h ih =>
      cases above with
      | nil =>
          obtain ⟨rfl, rfl⟩ := List.cons.inj hstack
          exact ⟨_, _, rfl, .group hopen hrecord hplain h⟩
      | cons first above =>
          obtain ⟨rfl, hrest⟩ := List.cons.inj hstack
          rw [openings_cons_open hopen, List.getElem?_cons_succ]
          exact ih hrest
  | call hopen hfunction hrecord hcall h ih =>
      -- two tokens belong to the record of a call, so two are taken off above
      cases above with
      | nil =>
          obtain ⟨rfl, rfl⟩ := List.cons.inj hstack
          exact ⟨_, _, rfl, .call hopen hfunction hrecord hcall h⟩
      | cons first above =>
          obtain ⟨rfl, hrest⟩ := List.cons.inj hstack
          rw [openings_cons_open hopen, List.getElem?_cons_succ]
          cases above with
          | nil =>
              obtain ⟨rfl, -⟩ := List.cons.inj hrest
              simp [hfunction] at hkind
          | cons second above =>
              obtain ⟨rfl, hinner⟩ := List.cons.inj hrest
              rw [openings_cons_inside (by simp [isInside, hfunction])]
              exact ih hinner

/-- And every record is that of a parenthesis. -/
theorem opening_at {place : Nat} (h : Aligned stack parens)
    (hplace : parens[place]? = some record) :
    ∃ above opening below outer, stack = above ++ opening :: below
      ∧ openings above = place ∧ opening.kind = .leftParen
      ∧ Aligned (opening :: below) (record :: outer) := by
  induction h generalizing place with
  | empty => simp at hplace
  | operator hoperator h ih =>
      obtain ⟨above, opening, below, outer, rfl, hcount, hkind, haligned⟩ :=
        ih hplace
      refine ⟨_ :: above, opening, below, outer, rfl, ?_, hkind, haligned⟩
      rwa [openings_cons_inside (by simp [isInside, hoperator])]
  | group hopen hrecord hplain h ih =>
      cases place with
      | zero =>
          obtain rfl := Option.some.inj hplace
          exact ⟨[], _, _, _, rfl, rfl, hopen, .group hopen hrecord hplain h⟩
      | succ place =>
          rw [List.getElem?_cons_succ] at hplace
          obtain ⟨above, opening, below, outer, rfl, hcount, hkind,
            haligned⟩ := ih hplace
          refine ⟨_ :: above, opening, below, outer, rfl, ?_, hkind, haligned⟩
          rw [openings_cons_open hopen, hcount]
  | call hopen hfunction hrecord hcall h ih =>
      cases place with
      | zero =>
          obtain rfl := Option.some.inj hplace
          exact ⟨[], _, _, _, rfl, rfl, hopen,
            .call hopen hfunction hrecord hcall h⟩
      | succ place =>
          rw [List.getElem?_cons_succ] at hplace
          obtain ⟨above, opening, below, outer, rfl, hcount, hkind,
            haligned⟩ := ih hplace
          refine ⟨_ :: _ :: above, opening, below, outer, rfl, ?_, hkind,
            haligned⟩
          rw [openings_cons_open hopen,
            openings_cons_inside (by simp [isInside, hfunction]), hcount]

/-- A record names the function directly below its parenthesis, if there is
one. -/
theorem called_eq (hkind : opening.kind = .leftParen)
    (h : Aligned (opening :: below) (record :: outer)) :
    record.token = opening
      ∧ record.function = below.head?.filter (·.kind == .function) := by
  cases h with
  | operator hoperator _ => simp [hoperator] at hkind
  | group _ hrecord hplain h =>
      refine ⟨hrecord, ?_⟩
      rw [hplain, eq_comm, Option.filter_eq_none_iff]
      intro top htop
      simpa using h.top_ne_function top htop
  | call _ hfunction hrecord hcall _ =>
      refine ⟨hrecord, ?_⟩
      rw [hcall, List.head?_cons, Option.filter_some, hfunction]
      rfl

/-- A function waits directly below a parenthesis. -/
theorem opening_above (hkind : function.kind = .function)
    (h : Aligned (above ++ function :: below) parens) :
    ∃ inner opening, above = inner ++ [opening]
      ∧ opening.kind = .leftParen := by
  generalize hstack : above ++ function :: below = stack at h
  induction h generalizing above with
  | empty => simp at hstack
  | operator hoperator h ih =>
      cases above with
      | nil =>
          obtain ⟨rfl, -⟩ := List.cons.inj hstack
          simp [hoperator] at hkind
      | cons first above =>
          obtain ⟨inner, opening, rfl, hopening⟩ := ih (List.cons.inj hstack).2
          exact ⟨first :: inner, opening, rfl, hopening⟩
  | group hopen _ _ h ih =>
      cases above with
      | nil =>
          obtain ⟨rfl, -⟩ := List.cons.inj hstack
          simp [hopen] at hkind
      | cons first above =>
          obtain ⟨inner, opening, rfl, hopening⟩ := ih (List.cons.inj hstack).2
          exact ⟨first :: inner, opening, rfl, hopening⟩
  | call hopen hfunction _ _ h ih =>
      cases above with
      | nil =>
          obtain ⟨rfl, -⟩ := List.cons.inj hstack
          simp [hopen] at hkind
      | cons first above =>
          obtain ⟨rfl, hrest⟩ := List.cons.inj hstack
          cases above with
          -- the function of this very record
          | nil => exact ⟨[], first, rfl, hopen⟩
          | cons second above =>
              obtain ⟨inner, opening, rfl, hopening⟩ :=
                ih (List.cons.inj hrest).2
              exact ⟨first :: second :: inner, opening, rfl, hopening⟩

end Aligned

-- ===================================================== a function just read

private theorem isInside_fresh (previous : Option Token) :
    ∀ t ∈ fresh previous, isInside t = true := by
  intro t ht
  rw [fresh, Option.mem_toList, Option.filter_eq_some_iff, beq_iff_eq] at ht
  simp [isInside, ht.2]

private theorem openings_fresh (previous : Option Token) (above : List Token) :
    openings (fresh previous ++ above) = openings above := by
  rw [openings_append, openings_eq_zero_iff.mpr (isInside_fresh previous),
    Nat.zero_add]

/-- What waits was just read or lies below what was. -/
theorem fresh_or_below {previous : Option Token}
    (h : fresh previous ++ stack = above ++ waiting :: below) :
    (above = [] ∧ previous = some waiting)
      ∨ ∃ inner, above = fresh previous ++ inner
        ∧ stack = inner ++ waiting :: below := by
  unfold fresh at h ⊢
  cases hfunction : previous.filter (·.kind == .function) with
  | none =>
      rw [hfunction] at h
      exact .inr ⟨above, rfl, h⟩
  | some function =>
      rw [hfunction] at h
      cases above with
      | nil =>
          obtain ⟨rfl, -⟩ := List.cons.inj h
          exact .inl ⟨rfl, (Option.filter_eq_some_iff.mp hfunction).1⟩
      | cons first above =>
          obtain ⟨rfl, hrest⟩ := List.cons.inj h
          exact .inr ⟨above, rfl, hrest⟩

-- ===================================================== who laid what on what

/-- The operator token `token`, read after `earlier`, lays the top of `stack`
on what lies below. -/
def Lays (g : Grammar) (earlier : List Token) (token : Token)
    (stack : List Token) : Prop :=
  token.kind = .operator
    ∧ ∃ out c, feed g {} (earlier ++ [token]) = .ok (out, c) ∧ c.stack = stack

/-- Each operator on the stack was laid where it lies by a token that was
read. -/
def Laid (g : Grammar) (read stack : List Token) : Prop :=
  ∀ waiting below, waiting :: below <:+ stack → waiting.kind = .operator →
    ∃ earlier token later, read = earlier ++ token :: later
      ∧ Lays g earlier token (waiting :: below)

/-- On `below` lies a unary minus that was put there as the sign of what
follows: some token of `read` laid it there, and none but a sign did. -/
structure IsPrefixMinus (g : Grammar) (read : List Token) (minus : Token)
    (below : List Token) : Prop where
  negate : minus.operator = some .negate
  laid : ∃ earlier sign later, read = earlier ++ sign :: later
    ∧ Lays g earlier sign (minus :: below)
  sign : ∀ earlier token later, read = earlier ++ token :: later →
    Lays g earlier token (minus :: below) → token.IsSign earlier.getLast?

/-- `lower` does not go out before the operator that `upper` carries, which is
one of the table. -/
def Stays (table : OperatorTable) (upper lower : Token) : Prop :=
  ∃ op spec, upper.operator = some op ∧ table.find? op = some spec
    ∧ goesFirst table lower spec = .ok false

/-- A step lays down at most the token that it reads, on what was there. -/
theorem suffix_or_laid (h : Moves g c token out c') :
    c'.stack <:+ c.stack
      ∨ ∃ laid kept, c'.stack = laid :: kept ∧ kept <:+ c.stack
        ∧ laid.kind = token.kind := by
  cases h with
  | operand => exact .inl (List.suffix_refl _)
  | function => exact .inr ⟨_, _, rfl, List.suffix_refl _, rfl⟩
  | minus hminus =>
      exact .inr ⟨_, _, rfl, List.suffix_refl _,
        (Token.kind_of_meant? hminus).symm⟩
  | operator _ _ _ _ hsplit =>
      exact .inr ⟨_, _, rfl, ⟨_, splitYielding_append hsplit⟩,
        Token.kind_carrying ..⟩
  | comma => exact .inl (List.dropWhile_suffix isInside)
  | opening => exact .inr ⟨_, _, rfl, List.suffix_refl _, rfl⟩
  | @closing inner top below =>
      have hcalled : (splitCalled below).2 <:+ below :=
        ⟨_, splitCalled_append below⟩
      have hbelow : below <:+ inner ++ top :: below :=
        (List.suffix_cons top below).trans (List.suffix_append ..)
      exact .inl (hcalled.trans hbelow)

/-- What lay there before a step is still laid by what was read before; what
the step lays down is laid by the token that it reads. -/
theorem Laid.move {more : List Token} (h : Laid g read c.stack)
    (hfeed : feed g {} read = .ok (out, c)) (hmove : Moves g c token more c') :
    Laid g (read ++ [token]) c'.stack := by
  intro waiting below hwaits hkind
  have hbefore : waiting :: below <:+ c.stack → ∃ earlier token' later,
      read ++ [token] = earlier ++ token' :: later
        ∧ Lays g earlier token' (waiting :: below) := by
    intro hwaited
    obtain ⟨earlier, token', later, rfl, hlays⟩ :=
      h waiting below hwaited hkind
    exact ⟨earlier, token', later ++ [token], by simp, hlays⟩
  rcases suffix_or_laid hmove with hsuffix
    | ⟨laid, kept, hstack, hsuffix, hsame⟩
  · exact hbefore (hwaits.trans hsuffix)
  · rw [hstack] at hwaits
    rcases List.suffix_cons_iff.mp hwaits with heq | hwaited
    · obtain ⟨rfl, rfl⟩ := List.cons.inj heq
      have hnext : feed g {} (read ++ [token]) = .ok (out ++ more, c') :=
        feed_concat_eq_ok_iff.mpr ⟨_, _, _, hfeed, hmove, rfl⟩
      exact ⟨read, token, [], rfl, hsame ▸ hkind, _, _, hnext, hstack⟩
    · exact hbefore (hwaited.trans hsuffix)

private theorem laid_start : Laid g [] [] := by
  intro waiting below hwaits
  simp at hwaits

private theorem laid_of_feed (hfeed : feed g {} read = .ok (out, c)) :
    Laid g read c.stack := by
  have hkept := feed_keeps
    (P := fun read out c => feed g {} read = .ok (out, c)
      ∧ Laid g read c.stack)
    (fun ⟨hread, hlaid⟩ hmove =>
      ⟨feed_concat_eq_ok_iff.mpr ⟨_, _, _, hread, hmove, rfl⟩,
        hlaid.move hread hmove⟩)
    ⟨rfl, laid_start⟩ hfeed
  exact hkept.2

/-- A token that lays an operator on another is a sign, or that one has just
been asked to go and stays. -/
theorem sign_or_stays {earlier : List Token} {upper lower : Token}
    (h : Lays g earlier token (upper :: lower :: below)) :
    (token.IsSign earlier.getLast? ∧ upper.operator = some .negate)
      ∨ Stays g.operators upper lower := by
  obtain ⟨hkind, out, c, hfeed, hstack⟩ := h
  obtain ⟨_, before, more, hearlier, hmove, -⟩ :=
    feed_concat_eq_ok_iff.mp hfeed
  have hprevious := previous_of_feed hearlier
  cases hmove with
  | minus hminus hplace _ =>
      obtain ⟨rfl, -⟩ := List.cons.inj hstack
      refine .inl ⟨⟨hminus, ?_⟩, rfl⟩
      rw [Token.isSignPlace_eq, ← hprevious]
      exact hplace
  | operator _ hop hspec _ hsplit =>
      obtain ⟨rfl, rfl⟩ := List.cons.inj hstack
      exact .inr ⟨_, _, Token.operator_carrying hop, hspec,
        goesFirst_of_splitYielding hsplit lower rfl⟩
  | operand _ hother =>
      rcases hother with hother | hother <;> simp [hkind] at hother
  | function _ hother _ => simp [hkind] at hother
  | comma _ hother => simp [hkind] at hother
  | opening hother => simp [hkind] at hother
  | closing _ hother _ _ _ => simp [hkind] at hother

private theorem isPrefixMinus_or_stays {upper lower : Token}
    (hfeed : feed g {} read = .ok (out, c))
    (hwaits : upper :: lower :: below <:+ c.stack)
    (hkind : upper.kind = .operator) :
    IsPrefixMinus g read upper (lower :: below)
      ∨ Stays g.operators upper lower := by
  obtain ⟨earlier, token, later, heq, hlays⟩ :=
    laid_of_feed hfeed _ _ hwaits hkind
  by_cases hsign : ∀ earlier token later, read = earlier ++ token :: later →
      Lays g earlier token (upper :: lower :: below) →
        token.IsSign earlier.getLast?
  · rcases sign_or_stays hlays with ⟨-, hnegate⟩ | hstays
    · exact .inl ⟨hnegate, ⟨earlier, token, later, heq, hlays⟩, hsign⟩
    · exact .inr hstays
  · -- some token that is no sign laid the one on the other
    simp only [not_forall] at hsign
    obtain ⟨_, _, _, -, hother, hnot⟩ := hsign
    exact .inr ((sign_or_stays hother).resolve_left fun h => hnot h.1)

-- ================================================================== the order

/-- How the stacks stand to each other and to the tokens that were read. -/
structure InOrder (g : Grammar) (read : List Token) (c : Converter) :
    Prop where
  /-- The parentheses that wait are those of the records, in order. -/
  parens : c.stack.filter (·.kind == .leftParen) = c.parens.map (·.token)
  /-- A function that waits was just read, or it lies directly below the
  parenthesis whose record names it. -/
  functions : ∀ above function below, c.stack = above ++ function :: below →
    function.kind = .function →
      (above = [] ∧ c.previous = some function)
      ∨ ∃ inner opening record, above = inner ++ [opening]
        ∧ opening.kind = .leftParen
        ∧ c.parens[openings inner]? = some record ∧ record.token = opening
        ∧ record.function = some function
  /-- The function that a record names lies directly below its
  parenthesis. -/
  calls : ∀ place record function, c.parens[place]? = some record →
    record.function = some function → function.kind = .function
      ∧ ∃ above opening below, c.stack = above ++ opening :: function :: below
        ∧ opening.kind = .leftParen ∧ openings above = place
        ∧ record.token = opening
  /-- What lies directly below an operator does not go out before it, unless
  the operator was put there as a sign. -/
  operators : ∀ upper lower below, upper :: lower :: below <:+ c.stack →
    upper.kind = .operator →
      IsPrefixMinus g read upper (lower :: below)
        ∨ Stays g.operators upper lower

private theorem inOrder_of_inStep (h : InStep c)
    (hfeed : feed g {} read = .ok (out, c)) :
    InOrder g read c := by
  obtain ⟨stack, hstack, haligned⟩ := h
  have hstack : c.stack = fresh c.previous ++ stack := hstack
  refine ⟨?_, ?_, ?_, fun _ _ _ hwaits hkind =>
    isPrefixMinus_or_stays hfeed hwaits hkind⟩
  · have hnone : (fresh c.previous).filter (fun token => !isInside token)
        = [] := by
      rw [List.filter_eq_nil_iff]
      intro t ht
      simp [isInside_fresh c.previous t ht]
    rw [filter_leftParen_eq, hstack, List.filter_append, hnone,
      haligned.filter_eq]
    rfl
  · intro above function below heq hkind
    rw [hstack] at heq
    -- a function that was only just read waits on top, without a bracket yet
    rcases fresh_or_below heq with hfresh | ⟨inner, rfl, rfl⟩
    · exact .inl hfresh
    · obtain ⟨inner, opening, rfl, hopening⟩ := haligned.opening_above hkind
      rw [List.append_assoc, List.singleton_append] at haligned
      obtain ⟨record, outer, hplace, hrest⟩ := haligned.record_at hopening
      obtain ⟨htoken, hcalled⟩ := hrest.called_eq hopening
      refine .inr ⟨fresh c.previous ++ inner, opening, record, by simp,
        hopening, ?_, htoken, ?_⟩
      · rw [openings_fresh, hplace]
      · rw [hcalled, List.head?_cons, Option.filter_some, hkind]
        rfl
  · intro place record function hplace hcall
    obtain ⟨above, opening, below, outer, rfl, hcount, hopening, hrest⟩ :=
      haligned.opening_at hplace
    obtain ⟨htoken, hcalled⟩ := hrest.called_eq hopening
    rw [hcall, eq_comm, Option.filter_eq_some_iff, beq_iff_eq] at hcalled
    obtain ⟨hbelow, hkind⟩ := hcalled
    obtain ⟨below, rfl⟩ := List.head?_eq_some_iff.mp hbelow
    refine ⟨hkind, fresh c.previous ++ above, opening, below, ?_, hopening, ?_,
      htoken⟩
    · rw [hstack, List.append_assoc]
    · rw [openings_fresh, hcount]

-- =========================================================== taking it down

/-- The stack is taken down to the innermost parenthesis: `inner` goes out,
operators alone, and `rest` is left. -/
structure Unwinds (g : Grammar) (c : Converter) (inner rest : List Token) :
    Prop where
  stack_eq : c.stack = inner ++ rest
  operators : ∀ t ∈ inner, t.kind = .operator
  /-- What is come to is the parenthesis of the innermost record, or the
  bottom if there is no record. -/
  top : rest.head? = c.parens.head?.map (·.token)
  kind : ∀ opening ∈ rest.head?, opening.kind = .leftParen
  /-- A comma sends `inner` out and is counted in that record. -/
  comma : ∀ token : Token, token.kind = .comma →
    step g c token = .ok (inner, ⟨rest, counted c.parens, some token⟩)
  /-- A closing parenthesis takes parenthesis and record away together and,
  once the arguments are checked, sends the function that the record names
  out after `inner`. -/
  closing : ∀ token : Token, token.kind = .rightParen →
    (rest = [] ∧ c.parens = []
      ∧ step g c token = .error (.at .unopenedParen token.position g.source))
    ∨ ∃ opening record below outer,
      rest = opening :: (record.function.toList ++ below)
      ∧ c.parens = record :: outer ∧ record.token = opening
      ∧ step g c token = (checkArguments g record).map fun _ =>
          (inner ++ record.function.toList, ⟨below, outer, some token⟩)
  /-- The end sends `inner` out, which is all that waits if there is no
  record; else the parenthesis of the innermost one is reported. -/
  finish : c.finish g = match c.parens with
    | [] => .ok inner
    | record :: _ => .error (.at .unclosedParen record.token.position g.source)

/-- What a closing parenthesis closes is that of the innermost record. -/
theorem step_closing_eq (haligned : Aligned c.stack c.parens)
    (hidle : Idle c.previous) (hparens : c.parens = record :: outer)
    (hdrop : c.stack.dropWhile isInside = opening :: below)
    (hkind : token.kind = .rightParen) :
    ∃ kept, below = record.function.toList ++ kept
      ∧ step g c token = (checkArguments g record).map fun _ =>
        (c.stack.takeWhile isInside ++ record.function.toList,
          ⟨kept, outer, some token⟩) := by
  have hcut := List.takeWhile_append_dropWhile (p := isInside) (l := c.stack)
  rw [hdrop] at hcut
  have hopening := kind_of_dropWhile hdrop
  rw [hparens, ← hcut] at haligned
  obtain ⟨-, hcalled, -⟩ :=
    (haligned.drop (isInside_takeWhile c.stack)).closed hopening
  refine ⟨(splitCalled below).2, ?_, ?_⟩
  · rw [← hcalled, splitCalled_append]
  · cases hcheck : checkArguments g record with
    | error failure =>
        apply step_closing hidle hkind
        simp only [closeParen, hdrop, hparens, hcheck]
    | ok _ =>
        obtain ⟨stack, parens, previous⟩ := c
        obtain rfl : parens = record :: outer := hparens
        have hmove : Moves g ⟨_ ++ opening :: below, record :: outer, previous⟩
            token _ _ :=
          .closing hidle hkind (isInside_takeWhile stack) hopening hcheck
        rw [hcut] at hmove
        rw [step_of_moves hmove, hcalled]
        rfl

/-- The end of the input reports the parenthesis of the innermost record. -/
theorem finish_eq (haligned : Aligned c.stack c.parens)
    (hidle : Idle c.previous) :
    c.finish g = match c.parens with
      | [] => .ok (c.stack.takeWhile isInside)
      | record :: _ =>
          .error (.at .unclosedParen record.token.position g.source) := by
  have hnone : c.abandoned? none = none :=
    abandoned?_eq_none_iff.mpr (.inl hidle)
  have hfind := haligned.find?_eq
  unfold Converter.finish
  rw [hnone, hfind]
  cases hparens : c.parens with
  | cons record outer => rfl
  | nil =>
      have hinside : ∀ t ∈ c.stack, isInside t = true := by
        rw [hparens, List.head?_nil, Option.map_none, List.find?_eq_none]
          at hfind
        intro t ht
        simpa [isInside] using hfind t ht
      rw [List.takeWhile_eq_self_iff.mpr hinside]
      rfl

/-- Where no function waits for its parenthesis, the stack is taken down in
step with the records. -/
theorem unwinds_of_inStep (h : InStep c) (hidle : Idle c.previous) :
    Unwinds g c (c.stack.takeWhile isInside) (c.stack.dropWhile isInside) := by
  have haligned := (inStep_iff_of_idle hidle).mp h
  obtain ⟨hoperators, htop⟩ := haligned.unwound
  refine ⟨List.takeWhile_append_dropWhile.symm, hoperators, htop, ?_, ?_, ?_,
    finish_eq haligned hidle⟩
  · intro opening hopening
    obtain ⟨below, hdrop⟩ := List.head?_eq_some_iff.mp hopening
    exact kind_of_dropWhile hdrop
  · intro token hkind
    exact step_of_moves (.comma hidle hkind)
  · intro token hkind
    cases hdrop : c.stack.dropWhile isInside with
    | nil =>
        rw [hdrop, List.head?_nil, eq_comm, Option.map_eq_none_iff,
          List.head?_eq_none_iff] at htop
        refine .inl ⟨rfl, htop, step_closing hidle hkind ?_⟩
        simp only [closeParen, hdrop]
    | cons opening below =>
        rw [hdrop, List.head?_cons, eq_comm, Option.map_eq_some_iff] at htop
        obtain ⟨record, hrecord, htoken⟩ := htop
        obtain ⟨outer, hparens⟩ := List.head?_eq_some_iff.mp hrecord
        obtain ⟨kept, rfl, hstep⟩ :=
          step_closing_eq (g := g) haligned hidle hparens hdrop hkind
        exact .inr ⟨opening, record, kept, outer, rfl, hparens, htoken, hstep⟩

-- ================================================================= the result

/-- Before each token, and before what still waits goes out at the end, the two
stacks of the converter are in order. So whatever takes the stack down
to the innermost parenthesis comes to the one of the innermost record: a comma
is counted there and, as at the end, no function goes out; a closing
parenthesis takes this very record away, and the function that goes out is the
one that the record names. After a function nothing is taken down at all, and
nothing read but its parenthesis. -/
theorem inOrder_of_feed (hfeed : feed g {} read = .ok (out, c)) :
    InOrder g read c
    ∧ (Idle c.previous → ∃ inner rest, Unwinds g c inner rest)
    ∧ ∀ function ∈ c.previous, function.kind = .function →
      (∀ token : Token, token.kind ≠ .leftParen →
        step g c token = .error (unopenedCall g function))
      ∧ c.finish g = .error (unopenedCall g function) := by
  have hstep : InStep c := inStep_start.feed hfeed
  refine ⟨inOrder_of_inStep hstep hfeed, fun hidle =>
    ?_, fun function hprevious hkind => ?_⟩
  · exact ⟨_, _, unwinds_of_inStep hstep hidle⟩
  · exact ⟨fun _ => step_uncalled hprevious hkind,
      finish_uncalled hprevious hkind⟩

/-- Where unary minus binds loosest, the `*` of `2*-sin(x+` would go out
before the minus that lies on it, but is not asked to, as this is a sign. The
call below which both of them lie is still open. -/
theorem inOrder_of_feed_loose_minus :
    let g : Grammar := ⟨OperatorTable.standard.insert .negate
      { Operator.negate.spec with precedence := 0 }, .builtin, ""⟩
    let two : Token := ⟨.number, "2", 0, none, none⟩
    let times : Token := ⟨.operator, "*", 1, none, some .multiply⟩
    let sign : Token := ⟨.operator, "-", 2, none, some .subtract⟩
    let sine : Token := ⟨.function, "sin", 3, none, none⟩
    let opening : Token := ⟨.leftParen, "(", 6, none, none⟩
    let x : Token := ⟨.identifier, "x", 7, none, none⟩
    let plus : Token := ⟨.operator, "+", 8, none, some .add⟩
    let read : List Token := [two, times, sign, sine, opening, x, plus]
    let c : Converter := ⟨[plus, opening, sine, sign.negating, times],
      [⟨opening, some sine, 0, true⟩], some plus⟩
    feed g {} read = .ok ([two, x], c) ∧ InOrder g read c
      ∧ IsPrefixMinus g read sign.negating [times]
      ∧ ¬ Stays g.operators sign.negating times
      ∧ ∃ inner rest, Unwinds g c inner rest := by
  intro g two times sign sine opening x plus read c
  have hfeed : feed g {} read = .ok ([two, x], c) := rfl
  obtain ⟨horder, hunwinds, -⟩ := inOrder_of_feed hfeed
  have hgoes : ¬ Stays g.operators sign.negating times := by
    rintro ⟨_, _, ⟨⟩, ⟨⟩, hgoes⟩
    cases hgoes
  have hwaits : [sign.negating, times] <:+ c.stack :=
    ⟨[plus, opening, sine], rfl⟩
  have hminus :=
    (horder.operators sign.negating times [] hwaits rfl).resolve_right hgoes
  have hidle : Idle c.previous := by rintro _ ⟨⟩ ⟨⟩
  exact ⟨hfeed, horder, hminus, hgoes, hunwinds hidle⟩

end Reckoner.Converter

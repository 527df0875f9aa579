/-
The conversion rearranges what it reads.

Brackets and commas are dropped on the way, all other tokens come out, each
once: at once if they are operands, later if they have to wait. So at any
time what was sent out and what still waits are together what was read,
the delimiters aside, and whatever was sent out before an operand had been
read before it. An `Itinerary` keeps account of this. It names each token
by its place among those read, as two tokens may well be the same, and it
survives the four things that can happen to a token: it is sent out as it
is read, it begins to wait, it stops waiting, or it is dropped.

On the way an operator token may be rewritten: it is made to carry its
operator, and a minus sign that is unary to carry that of unary minus
(`Token.settled`). Nothing else about a token ever changes.
-/
import Reckoner.Proofs.Postfix.Moves
import Reckoner.Proofs.Token.Filled

namespace Reckoner

-- ========================================================= tokens and places

/-- The kinds of tokens that have a value of their own. -/
def TokenKind.isOperand : TokenKind → Bool
  | .number | .identifier => true
  | _ => false

/-- Whether a minus sign is the sign of what follows, given the token before
it: at the beginning, and after an operator, an opening parenthesis or a
comma. -/
def Token.isSignPlace (previous : Option Token) : Bool :=
  previous.all fun before =>
    before.kind == .operator || before.kind == .leftParen
      || before.kind == .comma

/-- A token as it stands in a postfix form, given the token before it in
the infix form: an operator token carries its operator. -/
def Token.settled (previous : Option Token) (token : Token) : Token :=
  match token.meant? with
  | none => token
  | some op =>
      if op = .subtract ∧ isSignPlace previous then token.negating
      else token.carrying op

/-- The postfix form of the token at a place among infix tokens. -/
def standing (tokens : List Token) (entry : Token × Nat) : Token :=
  entry.1.settled (tokens.take entry.2).getLast?

/-- Whether a token at its place is one that the conversion keeps. -/
def isCarried (entry : Token × Nat) : Bool := !entry.1.kind.isDelimiter

namespace Token

variable {previous : Option Token} {token : Token}

theorem isSignPlace_eq (previous : Option Token) :
    isSignPlace previous = Converter.isUnaryPlace previous := by
  cases previous with
  | none => rfl
  | some before =>
      cases hkind : before.kind <;>
        simp [isSignPlace, Converter.isUnaryPlace, Converter.opensOperand,
          hkind]

private theorem settled_of_kind (h : token.kind ≠ .operator) :
    token.settled previous = token := by
  have hnone : token.meant? = none := by simp [meant?, h]
  rw [settled, hnone]

theorem settled_minus (hminus : token.meant? = some .subtract)
    (hplace : Converter.isUnaryPlace previous = true) :
    token.settled previous = token.negating := by
  unfold settled
  rw [hminus]
  exact if_pos ⟨rfl, (isSignPlace_eq previous).trans hplace⟩

theorem settled_operator {op : Operator} (hop : token.meant? = some op)
    (hplace : ¬ (op = .subtract ∧ Converter.isUnaryPlace previous = true)) :
    token.settled previous = token.carrying op := by
  rw [← isSignPlace_eq] at hplace
  unfold settled
  rw [hop]
  exact if_neg hplace

/-- What the conversion makes of a token has its kind, its text and its
position. -/
theorem settled_same (previous : Option Token) (token : Token) :
    (token.settled previous).kind = token.kind
      ∧ (token.settled previous).text = token.text
      ∧ (token.settled previous).position = token.position := by
  unfold settled
  split
  · simp
  · next op hop =>
      split
      · exact ⟨(kind_of_meant? hop).symm, rfl, rfl⟩
      · unfold carrying
        split <;> exact ⟨rfl, rfl, rfl⟩

theorem operator_settled {op : Operator} (hop : token.meant? = some op) :
    (token.settled previous).operator
      = some (if op = .subtract
        ∧ isSignPlace previous then .negate else op) := by
  unfold settled
  rw [hop]
  dsimp only
  split
  · rfl
  · exact operator_carrying hop

end Token

private theorem kind_standing (tokens : List Token) (entry : Token × Nat) :
    (standing tokens entry).kind = entry.1.kind :=
  (Token.settled_same _ _).1

/-- Nothing that is read later changes what a token is made into. -/
theorem standing_append {tokens : List Token} {entry : Token × Nat}
    (h : entry ∈ tokens.zipIdx) (more : List Token) :
    standing (tokens ++ more) entry = standing tokens entry := by
  have hplace : entry.2 < tokens.length := by
    have hmem := List.mem_zipIdx h
    omega
  unfold standing
  rw [List.take_append_of_le_length (Nat.le_of_lt hplace)]

private theorem standing_last (tokens : List Token) (token : Token) :
    standing (tokens ++ [token]) (token, tokens.length)
      = token.settled tokens.getLast? := by
  simp [standing]

private theorem zipIdx_append_singleton (tokens : List Token) (token : Token) :
    (tokens ++ [token]).zipIdx
      = tokens.zipIdx ++ [(token, tokens.length)] := by
  simp [List.zipIdx_append]

namespace Converter

-- ============================================================= the itinerary

/-- The account of a converter that has read and put out some tokens and
keeps some on its stack: which of those read were sent out, in which order,
and which wait. -/
structure Itinerary (read out stack : List Token)
    (sent waiting : List (Token × Nat)) :
    Prop where
  out_eq : sent.map (standing read) = out
  stack_eq : waiting.map (standing read) = stack
  /-- Together they are what was read, the delimiters aside. -/
  perm : (sent ++ waiting.filter isCarried).Perm (read.zipIdx.filter isCarried)
  placed : ∀ entry ∈ waiting, entry ∈ read.zipIdx
  kinds : ∀ entry ∈ waiting, entry.1.kind = .leftParen
    ∨ entry.1.kind = .function
    ∨ entry.1.kind = .operator
  /-- What was sent out before an operand had been read before it. -/
  ordered : sent.Pairwise fun a b => b.1.kind.isOperand = true → a.2 < b.2

/-- There is an account. -/
def Accounted (read out stack : List Token) : Prop :=
  ∃ sent waiting, Itinerary read out stack sent waiting

variable {read out stack kept more : List Token}
  {sent waiting : List (Token × Nat)}
variable {token : Token}

private theorem Itinerary.sent_placed
    (h : Itinerary read out stack sent waiting) :
    ∀ entry ∈ sent, entry ∈ read.zipIdx := by
  intro entry hentry
  have hmem := h.perm.subset (List.mem_append_left _ hentry)
  exact (List.mem_filter.mp hmem).1

/-- The account of what is there does not change as more is read. -/
theorem Itinerary.read_on (h : Itinerary read out stack sent waiting)
    (token : Token) :
    sent.map (standing (read ++ [token])) = out
      ∧ waiting.map (standing (read ++ [token])) = stack
      ∧ ∀ entry ∈ waiting, entry ∈ (read ++ [token]).zipIdx := by
  rw [← h.out_eq, ← h.stack_eq]
  refine ⟨?_, ?_, ?_⟩
  · exact List.map_congr_left fun entry hentry =>
      standing_append (h.sent_placed entry hentry) _
  · exact List.map_congr_left fun entry hentry =>
      standing_append (h.placed entry hentry) _
  · intro entry hentry
    rw [zipIdx_append_singleton]
    exact List.mem_append_left _ (h.placed entry hentry)

private theorem accounted_start : Accounted [] [] [] :=
  ⟨[], [], rfl, rfl, .nil, by simp, by simp, .nil⟩

/-- A delimiter that is read and dropped. -/
theorem Accounted.skip (h : Accounted read out stack)
    (hkind : token.kind.isDelimiter = true) :
    Accounted (read ++ [token]) out stack := by
  obtain ⟨sent, waiting, h⟩ := h
  obtain ⟨hout, hstack, hplaced⟩ := h.read_on token
  refine ⟨sent, waiting, hout, hstack, ?_, hplaced, h.kinds, h.ordered⟩
  rw [zipIdx_append_singleton, List.filter_append]
  simpa [isCarried, hkind] using h.perm

/-- An operand goes out as it is read: all that was sent out before had
been read before. -/
theorem Accounted.operand (h : Accounted read out stack)
    (hkind : token.kind = .number ∨ token.kind = .identifier) :
    Accounted (read ++ [token]) (out ++ [token]) stack := by
  obtain ⟨sent, waiting, h⟩ := h
  obtain ⟨hout, hstack, hplaced⟩ := h.read_on token
  have hcarried : isCarried (token, read.length) = true := by
    rcases hkind with hkind | hkind
      <;> simp [isCarried, hkind, TokenKind.isDelimiter]
  refine ⟨sent ++ [(token, read.length)], waiting, ?_, hstack, ?_, hplaced,
    h.kinds, ?_⟩
  · rw [List.map_append, hout, List.map_singleton, standing_last,
      Token.settled_of_kind
        (by rcases hkind with hkind | hkind <;> simp [hkind])]
  · rw [zipIdx_append_singleton, List.filter_append,
      List.filter_cons_of_pos hcarried, List.filter_nil]
    have hswap :
        (sent ++ [(token, read.length)] ++ waiting.filter isCarried).Perm
        (sent ++ waiting.filter isCarried ++ [(token, read.length)]) := by
      rw [List.append_assoc, List.append_assoc]
      exact List.perm_append_comm.append_left sent
    exact hswap.trans (h.perm.append_right _)
  · rw [List.pairwise_append]
    refine ⟨h.ordered, by simp, fun entry hentry last hlast _ => ?_⟩
    obtain rfl : last = (token, read.length) := by simpa using hlast
    have hmem := List.mem_zipIdx (h.sent_placed entry hentry)
    show entry.2 < read.length
    omega

/-- A token that begins to wait. -/
theorem Accounted.wait (h : Accounted read out stack) (token : Token)
    (hkind : token.kind = .leftParen ∨ token.kind = .function
      ∨ token.kind = .operator) :
    Accounted (read ++ [token]) out
      (token.settled read.getLast? :: stack) := by
  obtain ⟨sent, waiting, h⟩ := h
  obtain ⟨hout, hstack, hplaced⟩ := h.read_on token
  refine ⟨sent, (token, read.length) :: waiting, hout, ?_, ?_, ?_, ?_,
    h.ordered⟩
  · rw [List.map_cons, hstack, standing_last]
  · rw [zipIdx_append_singleton, List.filter_append]
    by_cases hcarried : isCarried (token, read.length) = true
    · rw [List.filter_cons_of_pos hcarried, List.filter_cons_of_pos hcarried,
        List.filter_nil]
      have hswap :
          (sent ++ (token, read.length) :: waiting.filter isCarried).Perm
          (sent ++ waiting.filter isCarried ++ [(token, read.length)]) := by
        rw [List.append_assoc]
        exact (List.perm_append_singleton _ _).symm.append_left sent
      exact hswap.trans (h.perm.append_right _)
    · rw [List.filter_cons_of_neg hcarried, List.filter_cons_of_neg hcarried,
        List.filter_nil, List.append_nil]
      exact h.perm
  · intro entry hentry
    rcases List.mem_cons.mp hentry with rfl | hentry
    · simp [zipIdx_append_singleton]
    · exact hplaced entry hentry
  · intro entry hentry
    rcases List.mem_cons.mp hentry with rfl | hentry
    · exact hkind
    · exact h.kinds entry hentry

/-- Tokens that stop waiting go out, after whatever went out before. -/
theorem Accounted.release (h : Accounted read out (more ++ kept))
    (hinside : ∀ t ∈ more, isInside t = true) :
    Accounted read (out ++ more) kept := by
  obtain ⟨sent, waiting, h⟩ := h
  obtain ⟨gone, staying, rfl, hgone, hstaying⟩ :=
    List.map_eq_append_iff.mp h.stack_eq
  have hkinds : ∀ entry ∈ gone, entry.1.kind = .function
      ∨ entry.1.kind = .operator := by
    intro entry hentry
    have hmem : standing read entry ∈ more :=
      hgone ▸ List.mem_map_of_mem hentry
    have hin := hinside _ hmem
    rw [isInside_iff, kind_standing] at hin
    exact (h.kinds entry (by simp [hentry])).resolve_left hin
  have hcarried : gone.filter isCarried = gone := by
    rw [List.filter_eq_self]
    intro entry hentry
    rcases hkinds entry hentry with hkind | hkind <;>
      simp [isCarried, hkind, TokenKind.isDelimiter]
  have hperm := h.perm
  rw [List.filter_append, hcarried, ← List.append_assoc] at hperm
  refine ⟨sent ++ gone, staying, ?_, hstaying, hperm,
    fun entry hentry => h.placed entry (by simp [hentry]),
    fun entry hentry => h.kinds entry (by simp [hentry]), ?_⟩
  · rw [List.map_append, h.out_eq, hgone]
  · -- nothing that waited is an operand
    have hwaited : ∀ entry ∈ gone, entry.1.kind.isOperand = false := by
      intro entry hentry
      rcases hkinds entry hentry with hkind | hkind
        <;> simp [hkind, TokenKind.isOperand]
    rw [List.pairwise_append]
    refine ⟨h.ordered, ?_, fun _ _ entry hentry hoperand => ?_⟩
    · rw [List.pairwise_iff_forall_sublist]
      intro a b hsublist hoperand
      rw [hwaited b (hsublist.subset (by simp))] at hoperand
      cases hoperand
    · rw [hwaited entry hentry] at hoperand
      cases hoperand

/-- A parenthesis that is closed is dropped. -/
theorem Accounted.close {opening : Token}
    (h : Accounted read out (opening :: stack))
    (hkind : opening.kind = .leftParen) : Accounted read out stack := by
  obtain ⟨sent, waiting, h⟩ := h
  obtain ⟨entry, staying, rfl, hentry, hstaying⟩ :=
    List.map_eq_cons_iff.mp h.stack_eq
  have hdropped : isCarried entry = false := by
    rw [← hentry, kind_standing] at hkind
    simp [isCarried, hkind, TokenKind.isDelimiter]
  have hperm := h.perm
  rw [List.filter_cons, hdropped] at hperm
  exact ⟨sent, staying, h.out_eq, hstaying, hperm,
    fun entry hentry => h.placed entry (by simp [hentry]),
    fun entry hentry => h.kinds entry (by simp [hentry]), h.ordered⟩

-- ================================================================== the runs

/-- Every move keeps the account. -/
theorem accounted_move {g : Grammar} {c c' : Converter}
    (h : c.previous = read.getLast? ∧ Accounted read out c.stack)
    (hmove : Moves g c token more c') :
    c'.previous = (read ++ [token]).getLast?
      ∧ Accounted (read ++ [token]) (out ++ more) c'.stack := by
  obtain ⟨hprevious, h⟩ := h
  cases hmove with
  | operand _ hkind => exact ⟨by simp, h.operand hkind⟩
  | function _ hkind _ =>
      have hwait := h.wait token (by simp [hkind])
      rw [Token.settled_of_kind (by simp [hkind])] at hwait
      exact ⟨by simp, by simpa using hwait⟩
  | minus hminus hplace _ =>
      have hwait := h.wait token (by simp [Token.kind_of_meant? hminus])
      rw [← hprevious, Token.settled_minus hminus hplace] at hwait
      exact ⟨by simp, by simpa using hwait⟩
  | operator _ hop _ hplace hsplit =>
      dsimp only at h
      -- those that go first are released, then the operator waits
      rw [← splitYielding_append hsplit] at h
      have hwait := (h.release (isInside_of_splitYielding hsplit)).wait token
        (by simp [Token.kind_of_meant? hop])
      rw [← hprevious, Token.settled_operator hop hplace] at hwait
      exact ⟨by simp, hwait⟩
  | @comma stack _ _ _ _ hkind =>
      dsimp only at h
      rw [← List.takeWhile_append_dropWhile (p := isInside) (l := stack)] at h
      exact ⟨by simp, (h.release (isInside_takeWhile stack)).skip
        (by simp [hkind, TokenKind.isDelimiter])⟩
  | opening hkind =>
      have hwait := h.wait token (by simp [hkind])
      rw [Token.settled_of_kind (by simp [hkind])] at hwait
      exact ⟨by simp, by simpa using hwait⟩
  | @closing inner top below _ _ _ _ _ hkind hinner htop _ =>
      have hclosed := (h.release hinner).close htop
      -- the bracket leaves the stack for good, and its function with it
      rw [← splitCalled_append below] at hclosed
      have hcalled := hclosed.release (isInside_splitCalled below)
      rw [List.append_assoc] at hcalled
      exact ⟨by simp, hcalled.skip (by simp [hkind, TokenKind.isDelimiter])⟩

/-- So does every run. -/
theorem accounted_feed {g : Grammar} {c : Converter} {tokens : List Token}
    (hfeed : feed g {} tokens = .ok (out, c)) :
    Accounted tokens out c.stack := by
  have hkept := feed_keeps
    (P := fun read out c => c.previous = read.getLast?
      ∧ Accounted read out c.stack)
    (fun h hmove => accounted_move h hmove) ⟨rfl, accounted_start⟩ hfeed
  exact hkept.2

/-- An operator token that stands for no operator is never passed. -/
theorem meant_of_feed {g : Grammar} {c : Converter} {tokens : List Token}
    (hfeed : feed g {} tokens = .ok (out, c)) :
    ∀ token ∈ tokens, token.kind = .operator →
      ∃ op, token.meant? = some op := by
  refine feed_keeps (P := fun read _ _ => ∀ token ∈ read,
    token.kind = .operator →
    ∃ op, token.meant? = some op) ?_ (by simp) hfeed
  intro read out c token more c' h hmove earlier hmem hkind
  rcases List.mem_append.mp hmem with hmem | hmem
  · exact h earlier hmem hkind
  · obtain rfl : earlier = token := by simpa using hmem
    cases hmove with
    | operand _ hoperand => rcases hoperand with h | h <;> simp [hkind] at h
    | function _ hfunction _ => simp [hkind] at hfunction
    | minus hminus _ _ => exact ⟨_, hminus⟩
    | operator _ hop _ _ _ => exact ⟨_, hop⟩
    | comma _ hcomma => simp [hkind] at hcomma
    | opening hopening => simp [hkind] at hopening
    | closing _ hclosing _ _ _ => simp [hkind] at hclosing

end Converter

-- ================================================================== the order

open Converter

/-- Of two members of a list one comes before the other. -/
theorem sublist_pair_or {α : Type} {a b : α} {l : List α} (ha : a ∈ l)
    (hb : b ∈ l) (hne : a ≠ b) : [a, b].Sublist l ∨ [b, a].Sublist l := by
  obtain ⟨before, after, rfl⟩ := List.append_of_mem ha
  rcases List.mem_append.mp hb with hbefore | hafter
  · refine Or.inr ?_
    have hboth := (List.singleton_sublist.mpr hbefore).append
      (List.singleton_sublist.mpr (List.mem_cons_self (a := a) (l := after)))
    exact hboth
  · refine Or.inl ?_
    have hrest : b ∈ after :=
      (List.mem_cons.mp hafter).resolve_left (Ne.symm hne)
    have hboth := (List.singleton_sublist.mpr hrest).cons_cons a
    exact hboth.trans (List.sublist_append_right _ _)

/-- The operands of a list of places that is in order are in order. -/
theorem filter_operands_eq {tokens : List Token} {order : List (Token × Nat)}
    (hperm : order.Perm (tokens.zipIdx.filter isCarried))
    (hordered : order.Pairwise fun a b => b.1.kind.isOperand = true →
      a.2 < b.2) :
    order.filter (fun entry => entry.1.kind.isOperand)
      = tokens.zipIdx.filter fun entry => entry.1.kind.isOperand := by
  have hfilter := hperm.filter fun entry => entry.1.kind.isOperand
  rw [List.filter_filter] at hfilter
  have hsame : ∀ entry ∈ tokens.zipIdx,
      (entry.1.kind.isOperand && isCarried entry)
        = entry.1.kind.isOperand := by
    intro entry _
    cases hkind : entry.1.kind <;>
      simp [TokenKind.isOperand, isCarried, TokenKind.isDelimiter, hkind]
  rw [List.filter_congr hsame] at hfilter
  -- both lists have the same places, in ascending order
  have hleft : (order.filter fun entry => entry.1.kind.isOperand).Pairwise
      fun a b => a.2 < b.2 := by
    rw [List.pairwise_filter]
    exact hordered.imp fun h _ hb => h hb
  have hright : tokens.zipIdx.Pairwise fun a b => a.2 < b.2 := by
    have hrange := List.pairwise_lt_range' (s := 0) (n := tokens.length)
    rw [← List.zipIdx_map_snd, List.pairwise_map] at hrange
    exact hrange
  refine hfilter.eq_of_pairwise ?_ hleft (hright.filter _)
  intro a b _ _ hab hba
  omega

/-- Postfix tokens are a rearrangement of infix ones, of which `order` says
where each of them came from. -/
structure Rearranges (tokens output : List Token)
    (order : List (Token × Nat)) :
    Prop where
  /-- Each token comes out once, unless it is a delimiter. -/
  perm : order.Perm (tokens.zipIdx.filter isCarried)
  output_eq : output = order.map (standing tokens)
  /-- Its kind, its text and its position are the same. -/
  same : ∀ entry ∈ order, (standing tokens entry).kind = entry.1.kind
    ∧ (standing tokens entry).text = entry.1.text
    ∧ (standing tokens entry).position = entry.1.position
  /-- An operator token carries the operator that it came with or, if it came
  with none, the one that its text stands for; but a minus that is the sign
  of what follows is a unary minus. -/
  operator : ∀ entry ∈ order, entry.1.kind = .operator →
    ∃ op, entry.1.operator.or (Operator.ofText? entry.1.text) = some op
      ∧ (standing tokens entry).operator
        = some (if op = .subtract
          ∧ Token.isSignPlace (tokens.take entry.2).getLast?
          then .negate else op)
  /-- All other tokens are as they were. -/
  others : ∀ entry ∈ order, entry.1.kind ≠ .operator →
    standing tokens entry = entry.1
  no_delimiter : ∀ token ∈ output, token.kind.isDelimiter = false
  /-- The operands keep their order. -/
  operands : output.filter (·.kind.isOperand)
    = tokens.filter (·.kind.isOperand)
  /-- And what is done to them comes after all that stand before it. -/
  after_operands : ∀ a ∈ order, ∀ b ∈ order, a.1.kind.isOperand = true →
    b.1.kind = .function ∨ b.1.kind = .operator → a.2 < b.2 →
      [a, b].Sublist order

/-- The operands of an ordered rearrangement are those of the tokens. -/
theorem operands_eq {tokens : List Token} {order : List (Token × Nat)}
    (hperm : order.Perm (tokens.zipIdx.filter isCarried))
    (hordered : order.Pairwise fun a b => b.1.kind.isOperand = true →
      a.2 < b.2) :
    (order.map (standing tokens)).filter (·.kind.isOperand)
      = tokens.filter (·.kind.isOperand) := by
  have hkind : ((·.kind.isOperand) ∘ standing tokens)
      = fun entry : Token × Nat => entry.1.kind.isOperand := by
    funext entry
    show (standing tokens entry).kind.isOperand = _
    rw [kind_standing]
  have hfst : ((·.kind.isOperand) ∘ Prod.fst)
      = fun entry : Token × Nat => entry.1.kind.isOperand := rfl
  have htokens : tokens.filter (·.kind.isOperand)
      = (tokens.zipIdx.filter fun entry => entry.1.kind.isOperand).map
        Prod.fst := by
    rw [← hfst, ← List.filter_map, List.zipIdx_map_fst]
  rw [List.filter_map, hkind, filter_operands_eq hperm hordered, htokens]
  refine List.map_congr_left fun entry hentry => Token.settled_of_kind ?_
  intro hoperator
  simp [TokenKind.isOperand, hoperator] at hentry

/-- The conversion rearranges what it reads: the postfix form consists of
the tokens that are no delimiters, each of them once and with its operator,
the operands in their order and everything else after the operands that
stand before it. -/
theorem toPostfix_rearranges {g : Grammar} {tokens output : List Token}
    (h : toPostfix g tokens = .ok output) :
    ∃ order, Rearranges tokens output order := by
  obtain ⟨out, c, hfeed, -, hinside, rfl⟩ := toPostfix_eq_ok_iff.mp h
  have haccounted := accounted_feed hfeed
  rw [← List.append_nil c.stack] at haccounted
  -- at the end all that waits goes out
  obtain ⟨order, waiting, hall⟩ := haccounted.release hinside
  obtain rfl : waiting = [] := List.map_eq_nil_iff.mp hall.stack_eq
  have hperm := hall.perm
  rw [List.filter_nil, List.append_nil] at hperm
  have hplaced := hall.sent_placed
  refine ⟨order, hperm, hall.out_eq.symm, fun _ _ => Token.settled_same _ _,
    ?_, ?_, ?_, ?_, ?_⟩
  · intro entry hentry hkind
    obtain ⟨op, hop⟩ := meant_of_feed hfeed entry.1
      (List.fst_mem_of_mem_zipIdx (hplaced entry hentry)) hkind
    exact ⟨op, (meant?_eq hkind).symm.trans hop, Token.operator_settled hop⟩
  · exact fun entry _ hkind => Token.settled_of_kind hkind
  · intro token htoken
    rw [← hall.out_eq] at htoken
    obtain ⟨entry, hentry, rfl⟩ := List.mem_map.mp htoken
    have hcarried := (List.mem_filter.mp (hperm.subset hentry)).2
    rw [kind_standing]
    simpa [isCarried] using hcarried
  · rw [← hall.out_eq]
    exact operands_eq hperm hall.ordered
  · intro a ha b hb hoperand _ hlt
    have hne : a ≠ b := by
      rintro rfl
      omega
    rcases sublist_pair_or ha hb hne with hab | hba
    · exact hab
    · have hless :=
        List.pairwise_iff_forall_sublist.mp hall.ordered hba hoperand
      omega

/-- `-2(x,-y)*` has a postfix form though it means nothing: its two minus
signs become unary, and all its operands stay in order. -/
theorem toPostfix_rearranges_meaningless :
    let tokens : List Token := [⟨.operator, "-", 0, none, none⟩,
      ⟨.number, "2", 1, none, none⟩, ⟨.leftParen, "(", 2, none, none⟩,
      ⟨.identifier, "x", 3, none, none⟩, ⟨.comma, ",", 4, none, none⟩,
      ⟨.operator, "-", 5, none, none⟩, ⟨.identifier, "y", 6, none, none⟩,
      ⟨.rightParen, ")", 7, none, none⟩, ⟨.operator, "*", 8, none, none⟩]
    let output : List Token := [⟨.number, "2", 1, none, none⟩,
      ⟨.identifier, "x", 3, none, none⟩, ⟨.identifier, "y", 6, none, none⟩,
      ⟨.operator, "-", 5, none, some .negate⟩,
      ⟨.operator, "-", 0, none, some .negate⟩,
      ⟨.operator, "*", 8, none, some .multiply⟩]
    toPostfix ⟨.standard, .builtin, ""⟩ tokens = .ok output
      ∧ ∃ order, Rearranges tokens output order := by
  intro tokens output
  have hrun : toPostfix ⟨.standard, .builtin, ""⟩ tokens = .ok output := rfl
  exact ⟨hrun, toPostfix_rearranges hrun⟩

end Reckoner

/-
When a conversion breaks down.

The converter makes a unary minus of a minus sign without asking the table
for it. If the table has none, the sign waits as an operator of which the
table has nothing to say (`IsStray`), and the first operator that is held
against it breaks the conversion down. Everything else that waits is known
to the table, and above a stray sign no operator waits but stray signs
(`Tidy`). So an operator breaks the conversion down exactly if a stray sign
lies on top when it arrives, that is, if the latest token of its level is a
sign; and nothing else breaks a conversion down at all (`stranded_of_step`).
-/
import Mathlib.Data.List.Chain
import Reckoner.Proofs.Postfix.Ending
import Reckoner.Proofs.Postfix.Topmost

namespace Reckoner

namespace Converter

-- ========================================================= the stray signs

/-- A waiting unary minus, where the table has none. -/
def IsStray (table : OperatorTable) (waiting : Token) : Prop :=
  waiting.kind = .operator ∧ waiting.operator = some .negate
    ∧ table.contains .negate = false

variable {table : OperatorTable} {arriving : OperatorSpec} {waiting : Token}
variable {stack out kept : List Token}

/-- What waits is known to the table or a unary minus, and above a stray
sign the operators are stray signs. -/
structure Tidy (table : OperatorTable) (stack : List Token) : Prop where
  known : ∀ t ∈ stack, t.kind = .operator →
    ∃ op, t.operator = some op ∧ (table.contains op = true ∨ op = .negate)
  chain : stack.IsChain fun above below =>
    IsStray table below → above.kind = .operator → IsStray table above

private theorem goesFirst_of_stray (h : IsStray table waiting) :
    goesFirst table waiting arriving = .error (.absentOperator .negate) := by
  obtain ⟨hkind, hoperator, hnone⟩ := h
  have hfind : table.find? .negate = none := by
    rw [OperatorTable.contains, Option.isSome_eq_false_iff,
      Option.isNone_iff_eq_none] at hnone
    exact hnone
  simp [goesFirst, hkind, hoperator, OperatorTable.lookup, hfind]

private theorem splitYielding_of_stray {below : List Token}
    (h : IsStray table waiting) :
    splitYielding table arriving (waiting :: below)
      = .error (.absentOperator .negate) := by
  simp only [splitYielding, bind, Except.bind, goesFirst_of_stray h]

private theorem exists_goesFirst (hstray : ¬ IsStray table waiting)
    (hknown : waiting.kind = .operator →
      ∃ op, waiting.operator = some op
        ∧ (table.contains op = true ∨ op = .negate)) :
    ∃ goes, goesFirst table waiting arriving = .ok goes := by
  unfold goesFirst
  split
  · next op hkind hoperator =>
      obtain ⟨op', hop', hcontains⟩ := hknown hkind
      obtain rfl : op = op' := Option.some.inj (hoperator.symm.trans hop')
      have hcontains : table.contains op = true := by
        rcases hcontains with hcontains | rfl
        · exact hcontains
        · by_contra hnone
          exact hstray ⟨hkind, hoperator, Bool.eq_false_iff.mpr hnone⟩
      obtain ⟨spec, hspec⟩ := OperatorTable.find?_of_contains hcontains
      exact ⟨_, by rw [OperatorTable.lookup, hspec]⟩
  · exact ⟨_, rfl⟩

private theorem kind_of_goesFirst
    (h : goesFirst table waiting arriving = .ok true) :
    waiting.kind = .operator := by
  unfold goesFirst at h
  split at h
  · next hkind _ => exact hkind
  · cases h

/-- What stays on top was held against the arriving operator. -/
theorem not_stray_of_splitYielding
    (h : splitYielding table arriving stack = .ok (out, kept)) :
    ∀ top ∈ kept.head?, ¬ IsStray table top := by
  intro top htop hstray
  have hstays := goesFirst_of_splitYielding h top htop
  rw [goesFirst_of_stray hstray] at hstays
  cases hstays

namespace Tidy

theorem nil : Tidy table [] := ⟨nofun, .nil⟩

theorem right {front : List Token} (h : Tidy table (front ++ stack)) :
    Tidy table stack :=
  ⟨fun t ht => h.known t (List.mem_append_right _ ht), h.chain.right_of_append⟩

theorem tail (h : Tidy table (waiting :: stack)) : Tidy table stack := by
  rw [← List.singleton_append] at h
  exact h.right

theorem cons (h : Tidy table stack)
    (hknown : waiting.kind = .operator →
      ∃ op, waiting.operator = some op
        ∧ (table.contains op = true ∨ op = .negate))
    (hhead : ∀ below ∈ stack.head?, IsStray table below →
      waiting.kind = .operator →
      IsStray table waiting) : Tidy table (waiting :: stack) := by
  refine ⟨fun t ht => ?_, h.chain.cons hhead⟩
  rcases List.mem_cons.mp ht with rfl | ht
  · exact hknown
  · exact h.known t ht

/-- A token that is no operator may wait above anything. -/
theorem push (h : Tidy table stack) (hkind : waiting.kind ≠ .operator) :
    Tidy table (waiting :: stack) :=
  h.cons (fun hoperator => absurd hoperator hkind) fun _ _ _ hoperator =>
    absurd hoperator hkind

/-- An operator is held against what waits without a breakdown, unless a
stray sign lies on top. -/
theorem exists_splitYielding (h : Tidy table stack)
    (htop : ∀ top ∈ stack.head?, ¬ IsStray table top) :
    ∃ out kept, splitYielding table arriving stack = .ok (out, kept) := by
  induction stack with
  | nil => exact ⟨[], [], rfl⟩
  | cons top rest ih =>
      have hstray := htop top rfl
      obtain ⟨goes, hgoes⟩ : ∃ goes, goesFirst table top arriving = .ok goes :=
        exists_goesFirst hstray (h.known top (List.mem_cons_self ..))
      simp only [splitYielding, bind, Except.bind, hgoes]
      cases goes with
      | false => exact ⟨_, _, rfl⟩
      | true =>
          have hhead := (List.isChain_cons.mp h.chain).1
          obtain ⟨out, kept, hsplit⟩ :=
            ih h.tail fun below hbelow hbelowStray =>
            hstray (hhead below hbelow hbelowStray (kind_of_goesFirst hgoes))
          rw [hsplit]
          exact ⟨_, _, rfl⟩

variable {g : Grammar} {c c' : Converter} {token : Token}

/-- Every move keeps the stack tidy. -/
theorem move (h : Tidy g.operators c.stack) (hmove : Moves g c token out c') :
    Tidy g.operators c'.stack := by
  cases hmove with
  | operand => exact h
  | function _ hkind _ => exact h.push (by simp [hkind])
  | minus =>
      refine h.cons (fun _ => ⟨.negate, rfl, .inr rfl⟩) ?_
      rintro below - ⟨-, -, hnone⟩ -
      exact ⟨rfl, rfl, hnone⟩
  | operator _ hop hspec _ hsplit =>
      dsimp only at h
      rw [← splitYielding_append hsplit] at h
      have hknown : g.operators.contains _ = true :=
        Option.isSome_iff_exists.mpr ⟨_, hspec⟩
      refine h.right.cons (fun _ =>
        ⟨_, Token.operator_carrying hop, .inl hknown⟩) ?_
      intro below hbelow hstray
      exact absurd hstray (not_stray_of_splitYielding hsplit below hbelow)
  | @comma stack =>
      dsimp only at h
      rw [← List.takeWhile_append_dropWhile (p := isInside) (l := stack)] at h
      exact h.right
  | opening hkind => exact h.push (by simp [hkind])
  | @closing inner top below =>
      have hbelow : Tidy g.operators below := h.right.tail
      rw [← splitCalled_append below] at hbelow
      exact hbelow.right

end Tidy

-- ================================================================= reading

section Reading

variable {g : Grammar} {c : Converter} {token : Token} {read : List Token}

private theorem tidy_of_feed (h : feed g {} read = .ok (out, c)) :
    Tidy g.operators c.stack :=
  feed_keeps (P := fun _ _ c => Tidy g.operators c.stack)
    (fun h hmove => h.move hmove) .nil h

/-- What is read has its functions in the registry and its operators in the
table. -/
theorem known_of_feed (h : feed g {} read = .ok (out, c)) :
    ∀ t ∈ read, (t.kind = .function → g.functions.contains t.text = true)
      ∧ ∀ op, t.meant? = some op → g.operators.contains op = true := by
  refine feed_keeps (P := fun read _ _ => ∀ t ∈ read,
    (t.kind = .function → g.functions.contains t.text = true)
      ∧ ∀ op, t.meant? = some op → g.operators.contains op = true) ?_
        (by simp) h
  intro read out c token more c' hread hmove t ht
  rcases List.mem_append.mp ht with ht | ht
  · exact hread t ht
  · obtain rfl := List.mem_singleton.mp ht
    have hmeant : ∀ {kind : TokenKind}, t.kind = kind → kind ≠ .operator →
        ∀ op, t.meant? = some op → g.operators.contains op = true := by
      rintro kind rfl hne op hop
      exact absurd (Token.kind_of_meant? hop) hne
    cases hmove with
    | operand _ hkind =>
        rcases hkind with hkind | hkind
          <;> exact ⟨by simp [hkind], hmeant hkind nofun⟩
    | function _ hkind hknown => exact ⟨fun _ => hknown, hmeant hkind nofun⟩
    | minus hminus _ hsubtract =>
        refine ⟨by simp [Token.kind_of_meant? hminus], fun op hop => ?_⟩
        rw [hminus] at hop
        cases hop
        exact hsubtract
    | operator _ hop' hspec _ _ =>
        refine ⟨by simp [Token.kind_of_meant? hop'], fun op hop => ?_⟩
        rw [hop'] at hop
        cases hop
        exact Option.isSome_iff_exists.mpr ⟨_, hspec⟩
    | comma _ hkind => exact ⟨by simp [hkind], hmeant hkind nofun⟩
    | opening hkind => exact ⟨by simp [hkind], hmeant hkind nofun⟩
    | closing _ hkind _ _ _ => exact ⟨by simp [hkind], hmeant hkind nofun⟩

end Reading

end Converter

-- ============================================================ the stranded

/-- Whether a token is a minus sign where an operand has to begin, given the
token before it. -/
def Token.IsSign (previous : Option Token) (token : Token) : Prop :=
  token.meant? = some .subtract ∧ Token.isSignPlace previous = true

namespace Converter

/-- The tokens can be read one after the other. -/
def Reads (g : Grammar) (tokens : List Token) : Prop :=
  ∃ out c, feed g {} tokens = .ok (out, c)

/-- An operator of the table that comes, between operands, after a sign that
the table has no operator for. -/
structure Stranded (g : Grammar) (before : List Token) (token : Token) :
    Prop where
  reads : Reads g before
  idle : Idle before.getLast?
  known : ∃ op, token.meant? = some op ∧ g.operators.contains op = true
  notSign : ¬ token.IsSign before.getLast?
  afterSign : ∃ earlier sign between, Latest before earlier sign between
    ∧ sign.IsSign earlier.getLast?
  absent : g.operators.contains .negate = false

variable {g : Grammar} {c : Converter} {token : Token}
  {before out : List Token}

/-- A stray sign lies on top if the latest token of the level is a sign and
the table has no operator for it. -/
theorem stray_on_top_iff (hfeed : feed g {} before = .ok (out, c))
    (hidle : Idle c.previous) :
    (∃ top ∈ c.stack.head?, IsStray g.operators top)
      ↔ (∃ earlier sign between, Latest before earlier sign between
          ∧ sign.IsSign earlier.getLast?)
          ∧ g.operators.contains .negate = false := by
  constructor
  · rintro ⟨top, htop, htopKind, hoperator, hnone⟩
    refine ⟨?_, hnone⟩
    obtain ⟨earlier, sign, between, hlatest, hkind, rfl⟩ :=
      latest_of_operator_on_top hfeed hidle htop htopKind
    have hmem : sign ∈ before := by simp [hlatest.eq]
    obtain ⟨op, hop⟩ := meant_of_feed hfeed sign hmem hkind
    rw [Token.operator_settled hop, Option.some_inj] at hoperator
    split at hoperator
    · next hplace =>
        obtain ⟨rfl, hplace⟩ := hplace
        exact ⟨earlier, sign, between, hlatest, hop, hplace⟩
    · -- a sign by itself is in the table, as it was read
      subst hoperator
      rw [(known_of_feed hfeed sign hmem).2 _ hop] at hnone
      cases hnone
  · rintro ⟨⟨earlier, sign, between, hlatest, hminus, hplace⟩, hnone⟩
    obtain ⟨kept, hstack⟩ :=
      operator_on_top hfeed hlatest (Token.kind_of_meant? hminus) hidle
    rw [Token.isSignPlace_eq] at hplace
    rw [Token.settled_minus hminus hplace] at hstack
    exact ⟨sign.negating, by rw [hstack]; rfl, rfl, rfl, hnone⟩

/-- A stranded operator breaks the conversion down. -/
theorem Stranded.step (h : Stranded g before token)
    (hfeed : feed g {} before = .ok (out, c)) :
    Converter.step g c token = .error (.broken (.absentOperator .negate)) := by
  have hprevious := previous_of_feed hfeed
  have hidle : Idle c.previous := hprevious ▸ h.idle
  obtain ⟨top, htop, hstray⟩ :=
    (stray_on_top_iff hfeed hidle).mpr ⟨h.afterSign, h.absent⟩
  obtain ⟨op, hop, hcontains⟩ := h.known
  obtain ⟨spec, hspec⟩ := OperatorTable.find?_of_contains hcontains
  have hplace : ¬ (op = .subtract ∧ isUnaryPlace c.previous = true) := by
    rintro ⟨rfl, hplace⟩
    rw [hprevious, ← Token.isSignPlace_eq] at hplace
    exact h.notSign ⟨hop, hplace⟩
  obtain ⟨stack, parens, previous⟩ := c
  obtain ⟨below, rfl⟩ := List.head?_eq_some_iff.mp htop
  have hkind := Token.kind_of_meant? hop
  rw [meant?_eq hkind] at hop
  unfold Converter.step
  rw [abandoned?_eq_none_iff.mpr (Or.inl hidle)]
  simp [noteArgument_eq, handle, hkind, Converter.operator, hop, hspec, hplace,
    splitYielding_of_stray hstray]

/-- Nothing else does: where a step breaks down a stranded operator is read. -/
theorem stranded_of_step (hfeed : feed g {} before = .ok (out, c))
    {breakdown : Breakdown}
    (h : Converter.step g c token = .error (.broken breakdown)) :
    Stranded g before token := by
  have hprevious := previous_of_feed hfeed
  have hfollows : Follows before c := .of_feed hfeed
  cases fails_of_step h with
  | @operator stack _ previous _ op _ _ hidle hop hspec hplace hsplit =>
      have hstray : ∃ top ∈ stack.head?, IsStray g.operators top := by
        by_contra hnone
        simp only [not_exists, not_and] at hnone
        obtain ⟨out, kept, hok⟩ :=
          (tidy_of_feed hfeed).exists_splitYielding hnone
        rw [hsplit] at hok
        cases hok
      obtain ⟨hsign, habsent⟩ := (stray_on_top_iff hfeed hidle).mp hstray
      have hprevious : previous = before.getLast? := hprevious
      rw [hprevious] at hidle hplace
      refine ⟨⟨_, _, hfeed⟩, hidle,
        ⟨_, hop, Option.isSome_iff_exists.mpr ⟨_, hspec⟩⟩, ?_, hsign, habsent⟩
      rintro ⟨hminus, hsignPlace⟩
      rw [hop] at hminus
      rw [Token.isSignPlace_eq] at hsignPlace
      exact hplace ⟨Option.some.inj hminus, hsignPlace⟩
  | unrecorded hidle htop hkind =>
      -- the open parentheses have their records
      have haligned := (inStep_iff_of_idle hidle).mp hfollows.inStep
      have hnone : _ = ([] : List Token) := haligned.filter_eq
      rw [List.filter_eq_nil_iff] at hnone
      simpa [isInside, hkind] using hnone _ htop
  | @unknownCall stack record outer previous _ function hcall hunknown =>
      -- the functions of the records were read
      have htallies := hfollows.tallies
      generalize hparens : record :: outer = parens at htallies
      cases htallies with
      | level => cases hparens
      | @inside _ _ earlier opening inner hopens _ =>
          obtain ⟨rfl, -⟩ := List.cons.inj hparens
          obtain ⟨hlast, hkind⟩ := Option.filter_eq_some_iff.mp hcall
          have hmem : function ∈ before := by
            rw [hopens.eq]
            exact List.mem_append_left _ (List.mem_of_getLast? hlast)
          have hknown :=
            (known_of_feed hfeed function hmem).1 (by simpa using hkind)
          rw [NameMap.contains, hunknown] at hknown
          cases hknown

/-- An operator that the table does not have, as it is to stand in the postfix
form, stops the run with a report, unless it is a sign and the table has the
minus. -/
theorem step_absent (hfeed : feed g {} before = .ok (out, c))
    (hidle : Idle before.getLast?) (hkind : token.kind = .operator)
    (habsent : ∀ op, (token.settled before.getLast?).operator = some op →
      g.operators.contains op = false)
    (hnot : ¬ (token.IsSign before.getLast?
      ∧ g.operators.contains .subtract = true)) :
    Converter.step g c token = .error (unknown g token) := by
  have hnone : ∀ op, token.meant? = some op →
      g.operators.contains op = false := by
    intro op hop
    have hsettled : (token.settled before.getLast?).operator = _ :=
      Token.operator_settled hop
    by_cases hplace : op = .subtract ∧ Token.isSignPlace before.getLast? = true
    · obtain ⟨rfl, hplace⟩ := hplace
      exact Bool.eq_false_iff.mpr
        fun hsubtract => hnot ⟨⟨hop, hplace⟩, hsubtract⟩
    · rw [if_neg hplace] at hsettled
      exact habsent op hsettled
  have hprevious := previous_of_feed hfeed
  obtain ⟨stack, parens, previous⟩ := c
  obtain rfl : previous = before.getLast? := hprevious
  rw [meant?_eq hkind] at hnone
  unfold Converter.step
  rw [abandoned?_eq_none_iff.mpr (Or.inl hidle),
    noteArgument_eq (by simp [hkind])]
  simp only [handle, hkind, Converter.operator]
  cases hop : token.operator.or (Operator.ofText? token.text) with
  | none => rfl
  | some op =>
      have hfind : g.operators.find? op = none := by
        have hop := hnone op hop
        rwa [OperatorTable.contains, Option.isSome_eq_false_iff,
          Option.isNone_iff_eq_none] at hop
      simp only [hfind]

/-- A sign is read if the table has the minus. -/
theorem Reads.append_sign (h : Reads g before)
    (hsign : token.IsSign before.getLast?)
    (hsubtract : g.operators.contains .subtract = true) :
    Reads g (before ++ [token]) := by
  obtain ⟨out, c, hfeed⟩ := h
  obtain ⟨hmeant, hplace⟩ := hsign
  rw [Token.isSignPlace_eq, ← previous_of_feed hfeed] at hplace
  obtain ⟨stack, parens, previous⟩ := c
  have hmove : Moves g ⟨stack, parens, previous⟩ token [] _ :=
    .minus hmeant hplace hsubtract
  exact ⟨_, _, feed_concat_eq_ok_iff.mpr ⟨_, _, _, hfeed, hmove, rfl⟩⟩

end Converter

-- ============================================================== the result

open Converter

/-- A conversion gives a postfix form or reports a fault of its own, if and
only if no operator is stranded; a stranded operator breaks it down. An
operator that the table does not have, as it stands in the postfix form, is
reported where it stands as soon as it is reached; only a minus sign that is
made a unary minus is not, if the table has the binary one. -/
theorem toPostfix_reports_iff (g : Grammar) (tokens : List Token) :
    (((∃ output, toPostfix g tokens = .ok output)
        ∨ ∃ fault position, fault.stage = .conversion
          ∧ toPostfix g tokens = .error (.at fault position g.source))
      ↔ ¬ ∃ before token after, tokens = before ++ token :: after
        ∧ Stranded g.orStandard before token)
    ∧ (∀ before token after, tokens = before ++ token :: after →
      Stranded g.orStandard before token →
        toPostfix g tokens = .error (.broken (.absentOperator .negate)))
    ∧ ∀ before token after, tokens = before ++ token :: after →
      Reads g.orStandard before → Idle before.getLast? →
        token.kind = .operator →
      (∀ op, (token.settled before.getLast?).operator = some op →
        g.orStandard.operators.contains op = false) →
      let isMinus := token.IsSign before.getLast?
        ∧ g.orStandard.operators.contains .subtract = true
      (isMinus → Reads g.orStandard (before ++ [token]))
      ∧ (¬ isMinus → toPostfix g tokens
        = .error (.at (.unknownToken (named token)) token.position
          g.source)) := by
  have hbroken : ∀ before token after, tokens = before ++ token :: after →
      Stranded g.orStandard before token →
        toPostfix g tokens = .error (.broken (.absentOperator .negate)) := by
    rintro before token after rfl hstranded
    obtain ⟨out, c, hfeed⟩ := hstranded.reads
    exact toPostfix_of_stop hfeed (hstranded.step hfeed)
  refine ⟨⟨?_, fun hnone => ?_⟩, hbroken, ?_⟩
  · rintro hends ⟨before, token, after, heq, hstranded⟩
    rw [hbroken before token after heq hstranded] at hends
    rcases hends with ⟨output, h⟩ | ⟨fault, position, -, h⟩ <;> cases h
  · cases houtcome : toPostfix g tokens with
    | ok output => exact .inl ⟨output, rfl⟩
    | error failure =>
        refine .inr ?_
        -- a step that fails breaks down only over a sign that is stranded
        rcases toPostfix_eq_error houtcome with
          ⟨before, token, after, out, c, heq, hfeed, hstep⟩
            | ⟨fault, position, hstage, rfl⟩
        · rcases (fails_of_step hstep).isOfConversion with
            ⟨fault, position, hstage, rfl⟩ | ⟨breakdown, rfl⟩
          · exact ⟨fault, position, hstage, rfl⟩
          · exact absurd ⟨before, token, after, heq,
              stranded_of_step hfeed hstep⟩ hnone
        · exact ⟨fault, position, hstage, rfl⟩
  · rintro before token after rfl hreads hidle hkind habsent isMinus
    refine ⟨fun hminus => hreads.append_sign hminus.1 hminus.2, fun hnot => ?_⟩
    obtain ⟨out, c, hfeed⟩ := hreads
    exact toPostfix_of_stop hfeed (step_absent hfeed hidle hkind habsent hnot)

/-- In a table without unary minus and power, the sign in `1+-sin(x)*2`
strands the multiplication behind the call. The sign in `(-x)` is gone when
its parenthesis closes: `2*(-x)-3` is read, and the power behind it is
reported. -/
theorem toPostfix_reports_stranded_multiplication :
    let g : Grammar :=
      ⟨(OperatorTable.standard.erase .negate).erase .power, .builtin, ""⟩
    let before : List Token := [⟨.number, "1", 0, none, none⟩,
      ⟨.operator, "+", 1, none, none⟩, ⟨.operator, "-", 2, none, none⟩,
      ⟨.function, "sin", 3, none, none⟩, ⟨.leftParen, "(", 6, none, none⟩,
      ⟨.identifier, "x", 7, none, none⟩, ⟨.rightParen, ")", 8, none, none⟩]
    let times : Token := ⟨.operator, "*", 9, none, some .multiply⟩
    let quiet : List Token := [⟨.number, "2", 0, none, none⟩,
      ⟨.operator, "*", 1, none, none⟩, ⟨.leftParen, "(", 2, none, none⟩,
      ⟨.operator, "-", 3, none, none⟩, ⟨.identifier, "x", 4, none, none⟩,
      ⟨.rightParen, ")", 5, none, none⟩, ⟨.operator, "-", 6, none, none⟩,
      ⟨.number, "3", 7, none, none⟩]
    let power : Token := ⟨.operator, "^", 8, none, some .power⟩
    let two : Token := ⟨.number, "2", 10, none, none⟩
    Stranded g.orStandard before times
      ∧ toPostfix g (before ++ times :: [two])
        = .error (.broken (.absentOperator .negate))
      ∧ (∃ output, toPostfix g quiet = .ok output)
      ∧ toPostfix g (quiet ++ power :: [two])
        = .error (.at (.unknownToken (named power)) 8 g.source) := by
  intro g before times quiet power two
  have hstranded : Stranded g.orStandard before times := by
    refine ⟨⟨_, _, rfl⟩, by rintro _ ⟨⟩ ⟨⟩, ⟨.multiply, rfl, rfl⟩,
      by rintro ⟨⟨⟩, -⟩, ?_, rfl⟩
    have harguments : Quiet [⟨.function, "sin", 3, none, none⟩,
        ⟨.leftParen, "(", 6, none, none⟩, ⟨.identifier, "x", 7, none, none⟩,
        ⟨.rightParen, ")", 8, none, none⟩] :=
      .group (.single .nil (.inr (.inr rfl))) rfl
        (Balanced.single (by decide) (by decide)) rfl
    have hlatest :
        Latest before (before.take 2) ⟨.operator, "-", 2, none, none⟩ _ :=
      ⟨rfl, .inl rfl, harguments⟩
    exact ⟨_, _, _, hlatest, rfl, rfl⟩
  have hreads : Reads g.orStandard quiet := ⟨_, _, rfl⟩
  have hidle : Idle quiet.getLast? := by rintro _ ⟨⟩ ⟨⟩
  have habsent : ∀ op, (power.settled quiet.getLast?).operator = some op →
      g.orStandard.operators.contains op = false := by
    rintro _ ⟨⟩
    rfl
  obtain ⟨-, hbroken, hreported⟩ :=
    toPostfix_reports_iff g (before ++ times :: [two])
  obtain ⟨-, -, hpower⟩ := toPostfix_reports_iff g (quiet ++ power :: [two])
  refine ⟨hstranded, hbroken _ _ _ rfl hstranded, ⟨_, rfl⟩, ?_⟩
  refine (hpower _ _ _ rfl hreads hidle rfl habsent).2 ?_
  rintro ⟨⟨⟨⟩, -⟩, -⟩

/-- Where the table has no unary minus, `-1+2` is neither converted nor
reported. -/
theorem toPostfix_stray_sign_unreported :
    let g : Grammar := ⟨OperatorTable.standard.erase .negate, .builtin, "-1+2"⟩
    let tokens : List Token := [⟨.operator, "-", 0, none, some .subtract⟩,
      ⟨.number, "1", 1, some 1, none⟩, ⟨.operator, "+", 2, none, some .add⟩,
      ⟨.number, "2", 3, some 2, none⟩]
    ¬ ((∃ output, toPostfix g tokens = .ok output)
      ∨ ∃ fault position, fault.stage = .conversion
        ∧ toPostfix g tokens = .error (.at fault position g.source)) := by
  intro g tokens
  have hbroken :
      toPostfix g tokens = .error (.broken (.absentOperator .negate)) := rfl
  rw [hbroken]
  rintro (⟨output, h⟩ | ⟨fault, position, -, h⟩) <;> cases h

end Reckoner

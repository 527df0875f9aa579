/-
The two stacks of the converter in step.

Beside the stack of waiting tokens the converter keeps a list of records,
one for each open parenthesis. Nothing in the code ties the two together;
what does is how they grow and shrink. `Aligned` says how they stand to
each other: read from the top, the parentheses on the stack are those of
the records, in order; directly below the parenthesis of a call lies its
function, and nowhere else is there one; all the rest are operators. The
one exception is a function that was just read, which lies on top of all
until its parenthesis comes (`InStep`).

Every move keeps the stacks in step (`InStep.move`). So a closing
parenthesis takes away the record of the parenthesis it closes, and sends
out the function of that record and no other (`Aligned.closed`).
-/
import Reckoner.Proofs.Postfix.Moves

namespace Reckoner.Converter

-- ============================================================ the two stacks

/-- The waiting tokens and the records of the open parentheses, where no
function waits for its parenthesis. -/
inductive Aligned : List Token → List OpenParen → Prop where
  | empty : Aligned [] []
  | operator {waiting stack parens} (hkind : waiting.kind = .operator)
      (h : Aligned stack parens) : Aligned (waiting :: stack) parens
  | group {opening record stack parens} (hkind : opening.kind = .leftParen)
      (hrecord : record.token = opening) (hplain : record.function = none)
      (h : Aligned stack parens) : Aligned (opening :: stack)
        (record :: parens)
  | call {opening function record stack parens}
      (hkind : opening.kind = .leftParen)
      (hfunction : function.kind = .function)
        (hrecord : record.token = opening)
      (hcall : record.function = some function) (h : Aligned stack parens) :
      Aligned (opening :: function :: stack) (record :: parens)

/-- A converter whose stacks are in step, a function that was just read
put aside. -/
def InStep (c : Converter) : Prop :=
  ∃ stack, c.stack = (c.previous.filter (·.kind == .function)).toList ++ stack
    ∧ Aligned stack c.parens

variable {g : Grammar} {stack out kept : List Token}
  {parens outer : List OpenParen}
variable {record : OpenParen}

theorem filter_leftParen_eq (stack : List Token) :
    stack.filter (·.kind == .leftParen) = stack.filter
      fun token => !isInside token := by
  simp [isInside, bne]

namespace Aligned

/-- The parentheses that wait are those of the records. -/
theorem filter_eq (h : Aligned stack parens) :
    stack.filter (fun token => !isInside token) = parens.map (·.token) := by
  induction h with
  | empty => rfl
  | operator hkind _ ih => simpa [isInside, hkind] using ih
  | group hkind hrecord _ _ ih => simpa [isInside, hkind, hrecord] using ih
  | call hkind hfunction hrecord _ _ ih =>
      simpa [isInside, hkind, hfunction, hrecord] using ih

/-- The innermost one is that of the innermost record. -/
theorem find?_eq (h : Aligned stack parens) :
    stack.find? (·.kind == .leftParen) = parens.head?.map (·.token) := by
  rw [← List.head?_filter, filter_leftParen_eq, h.filter_eq, List.head?_map]

/-- Above the innermost parenthesis only operators wait, and the
parenthesis is that of the innermost record. -/
theorem unwound (h : Aligned stack parens) :
    (∀ t ∈ stack.takeWhile isInside, t.kind = .operator)
      ∧ (stack.dropWhile isInside).head? = parens.head?.map (·.token) := by
  induction h with
  | empty => simp
  | @operator waiting _ _ hkind _ ih =>
      have hinside : isInside waiting = true := by simp [isInside, hkind]
      rw [List.takeWhile_cons, List.dropWhile_cons, hinside]
      simpa [hkind] using ih
  | group hkind hrecord _ _ _ => simp [isInside, hkind, hrecord]
  | call hkind _ hrecord _ _ _ => simp [isInside, hkind, hrecord]

/-- Where no parenthesis waits, no record is left. -/
theorem parens_eq_nil (h : Aligned stack parens)
    (hinside : ∀ t ∈ stack, isInside t = true) : parens = [] := by
  have hnone : stack.filter (fun token => !isInside token) = [] := by
    rw [List.filter_eq_nil_iff]
    intro t ht
    simp [hinside t ht]
  rw [h.filter_eq] at hnone
  simpa using hnone

/-- What a record counts and notes does not matter. -/
theorem change {record' : OpenParen} (h : Aligned stack (record :: outer))
    (htoken : record'.token = record.token)
    (hfunction : record'.function = record.function) :
    Aligned stack (record' :: outer) := by
  generalize hall : record :: outer = all at h
  induction h with
  | empty => cases hall
  | operator hkind _ ih => exact .operator hkind (ih hall)
  | group hkind hrecord hplain h =>
      cases hall
      exact .group hkind (htoken.trans hrecord) (hfunction.trans hplain) h
  | call hkind hfunction' hrecord hcall h =>
      cases hall
      exact .call hkind hfunction' (htoken.trans hrecord)
        (hfunction.trans hcall) h

theorem noted (h : Aligned stack parens) : Aligned stack (noted parens) := by
  cases parens with
  | nil => exact h
  | cons record outer => exact h.change rfl rfl

theorem counted (h : Aligned stack parens) :
    Aligned stack (counted parens) := by
  cases parens with
  | nil => exact h
  | cons record outer => exact h.change rfl rfl

/-- What waits above the innermost parenthesis may go. -/
theorem drop (h : Aligned (out ++ kept) parens)
    (hinside : ∀ t ∈ out, isInside t = true) : Aligned kept parens := by
  induction out with
  | nil => exact h
  | cons top rest ih =>
      have htop := hinside top (by simp)
      rw [isInside_iff] at htop
      rw [List.cons_append] at h
      generalize hall : top :: (rest ++ kept) = all at h
      cases h with
      | empty => cases hall
      | operator hkind h =>
          cases hall
          exact ih h fun t ht => hinside t (by simp [ht])
      | group hkind _ _ _ => exact absurd ((List.cons.inj hall).1 ▸ hkind) htop
      | call hkind _ _ _ _ =>
          exact absurd ((List.cons.inj hall).1 ▸ hkind) htop

theorem top_ne_function (h : Aligned stack parens) :
    ∀ top ∈ stack.head?, top.kind ≠ .function := by
  cases h with
  | empty => simp
  | operator hkind _ => simp [hkind]
  | group hkind _ _ _ => simp [hkind]
  | call hkind _ _ _ _ => simp [hkind]

/-- No call is complete where no function waits. -/
theorem splitCalled_eq (h : Aligned stack parens) :
    splitCalled stack = ([], stack) := by
  have htop := h.top_ne_function
  cases stack with
  | nil => rfl
  | cons top below =>
      have hkind := htop top rfl
      simp [splitCalled, hkind]

/-- The parenthesis that is closed is that of the innermost record, and
what goes out with it is the function of that record. -/
theorem closed {top : Token} {below : List Token}
    (htop : top.kind = .leftParen)
    (h : Aligned (top :: below) (record :: outer)) :
    record.token = top ∧ (splitCalled below).1 = record.function.toList
      ∧ Aligned (splitCalled below).2 outer := by
  cases h with
  | operator hkind _ =>
      rw [hkind] at htop
      cases htop
  | group _ hrecord hplain h =>
      rw [h.splitCalled_eq, hplain]
      exact ⟨hrecord, rfl, h⟩
  | call _ hfunction hrecord hcall h =>
      simp only [splitCalled, hfunction, if_true, hcall, Option.toList]
      exact ⟨hrecord, trivial, h⟩

end Aligned

-- ================================================================== the runs

theorem filter_of_idle {previous : Option Token} (h : Idle previous) :
    previous.filter (·.kind == .function) = none := by
  rw [Option.filter_eq_none_iff]
  intro last hlast
  simpa using h last hlast

/-- Where no function waits the stacks are in step as they are. -/
theorem inStep_iff_of_idle {c : Converter} (h : Idle c.previous) :
    InStep c ↔ Aligned c.stack c.parens := by
  rw [InStep, filter_of_idle h]
  simp

theorem inStep_start : InStep {} := ⟨[], rfl, .empty⟩

/-- Every move keeps the stacks in step. -/
theorem InStep.move {c c' : Converter} {token : Token} {more : List Token}
    (h : InStep c) (hmove : Moves g c token more c') : InStep c' := by
  cases hmove with
  | operand hidle hkind =>
      have hnext : Idle (some token) := by
        intro last hlast
        obtain rfl : token = last := by simpa using hlast
        rcases hkind with hkind | hkind <;> simp [hkind]
      rw [inStep_iff_of_idle hidle] at h
      exact (inStep_iff_of_idle hnext).mpr h.noted
  | function hidle hkind _ =>
      rw [inStep_iff_of_idle hidle] at h
      exact ⟨_, by simp [Option.filter, hkind], h.noted⟩
  | minus hminus hplace _ =>
      have hkind := Token.kind_of_meant? hminus
      rw [inStep_iff_of_idle (idle_of_unary hplace)] at h
      exact (inStep_iff_of_idle (by simp [Idle, hkind])).mpr
        (.operator rfl h.noted)
  | operator hidle hop _ _ hsplit =>
      have hkind := Token.kind_of_meant? hop
      rw [inStep_iff_of_idle hidle] at h
      dsimp only at h
      -- what goes out lies above the first bracket, where no record is
      -- touched
      rw [← splitYielding_append hsplit] at h
      have hkept := h.drop (isInside_of_splitYielding hsplit)
      refine (inStep_iff_of_idle (by simp [Idle, hkind])).mpr
        (.operator ?_ hkept.noted)
      rw [Token.kind_carrying, hkind]
  | @comma stack _ _ _ hidle hkind =>
      rw [inStep_iff_of_idle hidle] at h
      dsimp only at h
      rw [← List.takeWhile_append_dropWhile (p := isInside) (l := stack)] at h
      have hkept := h.drop (isInside_takeWhile stack)
      exact (inStep_iff_of_idle (by simp [Idle, hkind])).mpr hkept.counted
  | @opening stack parens previous _ hkind =>
      refine (inStep_iff_of_idle (by simp [Idle, hkind])).mpr ?_
      -- only here may the last token be a function that waits on the stack
      -- without a record; the bracket gives it one
      obtain ⟨below, hstack, h⟩ := h
      dsimp only at hstack h ⊢
      cases hfunction : previous.filter (·.kind == .function) with
      | none =>
          rw [hfunction] at hstack
          obtain rfl : stack = below := hstack
          exact .group hkind rfl rfl h.noted
      | some function =>
          rw [hfunction] at hstack
          obtain rfl : stack = function :: below := hstack
          rw [Option.filter_eq_some_iff] at hfunction
          exact .call hkind (by simpa using hfunction.2) rfl rfl h.noted
  | closing hidle hkind hinner htop _ =>
      rw [inStep_iff_of_idle hidle] at h
      exact (inStep_iff_of_idle (by simp [Idle, hkind])).mpr
        ((h.drop hinner).closed htop).2.2

/-- So does every run. -/
theorem InStep.feed {c c' : Converter} {tokens more : List Token}
    (h : InStep c) (hfeed : feed g c tokens = .ok (more, c')) : InStep c' :=
  feed_keeps (P := fun _ _ c => InStep c) (fun h hmove => h.move hmove) h hfeed

/-- A run remembers the last token that it has read. -/
theorem previous_of_feed {c : Converter} {tokens more : List Token}
    (hfeed : Converter.feed g {} tokens = .ok (more, c)) :
    c.previous = tokens.getLast? := by
  refine feed_keeps (P := fun read _ c => c.previous = read.getLast?) ?_
    rfl hfeed
  intro read out c token more c' _ hmove
  rw [previous_of_moves hmove, List.getLast?_append, List.getLast?_singleton,
    Option.some_or]

end Reckoner.Converter

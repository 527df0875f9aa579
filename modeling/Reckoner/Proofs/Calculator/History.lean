/-
The history of a calculator's variables, and what it says of them.

An event is a bind, a clear, or a question to the resolver with its
answer. A history lists the events, the latest first. What a name stands
for is told by the events since the last clear alone: the value it was
bound to last or, if it was not bound, the answer that was accepted for
it (`valueOf`).

That there is but one such answer is not a matter of the history; it
follows when nobody is asked for a name that stands for something
(`AskedUnbound`), and then at every moment (`length_answersFor_le_one`).
-/
import Reckoner.Evaluation

namespace Reckoner

-- ================================================================ the events

/-- What happens to the variables of a calculator. -/
inductive Event where
  | bound (name : String) (x : Float)
  | cleared
  | asked (name : String) (answer : Except Failure Value)

namespace Event

/-- The number that an answer is accepted as, if it is. -/
def accepted? : Except Failure Value → Option Float
  | .ok value =>
      match Evaluation.finiteValue value with
      | .ok found => found
      | .error _ => none
  | .error _ => none

def isClear : Event → Bool
  | .cleared => true
  | _ => false

/-- The value that an event binds a name to. -/
def boundTo? (name : String) : Event → Option Float
  | .bound other x => if other = name then some x else none
  | _ => none

/-- The value that an event brings in as an answer for a name. -/
def answerFor? (name : String) : Event → Option Float
  | .asked other answer => if other = name then accepted? answer else none
  | _ => none

end Event

open Event

-- =============================================================== the history

/-- Events, the latest first. -/
abbrev History := List Event

namespace History

/-- The events since the last clear. -/
def sinceClear (history : History) : History :=
  history.takeWhile fun event => !event.isClear

/-- The values that a name was bound to since the last clear. -/
def bindsOf (history : History) (name : String) : List Float :=
  history.sinceClear.filterMap (boundTo? name)

/-- The answers that were accepted for a name since the last clear. -/
def answersFor (history : History) (name : String) : List Float :=
  history.sinceClear.filterMap (answerFor? name)

/-- What a name stands for: the value it was bound to last or else the
answer accepted for it. -/
def valueOf (history : History) (name : String) : Option Float :=
  (history.bindsOf name).head?.or (history.answersFor name).head?

/-- Nobody is asked for a name that stands for something. -/
def AskedUnbound (history : History) : Prop :=
  ∀ later name answer earlier,
    history = later ++ .asked name answer :: earlier →
    valueOf earlier name = none

-- ============================================================ one event more

variable {history : History} {name : String}

private theorem sinceClear_cons {event : Event} (h : event.isClear = false) :
    sinceClear (event :: history) = event :: sinceClear history := by
  simp [sinceClear, h]

theorem valueOf_cleared : valueOf (.cleared :: history) name = none := rfl

/-- A bind changes what its name stands for, and no other. -/
theorem valueOf_bound (other : String) (x : Float) :
    valueOf (.bound other x :: history) name
      = if name = other then some x else valueOf history name := by
  have hsince : sinceClear (.bound other x :: history)
      = .bound other x :: sinceClear history := sinceClear_cons rfl
  simp only [valueOf, bindsOf, answersFor, hsince, List.filterMap_cons,
    boundTo?, answerFor?]
  by_cases h : name = other
  · subst h
    simp
  · simp [h, Ne.symm h]

/-- An accepted answer for a name that stood for nothing is what it then
stands for; and no other name is concerned. -/
theorem valueOf_asked {other : String} (answer : Except Failure Value)
    (h : valueOf history other = none) :
    valueOf (.asked other answer :: history) name
      = if name = other then accepted? answer else valueOf history name := by
  have hsince : sinceClear (.asked other answer :: history)
      = .asked other answer :: sinceClear history := sinceClear_cons rfl
  simp only [valueOf, bindsOf, answersFor, hsince, List.filterMap_cons,
    boundTo?, answerFor?] at h ⊢
  by_cases hname : name = other
  · subst hname
    obtain ⟨hbinds, hanswers⟩ := Option.or_eq_none_iff.mp h
    cases accepted? answer <;> simp [hbinds, hanswers]
  · simp [hname, Ne.symm hname]

-- ==================================================================== asking

theorem askedUnbound_nil : AskedUnbound [] := by
  intro later name answer earlier h
  simp at h

/-- Only a question can be one too many. -/
theorem AskedUnbound.cons {event : Event} (h : AskedUnbound history)
    (hevent : ∀ name answer, event = .asked name answer →
      valueOf history name = none) :
    AskedUnbound (event :: history) := by
  intro later name answer earlier heq
  cases later with
  | nil =>
      obtain ⟨rfl, rfl⟩ := List.cons.inj heq
      exact hevent name answer rfl
  | cons first later =>
      obtain ⟨-, hrest⟩ := List.cons.inj heq
      exact h later name answer earlier hrest

theorem AskedUnbound.cons_asked {answer : Except Failure Value}
    (h : AskedUnbound history) (hnone : valueOf history name = none) :
    AskedUnbound (.asked name answer :: history) := by
  refine h.cons fun other answer' heq => ?_
  obtain ⟨rfl, -⟩ := Event.asked.inj heq
  exact hnone

theorem AskedUnbound.tail {event : Event}
    (h : AskedUnbound (event :: history)) :
    AskedUnbound history := fun later name answer earlier heq =>
  h (event :: later) name answer earlier (by rw [heq, List.cons_append])

/-- Since the last clear no second answer is accepted for a name. -/
theorem AskedUnbound.length_answersFor_le_one (h : AskedUnbound history)
    (name : String) : (answersFor history name).length ≤ 1 := by
  induction history with
  | nil => exact Nat.zero_le _
  | cons event rest ih =>
      have hrest := ih h.tail
      rw [answersFor] at hrest
      cases event with
      | cleared => exact Nat.zero_le _
      | bound other x =>
          rw [answersFor, sinceClear_cons rfl, List.filterMap_cons]
          exact hrest
      | asked other answer =>
          rw [answersFor, sinceClear_cons rfl, List.filterMap_cons]
          by_cases hname : other = name
          · -- the name stood for nothing, so no answer had been accepted
            subst hname
            have hnone := h [] other answer rest rfl
            have hanswers : answersFor rest other = [] := by
              simpa using (Option.or_eq_none_iff.mp hnone).2
            rw [answersFor] at hanswers
            rw [hanswers]
            cases answerFor? other (.asked other answer) <;> simp
          · simpa [answerFor?, hname] using hrest

end History

end Reckoner

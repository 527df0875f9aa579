/-
The course of a dialogue.

A turn of the dialogue is one of four exchanges (`Exchange`): a blank line
is passed over, an expression is answered, a line takes leave, or the
input is over. Which of them it is, and what it makes of the calculator
and of the lines, is said by `Exchanged`, without the loop; the dialogue
is a chain of exchanges of which only the last is a leave or the end of
the input (`Course`).

The step lemma is that every turn is the exchange that is due
(`Exchanged.turn_eq`), and that there always is one (`exists_exchanged`).
From it, by induction on the chain, the whole dialogue: it ends, it ends
well, and what it writes and reads is what its exchanges write and read
(`Course.within_eq`, `Course.lines_eq`). All exchanges but the end of the
input take a line, so there is at most one more of them than lines
(`Course.length_le`), which is also why there is a last one
(`exists_course`).
-/
import Reckoner.Proofs.Dialogue.Questions

namespace Reckoner.Dialogue

-- =========================================================== the exchanges

/-- What passes in one turn. -/
inductive Exchange where
  | blank (line : String)
  | answered (line : String) (questions : List Question)
      (outcome : Except Diagnostic Float)
  | left (line : String)
  | ended

namespace Exchange

/-- The lines that are read. -/
def lines : Exchange → List String
  | .blank line | .left line => [line]
  | .answered line questions _ => line :: Question.lines questions
  | .ended => []

/-- What is written after the prompt. -/
def reply : Exchange → String
  | .blank _ | .left _ => ""
  | .answered _ questions outcome =>
      Question.prompts questions ++ answer outcome
  | .ended => "\n"

def isLast : Exchange → Bool
  | .blank _ | .answered .. => false
  | .left _ | .ended => true

/-- All that is written in a number of turns. -/
def written (exchanges : List Exchange) : String :=
  String.join (exchanges.map fun exchange => promptText ++ exchange.reply)

private theorem written_cons (exchange : Exchange)
    (exchanges : List Exchange) :
    written (exchange :: exchanges)
      = promptText ++ exchange.reply ++ written exchanges := by
  rw [written, List.map_cons, String.join_cons, written]

end Exchange

/-- A line takes leave if it is one of two words, in any case and
between any blanks. -/
def TakesLeave (line : String) : Prop :=
  (Text.strip line).map Char.toLower ∈ ["exit", "quit"]

instance (line : String) : Decidable (TakesLeave line) :=
  inferInstanceAs (Decidable (_ ∈ ["exit", "quit"]))

/-- The exchange that is due, by the lines that are there, and what it
leaves of the calculator and of the lines. -/
inductive Exchanged :
    Calculator → List String → Exchange → Calculator → List String → Prop where
  | blank (c : Calculator) {line : String} (rest : List String)
      (hblank : Text.strip line = "") :
      Exchanged c (line :: rest) (.blank line) c rest
  | answered {c c' : Calculator} {line : String} {lines rest : List String}
      {questions : List Question} {outcome : Except Diagnostic Float}
      (hblank : Text.strip line ≠ "") (hleave : ¬ TakesLeave line)
      (hanswered : Answered c (Text.strip line) lines questions outcome c'
        rest) :
      Exchanged c (line :: lines) (.answered line questions outcome) c' rest
  | left (c : Calculator) {line : String} (rest : List String)
      (hleave : TakesLeave line) :
      Exchanged c (line :: rest) (.left line) c rest
  | ended (c : Calculator) : Exchanged c [] .ended c []

-- ================================================================ one turn

variable {c c' : Calculator} {lines rest : List String}

private theorem ofLine_of_blank {line : String} (h : Text.strip line = "") :
    Request.ofLine line = .nothing := by
  simp only [Request.ofLine, h]
  rfl

/-- Nothing but blanks is no leave. -/
theorem not_takesLeave {line : String} (h : Text.strip line = "") :
    ¬ TakesLeave line := by
  rw [TakesLeave, h]
  decide +kernel

private theorem ofLine_of_leave {line : String} (h : TakesLeave line) :
    Request.ofLine line = .leave := by
  have hempty : ¬ (Text.strip line).isEmpty = true :=
    fun hempty => not_takesLeave (String.isEmpty_iff.mp hempty) h
  simp only [TakesLeave, List.mem_cons, List.not_mem_nil, or_false] at h
  simp only [Request.ofLine]
  rw [if_neg hempty, if_pos h]

/-- Any other line is evaluated without the blanks around it. -/
theorem ofLine_of_neither {line : String} (hblank : Text.strip line ≠ "")
    (hleave : ¬ TakesLeave line) :
    Request.ofLine line = .evaluate (Text.strip line) := by
  have hempty : ¬ (Text.strip line).isEmpty = true :=
    fun hempty => hblank (String.isEmpty_iff.mp hempty)
  simp only [TakesLeave, List.mem_cons, List.not_mem_nil, or_false] at hleave
  simp only [Request.ofLine]
  rw [if_neg hempty, if_neg hleave]

private theorem turn_nil (c : Calculator) (transcript : String) :
    turn Console.terminal c ⟨[], transcript⟩
      = ((some (.exit 0), c), ⟨[], transcript ++ promptText ++ "\n"⟩) := by
  simp only [turn, bind, StateT.bind, Console.terminal, Console.write,
    Console.readLine]
  rfl

/-- A turn is the exchange that is due. It ends the dialogue with the last
one only, and with code 0. -/
theorem Exchanged.turn_eq {exchange : Exchange}
    (h : Exchanged c lines exchange c' rest) (transcript : String) :
    turn Console.terminal c ⟨lines, transcript⟩
      = ((if exchange.isLast then some (.exit 0) else none, c'),
          ⟨rest, transcript ++ (promptText ++ exchange.reply)⟩) := by
  rw [← String.append_assoc]
  cases h with
  | blank rest hblank =>
      simp only [turn_line, respond, ofLine_of_blank hblank]
      rw [Exchange.reply, String.append_empty]
      rfl
  | answered hblank hleave hanswered =>
      simp only [turn_line, respond, ofLine_of_neither hblank hleave, bind,
        StateT.bind, hanswered.evaluated (transcript ++ promptText)]
      rw [Exchange.reply, ← String.append_assoc]
      rfl
  | left rest hleave =>
      simp only [turn_line, respond, ofLine_of_leave hleave]
      rw [Exchange.reply, String.append_empty]
      rfl
  | ended => exact turn_nil c transcript

/-- Whatever the lines, some exchange is due. -/
theorem exists_exchanged (htotal : c.functions.Total) (lines : List String) :
    ∃ exchange c' rest, Exchanged c lines exchange c' rest := by
  cases lines with
  | nil => exact ⟨_, _, _, .ended c⟩
  | cons line rest =>
      by_cases hblank : Text.strip line = ""
      · exact ⟨_, _, _, .blank c rest hblank⟩
      · by_cases hleave : TakesLeave line
        · exact ⟨_, _, _, .left c rest hleave⟩
        · obtain ⟨questions, outcome, c', rest', hanswered⟩ :=
            exists_answered htotal (Text.strip line) rest
          exact ⟨_, _, _, .answered hblank hleave hanswered⟩

namespace Exchanged

variable {exchange : Exchange}

theorem lines_eq (h : Exchanged c lines exchange c' rest) :
    lines = exchange.lines ++ rest := by
  cases h with
  | answered _ _ hanswered => exact congrArg (_ :: ·) hanswered.serves.lines_eq
  | _ => rfl

/-- An exchange that is not the last takes a line. -/
theorem length_lt (h : Exchanged c lines exchange c' rest)
    (hlast : exchange.isLast = false) : rest.length < lines.length := by
  rw [h.lines_eq, List.length_append]
  cases exchange with
  | blank line => simp [Exchange.lines]
  | answered line questions outcome => simp [Exchange.lines]
  | left line => cases hlast
  | ended => cases hlast

theorem grown (h : Exchanged c lines exchange c' rest) : c.Grown c' := by
  cases h with
  | answered _ _ hanswered => exact hanswered.grown
  | _ => exact .refl c

private theorem functions_eq (h : Exchanged c lines exchange c' rest) :
    c'.functions = c.functions := by
  rw [h.grown.1]

end Exchanged

-- =============================================================== the course

/-- The exchanges of a whole dialogue, from a calculator and lines to those
that are left when it ends. -/
inductive Course :
    Calculator → List String → List Exchange → Calculator → List String →
      Prop where
  | last {c c' : Calculator} {lines rest : List String} {exchange : Exchange}
      (h : Exchanged c lines exchange c' rest)
        (hlast : exchange.isLast = true) :
      Course c lines [exchange] c' rest
  | next {c c' c'' : Calculator} {lines middle rest : List String}
      {exchange : Exchange}
      {exchanges : List Exchange} (h : Exchanged c lines exchange c' middle)
      (hlast : exchange.isLast = false)
        (more : Course c' middle exchanges c'' rest) :
      Course c lines (exchange :: exchanges) c'' rest

/-- The dialogue, if a number of turns is enough for it. -/
def within : Nat → Calculator → Console →
    Option (Ending × Calculator × Console)
  | 0, _, _ => none
  | n + 1, c, console =>
      match turn Console.terminal c console with
      | ((some ending, c'), console') => some (ending, c', console')
      | ((none, c'), console') => within n c' console'

theorem run_of_within {n : Nat} {console : Console}
    {result : Ending × Calculator × Console}
    (h : within n c console = some result) :
    run c console = result := by
  induction n generalizing c console with
  | zero => cases h
  | succ n ih =>
      rw [run]
      rw [within] at h
      generalize turn Console.terminal c console = after at h
      obtain ⟨⟨_ | ending, c'⟩, console'⟩ := after
      · exact ih h
      · exact Option.some.inj h

namespace Course

variable {exchanges : List Exchange}

/-- The dialogue takes as many turns as there are exchanges, ends with code
0, and has written what they write. -/
theorem within_eq (h : Course c lines exchanges c' rest)
    (transcript : String) :
    within exchanges.length c ⟨lines, transcript⟩
      = some (.exit 0, c',
        ⟨rest, transcript ++ Exchange.written exchanges⟩) := by
  induction h generalizing transcript with
  | @last c c' lines rest exchange h hlast =>
      rw [List.length_singleton, within, h.turn_eq, if_pos hlast,
        Exchange.written_cons, Exchange.written, List.map_nil, String.join_nil,
        String.append_empty]
  | @next c c' c'' lines middle rest exchange exchanges h hlast _ ih =>
      rw [List.length_cons, within, h.turn_eq, hlast]
      simp only [Bool.false_eq_true, if_false]
      simp only [ih, Exchange.written_cons, String.append_assoc]

/-- Every line up to the end is read in one exchange and in no other. -/
theorem lines_eq (h : Course c lines exchanges c' rest) :
    lines = exchanges.flatMap Exchange.lines ++ rest := by
  induction h with
  | last h _ => rw [h.lines_eq, List.flatMap_singleton]
  | next h _ _ ih => rw [h.lines_eq, ih, List.flatMap_cons, List.append_assoc]

/-- A dialogue begins with the exchange that is due. -/
theorem exists_first (h : Course c lines exchanges c' rest) :
    ∃ first more c'' middle, exchanges = first :: more
      ∧ Exchanged c lines first c'' middle := by
  cases h with
  | last h _ => exact ⟨_, _, _, _, rfl, h⟩
  | next h _ _ => exact ⟨_, _, _, _, rfl, h⟩

/-- Nothing passes after a leave, so the lines behind it stay unread. -/
theorem eq_nil_of_left (h : Course c lines exchanges c' rest)
    {before after : List Exchange}
    {line : String} (hleft : exchanges = before ++ .left line :: after) :
    after = [] := by
  induction h generalizing before with
  | last => cases before <;> simp_all
  | next h hlast _ ih =>
      cases before with
      | nil =>
          obtain ⟨rfl, -⟩ := List.cons.inj hleft
          cases hlast
      | cons first before => exact ih (List.cons.inj hleft).2

theorem length_le (h : Course c lines exchanges c' rest) :
    exchanges.length ≤ lines.length + 1 := by
  induction h with
  | last => exact Nat.le_add_left 1 _
  | next h hlast _ ih =>
      have hlt := h.length_lt hlast
      rw [List.length_cons]
      omega

end Course

/-- Every dialogue has a course. The induction is on the number of lines,
which every exchange but the last lowers. -/
theorem exists_course (htotal : c.functions.Total) (lines : List String) :
    ∃ exchanges c' rest, Course c lines exchanges c' rest := by
  induction hn : lines.length using Nat.strongRecOn generalizing c lines with
  | ind n ih =>
      obtain ⟨exchange, c', middle, h⟩ := exists_exchanged htotal lines
      cases hlast : exchange.isLast with
      | true => exact ⟨_, _, _, .last h hlast⟩
      | false =>
          have hlt : middle.length < n := hn ▸ h.length_lt hlast
          rw [← h.functions_eq] at htotal
          obtain ⟨exchanges, c'', rest, hcourse⟩ := ih _ hlt htotal middle rfl
          exact ⟨_, _, _, .next h hlast hcourse⟩

end Reckoner.Dialogue

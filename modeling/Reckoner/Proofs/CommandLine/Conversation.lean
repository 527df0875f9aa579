/-
The dialogue as the command holds it.

Without an expression among its arguments the command greets and holds the
dialogue on its input. With settings and variables accepted it always ends
with code 0, whatever the input, and what it reads and writes is the
course of the dialogue (`run_conversation`).

The first line of the input can as well be handed over as an argument: the
option for the expression in front of the other arguments adds it and
changes nothing else (`parse_expression`), since arguments without an
expression never looked at one (`Indifferent`). What the dialogue writes
for the line is then the output of the command, given the rest of the
input. A line that is not plain to the reader of the arguments cannot be
handed over like that (`parse_expression_refused`); most that begin with a
dash are of this kind (`run_expression_dash`).
-/
import Reckoner.Proofs.CommandLine.Settling
import Reckoner.Proofs.Dialogue.Course

namespace Reckoner

-- ================================================== the option in front

namespace Arguments

variable {a a' : Arguments}

/-- The arguments with an expression in place of what they say about
it. -/
def withExpression (a : Arguments) (expression : String) : Arguments :=
  { a with expression := some expression }

/-- What adds to the arguments does so whatever they say about the
expression, unless it says something about it itself. -/
def Indifferent (act : Arguments → Except Refusal Arguments) : Prop :=
  ∀ a a', act a = .ok a' → a'.expression = none →
    a.expression = none ∧ ∀ expression,
      act (a.withExpression expression) = .ok (a'.withExpression expression)

private theorem indifferent_ok : Indifferent .ok := by
  intro a a' h hnone
  cases h
  exact ⟨hnone, fun _ => rfl⟩

/-- What is done after something indifferent may be indifferent too. -/
theorem Indifferent.bind {act next : Arguments → Except Refusal Arguments}
    (h : Indifferent act) (hnext : Indifferent next) :
    Indifferent fun a => act a >>= next := by
  intro a a' hboth hnone
  obtain ⟨middle, hact, hafter⟩ := bind_eq_ok_iff.mp hboth
  obtain ⟨hmiddle, hadds'⟩ := hnext middle a' hafter hnone
  obtain ⟨ha, hadds⟩ := h a middle hact hmiddle
  exact ⟨ha, fun expression =>
    bind_eq_ok_iff.mpr ⟨_, hadds expression, hadds' expression⟩⟩

/-- Only the option for the expression sets it, and an empty one counts. -/
theorem indifferent_set (flag : Flag) (value : Option String) :
    Indifferent (·.set flag value) := by
  intro a a' h hnone
  match flag, value with
  | .help, _ => cases h
  | .expression, _ =>
      cases h
      cases hnone
  | .config, _ | .variable, none | .logLevel, none =>
      cases h
      exact ⟨hnone, fun _ => rfl⟩
  | .variable, some value =>
      simp only [set] at h ⊢
      cases hread : Assignment.read value with
      | error fault =>
          rw [hread] at h
          cases h
      | ok assignment =>
          rw [hread] at h
          cases h
          exact ⟨hnone, fun _ => rfl⟩
  | .logLevel, some value =>
      simp only [set] at h ⊢
      cases hname : LogLevel.ofName? value with
      | none =>
          rw [hname] at h
          cases h
      | some level =>
          rw [hname] at h
          cases h
          exact ⟨hnone, fun _ => rfl⟩

private theorem indifferent_apply (choice : Choice) :
    Indifferent (·.apply choice) := by
  have hbefore : ∀ flags : List Flag,
      Indifferent fun a => flags.foldlM (fun a flag => a.set flag none) a := by
    intro flags
    induction flags with
    | nil => exact indifferent_ok
    | cons flag rest ih =>
        exact Indifferent.bind (indifferent_set flag none) ih
  exact Indifferent.bind (hbefore choice.before)
    (indifferent_set choice.last choice.value)

/-- By induction on the words, options in front of their values. -/
theorem take_withExpression {words : List Word} {left : List String}
    (h : take a words = .ok (a', left)) (hnone : a'.expression = none) :
    a.expression = none ∧ ∀ expression,
      take (a.withExpression expression) words
        = .ok (a'.withExpression expression, left) := by
  induction a, words using take.induct generalizing a' left with
  | case1 a =>
      rw [take] at h
      cases h
      refine ⟨hnone, fun expression => ?_⟩
      rw [take]
  | case2 a flag isShort attached rest ih =>
      rw [take] at h
      obtain ⟨choice, hchoice, h⟩ := bind_eq_ok_iff.mp h
      obtain ⟨middle, happly, h⟩ := bind_eq_ok_iff.mp h
      obtain ⟨hmiddle, hrest⟩ := ih choice middle h hnone
      obtain ⟨ha, hadds⟩ := indifferent_apply choice a middle happly hmiddle
      refine ⟨ha, fun expression => ?_⟩
      rw [take]
      exact bind_eq_ok_iff.mpr ⟨choice, hchoice,
        bind_eq_ok_iff.mpr ⟨_, hadds expression, hrest expression⟩⟩
  | case3 a word rest hword ih =>
      rw [take] at h
      · obtain ⟨⟨middle, more⟩, hrest, h⟩ := bind_eq_ok_iff.mp h
        cases h
        obtain ⟨ha, hadds⟩ := ih hrest hnone
        refine ⟨ha, fun expression => ?_⟩
        rw [take]
        · exact bind_eq_ok_iff.mpr ⟨_, hadds expression, rfl⟩
        · exact hword
      · exact hword

/-- A plain argument after the option for the expression is the
expression; the other arguments stay what they are. -/
theorem parse_expression {argv : List String} {arguments : Arguments}
    {s : String} (hargv : parse argv = .ok arguments)
    (hnone : arguments.expression = none)
    (hplain : Word.read s = .ok (.plain s)) :
    parse ("-e" :: s :: argv) = .ok (arguments.withExpression s) := by
  obtain ⟨words, hwords, h⟩ := bind_eq_ok_iff.mp hargv
  obtain ⟨⟨arguments', left⟩, htake, h⟩ := bind_eq_ok_iff.mp h
  simp only at h
  split at h
  case isFalse => cases h
  next hleft =>
  cases h
  have hmark : s ≠ "--" := by
    rintro rfl
    cases hplain
  have hread : Word.readAll ("-e" :: s :: argv)
      = .ok (.option .expression true none :: .plain s :: words) := by
    rw [Word.readAll, if_neg (by decide), Word.readAll, if_neg hmark, hplain,
      hwords]
    rfl
  have htaken : take {} (.option .expression true none :: .plain s :: words)
      = .ok (arguments.withExpression s, left) := by
    rw [take]
    exact (take_withExpression htake hnone).2 s
  refine bind_eq_ok_iff.mpr ⟨_, hread, bind_eq_ok_iff.mpr ⟨_, htaken, ?_⟩⟩
  simp only [hleft, if_true]

/-- What is plain stays as it was written. -/
theorem eq_of_read_plain {s text : String}
    (h : Word.read s = .ok (.plain text)) :
    text = s := by
  have hdashed : Word.dashed s = .plain text → text = s := by
    unfold Word.dashed
    split
    · intro h
      exact (Word.plain.inj h).symm
    · intro h
      cases h
  unfold Word.read at h
  dsimp only at h
  split at h
  · cases h
    rfl
  · cases h
    rfl
  · split at h
    · cases h
      rfl
    · -- a dash in front of more: an option in full, one cut short, or none
      split at h
      · cases h
      · cases h
      · split at h
        · split at h
          · cases h
          · exact hdashed (Except.ok.inj h)
        · split at h
          · cases h
          · exact hdashed (Except.ok.inj h)
          · cases h

/-- Any other argument there is refused, whatever the other arguments. -/
theorem parse_expression_refused {s : String}
    (hplain : Word.read s ≠ .ok (.plain s))
    (argv : List String) :
    ∃ refusal, parse ("-e" :: s :: argv) = .error refusal := by
  -- the option finds nothing plain behind it to take for its value
  have htake : ∀ (word : Word) (rest : List Word),
      (∀ text, word ≠ .plain text) →
      ∃ refusal, take {} (.option .expression true none :: word :: rest)
        = .error refusal := by
    intro word rest hword
    rw [take]
    cases word with
    | plain text => exact absurd rfl (hword text)
    | _ => exact ⟨_, rfl⟩
  have hall : ∀ words, Word.readAll ("-e" :: s :: argv) = .ok words →
      ∃ refusal, take {} words = .error refusal := by
    intro words hwords
    rw [Word.readAll, if_neg (by decide)] at hwords
    obtain ⟨first, hfirst, hwords⟩ := bind_eq_ok_iff.mp hwords
    obtain ⟨more, hmore, hwords⟩ := bind_eq_ok_iff.mp hwords
    cases hfirst
    cases hwords
    rw [Word.readAll] at hmore
    split at hmore
    · cases hmore
      exact htake .endOfOptions _ fun text h => by cases h
    · obtain ⟨word, hword, hmore⟩ := bind_eq_ok_iff.mp hmore
      obtain ⟨rest, -, hmore⟩ := bind_eq_ok_iff.mp hmore
      cases hmore
      refine htake word rest fun text htext => hplain ?_
      rw [htext] at hword
      rwa [eq_of_read_plain hword] at hword
  unfold parse
  cases hread : Word.readAll ("-e" :: s :: argv) with
  | error refusal => exact ⟨refusal, rfl⟩
  | ok words =>
      obtain ⟨refusal, hrefusal⟩ := hall words hread
      refine ⟨refusal, ?_⟩
      show (take {} words >>= _) = _
      rw [hrefusal]
      rfl

end Arguments

namespace CommandLine

open Dialogue

variable {library : Library} {argv : List String} {arguments : Arguments}
  {environment : Environment} {files : Settings.Files} {settings : Settings}
  {initial : List (String × Float)}

-- ========================================================= the conversation

private theorem calculate_console_none (c : Calculator)
    (console : Console) :
    calculate (.console files) c none console
      = let after := Dialogue.run c (console.write banner)
        (after.1, after.2.2) :=
  rfl

private theorem calculate_console_some (c : Calculator) (expression : String)
    (console : Console) :
    calculate (.console files) c (some expression) console
      = let after := evaluateLine Console.terminal c expression console
        (endingOf after.1.1, after.2) :=
  rfl

/-- Without an expression the session greets and holds the dialogue. -/
theorem session_dialogue (hnone : arguments.expression = none)
    (hbindings : arguments.bindings = .ok initial) (input : String) :
    session arguments settings input
      = let after := Dialogue.run (.new settings Registry.builtin initial)
          ((Console.ofText input).write banner)
        { ending := after.1, output := after.2.2.transcript } := by
  simp only [session, calculator, hbindings, Except.map, hnone,
    calculate_console_none]

/-- The session on an expression writes what the expression is answered,
and nothing else. -/
theorem output_session_expression {s rest : String}
    {questions : List Question} {outcome : Except Diagnostic Float}
    {c' : Calculator} {unread : List String}
    (hbindings : arguments.bindings = .ok initial)
    (hanswered : Answered (.new settings Registry.builtin initial) s
      (Console.ofText rest).pending questions outcome c' unread) :
    (session (arguments.withExpression s) settings rest).output
      = Question.prompts questions ++ answer outcome := by
  have hbindings' : (arguments.withExpression s).bindings = .ok initial :=
    hbindings
  have hexpression : (arguments.withExpression s).expression = some s := rfl
  have hlive := hanswered.evaluated ""
  have hconsole : (⟨(Console.ofText rest).pending, ""⟩ : Console)
      = Console.ofText rest := rfl
  rw [hconsole, String.empty_append] at hlive
  simp only [session, calculator, hbindings', Except.map, hexpression,
    calculate_console_some, hlive]

/-- Every answer ends a line. -/
theorem answer_ne_empty (outcome : Except Diagnostic Float) :
    answer outcome ≠ "" := by
  have hend : ∀ text : String, text ++ "\n" ≠ "" := by
    intro text h
    exact absurd (String.append_eq_empty_iff.mp h).2 (by decide)
  cases outcome with
  | ok x => exact hend _
  | error d => exact hend _

/-- With an expression in front the command writes what the expression is
answered, exactly if the expression is plain to the reader of the
arguments: any other is refused, and nothing is written. -/
theorem output_expression_iff (hargv : Arguments.parse argv = .ok arguments)
    (hnone : arguments.expression = none)
    (hload : Settings.load library files arguments.config environment
      = .ok settings)
    (hbindings : arguments.bindings = .ok initial) {s rest : String}
    {questions : List Question} {outcome : Except Diagnostic Float}
    {c' : Calculator} {unread : List String}
    (hanswered : Answered (.new settings Registry.builtin initial) s
      (Console.ofText rest).pending questions outcome c' unread) :
    (run library ("-e" :: s :: argv) environment files rest).output
        = Question.prompts questions ++ answer outcome
      ↔ Word.read s = .ok (.plain s) := by
  constructor
  · intro houtput
    refine Classical.byContradiction fun hplain => ?_
    obtain ⟨refusal, hrefused⟩ :=
      Arguments.parse_expression_refused hplain argv
    rw [run_refused hrefused] at houtput
    exact answer_ne_empty outcome
      (String.append_eq_empty_iff.mp houtput.symm).2
  · intro hplain
    have hload' :
        Settings.load library files (arguments.withExpression s).config
          environment = .ok settings := hload
    rw [run_of_load (Arguments.parse_expression hargv hnone hplain) hload']
    exact output_session_expression hbindings hanswered

/-- Without an expression the command holds its dialogue to the end,
whatever the input, and ends with code 0. There is a course of exchanges
such that the output is what they write, they are as many as the turns of
the dialogue and at most one more than the lines, and every line up to the
leave or the end of the input is read in one of them, none after it.

What is written for a first line that is an expression with no blanks
around it is the output of the command with this line as the expression
and the rest of the input, if and only if the line is plain to the reader
of the arguments. -/
theorem run_conversation (hargv : Arguments.parse argv = .ok arguments)
    (hnone : arguments.expression = none)
    (hload : Settings.load library files arguments.config environment
      = .ok settings)
    (hbindings : arguments.bindings = .ok initial) (input : String) :
    let c := Calculator.new settings Registry.builtin initial
    let lines := (Console.ofText input).pending
    ∃ exchanges c' unread, Course c lines exchanges c' unread
      ∧ run library argv environment files input
        = { ending := .exit 0, output := banner ++ Exchange.written exchanges }
      ∧ within exchanges.length c ((Console.ofText input).write banner)
        = some (.exit 0, c', ⟨unread, banner ++ Exchange.written exchanges⟩)
      ∧ exchanges.length ≤ lines.length + 1
      ∧ lines = exchanges.flatMap Exchange.lines ++ unread
      ∧ (∀ before line after, exchanges = before ++ .left line :: after →
        after = [])
      ∧ ∀ s rest, lines = s :: (Console.ofText rest).pending →
        Text.strip s = s → s ≠ "" → ¬ TakesLeave s →
          ∃ first more, exchanges = first :: more
            ∧ ((run library ("-e" :: s :: argv) environment files rest).output
              = first.reply
              ↔ Word.read s = .ok (.plain s)) := by
  intro c lines
  have htotal : c.functions.Total := Registry.total_builtin.orBuiltin
  obtain ⟨exchanges, c', unread, hcourse⟩ := exists_course htotal lines
  have hwithin :
      within exchanges.length c ((Console.ofText input).write banner)
      = some (.exit 0, c',
        ⟨unread, banner ++ Exchange.written exchanges⟩) := by
    have hconsole : (Console.ofText input).write banner = ⟨lines, banner⟩ := by
      rw [Console.write, Console.ofText, String.empty_append]
      rfl
    rw [hconsole]
    exact hcourse.within_eq banner
  refine ⟨exchanges, c', unread, hcourse, ?_, hwithin, hcourse.length_le,
    hcourse.lines_eq, fun _ _ _ => hcourse.eq_nil_of_left, ?_⟩
  · rw [run_of_load hargv hload, session_dialogue hnone hbindings,
      run_of_within hwithin]
  · intro s rest hlines hstrip hne hstays
    obtain ⟨first, more, c'', middle, hfirst, hexchanged⟩ :=
      hcourse.exists_first
    refine ⟨first, more, hfirst, ?_⟩
    -- the first exchange answers the line: it is neither blank nor a leave
    rw [hlines] at hexchanged
    cases hexchanged with
    | blank _ hblank => exact absurd (hstrip.symm.trans hblank) hne
    | left _ hleave => exact absurd hleave hstays
    | answered _ _ hanswered =>
        rw [hstrip] at hanswered
        exact output_expression_iff hargv hnone hload hbindings hanswered

/-- A dialogue in which a variable is asked for twice, once in vain, and a
leave is not the end of the input. -/
theorem run_conversation_two_answers :
    let argv := ["--var", "x=3"]
    let arguments : Arguments := { assignments := [some ⟨"x", 3⟩] }
    let c := Calculator.new {} Registry.builtin [("x", 3)]
    let input := "2*y\n \n?\ny/x\n6\n QUIT\ny"
    let lines := (Console.ofText input).pending
    Arguments.parse argv = .ok arguments ∧ arguments.expression = none
      ∧ Settings.load .standard (fun _ => .error .notFound) none .empty
        = .ok {}
      ∧ arguments.bindings = .ok [("x", 3)]
      ∧ ∃ exchanges c' unread, Course c lines exchanges c' unread
        ∧ run .standard argv .empty (fun _ => .error .notFound) input
          = { ending := .exit 0
              output := banner ++ Exchange.written exchanges }
        ∧ within exchanges.length c ((Console.ofText input).write banner)
          = some (.exit 0, c', ⟨unread, banner ++ Exchange.written exchanges⟩)
        ∧ exchanges.length ≤ lines.length + 1
        ∧ lines = exchanges.flatMap Exchange.lines ++ unread
        ∧ (∀ before line after, exchanges = before ++ .left line :: after →
          after = [])
        ∧ ∀ s rest, lines = s :: (Console.ofText rest).pending →
          Text.strip s = s → s ≠ "" → ¬ TakesLeave s →
            ∃ first more, exchanges = first :: more
              ∧ ((run .standard ("-e" :: s :: argv) .empty
                  (fun _ => .error .notFound) rest).output = first.reply
                ↔ Word.read s = .ok (.plain s)) := by
  intro argv arguments c input lines
  have hargv : Arguments.parse argv = .ok arguments :=
    eq_ok_of_toOption (by decide +kernel)
  have hload : Settings.load .standard (fun _ => .error .notFound) none .empty
      = .ok {} :=
    eq_ok_of_toOption (by decide +kernel)
  exact ⟨hargv, rfl, hload, rfl, run_conversation hargv rfl hload rfl input⟩

-- ============================================================ a dashed line

/-- A line that begins with a dash is answered in the dialogue and refused
as an argument, so what is written for it is not the output of the command
with it as the expression. -/
theorem run_expression_dash :
    let spoken := run .standard [] .empty (fun _ => .error .notFound) "-x\n3\n"
    let given :=
      run .standard ["-e", "-x"] .empty (fun _ => .error .notFound) "3\n"
    Text.strip "-x" = "-x" ∧ ¬ TakesLeave "-x"
      ∧ spoken.output = banner
        ++ (promptText ++ "Enter value for variable x: Result: -3.0\n")
        ++ (promptText ++ "\n")
      ∧ given.ending = .exit 2 ∧ given.output = ""
      ∧ ¬ (banner ++ (promptText ++ given.output) ++ promptText).toList
        <+: spoken.output.toList := by
  decide +kernel

end CommandLine

end Reckoner

/-
How a run of the command comes by its settings.

A run either takes up its work with settings that were accepted or ends
with code 2 and nothing written but the reason (`Settled`). There is one
way past this: the settings file can be read but does not hold a document,
and the reader of documents has no words for why (`Unreported`). Such a
problem is not caught where the reason is to be written; it leaves the
command as it is. No other content of the file, no state of the file
system and no environment gets past (`settled_iff`).

This holds for every reader and every validation. With a reader that knows
only well-formed texts and others, a run is settled exactly if the file is
well-formed where it can be read. A bracket that is never closed is enough
to get past (`not_settled_open_bracket`).
-/
import Reckoner.CommandLine.Command
import Reckoner.Proofs.Evaluation.Calculation
import Reckoner.Settings.Standard

namespace Reckoner

namespace Settings

variable {library : Library} {read : Reader} {files : Files}
  {path : Option String} {environment : Environment} {problem : ReadProblem}

-- ==================================================== without a document

/-- The file that the settings are to come from can be read. -/
def FileHolds (files : Files) (path : Option String)
    (environment : Environment) (text : String) : Prop :=
  ∃ file, filePath? path environment = some file ∧ '\x00' ∉ file.toList
    ∧ files file = .ok text

/-- The file that the settings are to come from is there, but its text is
no document, for a reason that has no words. -/
structure Unreported (read : Reader) (files : Files) (path : Option String)
    (environment : Environment) (problem : ReadProblem) : Prop where
  unread : ∃ text, FileHolds files path environment text
    ∧ read text = .error problem
  wordless : problem.message? = none

/-- A file is no document if its text can be had and is none. -/
theorem fieldsOfFile_eq_noDocument_iff {file : String} :
    fieldsOfFile read files file = .error (.noDocument problem)
      ↔ '\x00' ∉ file.toList
        ∧ ∃ text, files file = .ok text ∧ read text = .error problem := by
  simp only [fieldsOfFile, List.contains_iff_mem]
  by_cases hnul : '\x00' ∈ file.toList
  · rw [if_pos hnul]
    simp [hnul]
  · rw [if_neg hnul]
    cases hfile : files file with
    | error unreadable => simp
    | ok text =>
        cases hread : read text with
        | error problem' => simp [hnul, hread]
        | ok document => cases document <;> simp [hread]

/-- Only the file can be no document: the environment is never read as
one, and what is validated is one. -/
theorem load_eq_noDocument_iff :
    load library files path environment = .error (.noDocument problem)
      ↔ ∃ text, FileHolds files path environment text
        ∧ library.read text = .error problem := by
  -- what comes later fails otherwise
  have hvalidated : ∀ entries : List (Document × Document),
      validated library.validation (overlay environment entries)
        ≠ .error (.noDocument problem) := by
    intro entries h
    obtain ⟨issues, -, hissues⟩ := mapError_eq_error_iff.mp h
    cases hissues
  unfold load FileHolds
  cases hpath : filePath? path environment with
  | none => simpa [bind, Except.bind] using hvalidated []
  | some file =>
      have hload : (fieldsOfFile library.read files file >>= fun entries =>
            validated library.validation (overlay environment entries))
          = .error (.noDocument problem)
          ↔ fieldsOfFile library.read files file
            = .error (.noDocument problem) := by
        cases hfields : fieldsOfFile library.read files file with
        | error problem' => simp [bind, Except.bind]
        | ok entries => simpa [bind, Except.bind] using hvalidated entries
      refine hload.trans (fieldsOfFile_eq_noDocument_iff.trans ?_)
      constructor
      · rintro ⟨hnul, text, hfile, hread⟩
        exact ⟨text, ⟨file, rfl, hnul, hfile⟩, hread⟩
      · rintro ⟨text, ⟨file', hfile', hnul, hfile⟩, hread⟩
        cases hfile'
        exact ⟨hnul, text, hfile, hread⟩

/-- Every problem has words but that of a reader without them. -/
theorem LoadProblem.message_eq_error_iff {loadProblem : LoadProblem} :
    loadProblem.message = .error problem
      ↔ loadProblem = .noDocument problem ∧ problem.message? = none := by
  cases loadProblem with
  | noDocument problem' =>
      cases hmessage : problem'.message? with
      | none =>
          simp only [message, hmessage, Option.elim_none, Except.error.injEq,
            noDocument.injEq]
          constructor
          · rintro rfl
            exact ⟨rfl, hmessage⟩
          · exact And.left
      | some text =>
          simp only [message, hmessage, Option.elim_some, reduceCtorEq,
            noDocument.injEq, false_iff, not_and]
          rintro rfl hnone
          rw [hmessage] at hnone
          cases hnone
  | _ => simp [message]

/-- The loading fails without a message exactly where the file is
unreported. -/
theorem unreported_iff :
    Unreported library.read files path environment problem
      ↔ ∃ loadProblem,
        load library files path environment = .error loadProblem
          ∧ loadProblem.message = .error problem := by
  constructor
  · rintro ⟨hunread, hwordless⟩
    exact ⟨_, load_eq_noDocument_iff.mpr hunread,
      LoadProblem.message_eq_error_iff.mpr ⟨rfl, hwordless⟩⟩
  · rintro ⟨loadProblem, hload, hmessage⟩
    obtain ⟨rfl, hwordless⟩ := LoadProblem.message_eq_error_iff.mp hmessage
    exact ⟨load_eq_noDocument_iff.mp hload, hwordless⟩

/-- With a reader that only tells well-formed texts from others, the file is
unreported exactly if it is one of the others. -/
theorem unreported_of_decides {WellFormed : String → Prop}
    (hread : read.Decides WellFormed) :
    Unreported read files path environment problem
      ↔ problem = .illFormed
        ∧ ∃ text, FileHolds files path environment text
          ∧ ¬ WellFormed text := by
  constructor
  · rintro ⟨⟨text, hfile, hproblem⟩, -⟩
    have hform : ¬ WellFormed text := by
      intro hform
      obtain ⟨d, hd⟩ := hread.reads hform
      rw [hd] at hproblem
      cases hproblem
    rw [hread.refuses hform] at hproblem
    exact ⟨(Except.error.inj hproblem).symm, text, hfile, hform⟩
  · rintro ⟨rfl, text, hfile, hform⟩
    exact ⟨⟨text, hfile, hread.refuses hform⟩, rfl⟩

end Settings

namespace CommandLine

variable {library : Library} {argv : List String} {arguments : Arguments}
  {environment : Environment} {files : Settings.Files} {input : String}

-- ============================================================= the session

/-- The work of a run once the settings are there. It sees neither the
files nor the environment any more. -/
def session (arguments : Arguments) (settings : Settings) (input : String) :
    Report :=
  match calculator arguments settings with
  | .error breakdown => { ending := .broken breakdown }
  | .ok c =>
      let host := Host.console fun _ => .error .notFound
      let (ending, console) :=
        calculate host c arguments.expression (.ofText input)
      { ending, output := console.transcript }

private theorem calculate_console (files files' : Settings.Files)
    (c : Calculator) (expression : Option String) :
    calculate (.console files) c expression
      = calculate (.console files') c expression := by
  cases expression <;> rfl

/-- With settings the run is the session, whatever files they came from. -/
theorem run_of_load {settings : Settings}
    (hargv : Arguments.parse argv = .ok arguments)
    (hload : Settings.load library files arguments.config environment
      = .ok settings) :
    run library argv environment files input
      = session arguments settings input := by
  unfold run command session
  rw [hargv]
  simp only [loaded_console, hload, pure_bind]
  cases calculator arguments settings with
  | error breakdown => rfl
  | ok c =>
      simp only [calculate_console files fun _ => .error .notFound]
      rfl

/-- Without settings the run is over before anything is written. -/
theorem run_of_load_error {problem : Settings.LoadProblem}
    (hargv : Arguments.parse argv = .ok arguments)
    (hload : Settings.load library files arguments.config environment
      = .error problem) :
    run library argv environment files input
      = (Conclusion.unsettled problem).report "" := by
  unfold run command
  rw [hargv]
  simp only [loaded_console, hload, pure_bind]
  rfl

-- ============================================================ the settling

/-- A run works with the settings that were loaded, or there are none and
it ends with code 2, having written the reason and no output. -/
def Settled (library : Library) (argv : List String) (arguments : Arguments)
    (environment : Environment) (files : Settings.Files) (input : String) :
    Prop :=
  (∃ settings,
    Settings.load library files arguments.config environment = .ok settings
      ∧ run library argv environment files input
        = session arguments settings input)
  ∨ ∃ problem message,
    Settings.load library files arguments.config environment = .error problem
      ∧ problem.message = .ok message
      ∧ run library argv environment files input
        = { ending := .exit 2, output := ""
            complaint := s!"rpncalc: invalid configuration: {message}\n" }

/-- A run is settled unless the settings file is unreported. -/
theorem settled_of_reported
    (hargv : Arguments.parse argv = .ok arguments)
    (hreported : ∀ problem, ¬ Settings.Unreported library.read files
      arguments.config environment problem) :
    Settled library argv arguments environment files input := by
  cases hload :
      Settings.load library files arguments.config environment with
  | ok settings => exact .inl ⟨settings, hload, run_of_load hargv hload⟩
  | error problem =>
      cases hmessage : problem.message with
      | ok message =>
          refine .inr ⟨problem, message, hload, hmessage, ?_⟩
          rw [run_of_load_error hargv hload, Conclusion.report, hmessage]
      | error readProblem =>
          exact absurd (Settings.unreported_iff.mpr ⟨problem, hload, hmessage⟩)
            (hreported readProblem)

/-- With an unreported file a run is not settled: the problem leaves the
command, which has written nothing. -/
theorem run_of_unreported {problem : ReadProblem}
    (hargv : Arguments.parse argv = .ok arguments)
    (h : Settings.Unreported library.read files arguments.config environment
      problem) :
    ¬ Settled library argv arguments environment files input
      ∧ run library argv environment files input
        = { ending := .noSettings problem } := by
  obtain ⟨loadProblem, hload, hmessage⟩ := Settings.unreported_iff.mp h
  constructor
  · rintro (⟨settings, hok, -⟩ | ⟨problem', message, herror, hsome, -⟩)
    · rw [hload] at hok
      cases hok
    · rw [hload] at herror
      cases herror
      rw [hmessage] at hsome
      cases hsome
  · rw [run_of_load_error hargv hload, Conclusion.report, hmessage]

/-- Every run is settled, except where the settings file is unreported:
there the problem leaves the command, which has written nothing. With a
reader that only tells well-formed texts from others, these are the files
that can be read and are not well-formed. -/
theorem settled_iff (library : Library)
    (hargv : Arguments.parse argv = .ok arguments)
    (environment : Environment) (files : Settings.Files) (input : String) :
    (Settled library argv arguments environment files input
      ↔ ∀ problem, ¬ Settings.Unreported library.read files arguments.config
        environment problem)
    ∧ (∀ problem, Settings.Unreported library.read files arguments.config
        environment problem →
      run library argv environment files input
        = { ending := .noSettings problem })
    ∧ ∀ WellFormed, library.read.Decides WellFormed →
      (Settled library argv arguments environment files input
        ↔ ∀ text, Settings.FileHolds files arguments.config environment text →
          WellFormed text)
      ∧ ∀ text, Settings.FileHolds files arguments.config environment text →
        ¬ WellFormed text →
          run library argv environment files input
            = { ending := .noSettings .illFormed } := by
  have hsettled : Settled library argv arguments environment files input
      ↔ ∀ problem, ¬ Settings.Unreported library.read files arguments.config
        environment problem :=
    ⟨fun h problem hproblem => (run_of_unreported hargv hproblem).1 h,
      settled_of_reported hargv⟩
  refine ⟨hsettled, fun problem h => (run_of_unreported hargv h).2, ?_⟩
  intro WellFormed hread
  constructor
  · rw [hsettled]
    -- the only problem such a reader has is a text that is not well-formed
    simp only [Settings.unreported_of_decides hread]
    constructor
    · intro h text hfile
      exact Classical.byContradiction fun hform =>
        h .illFormed ⟨rfl, text, hfile, hform⟩
    · rintro h problem ⟨-, text, hfile, hform⟩
      exact hform (h text hfile)
  · intro text hfile hform
    have hunreported :=
      (Settings.unreported_of_decides hread).mpr ⟨rfl, text, hfile, hform⟩
    exact (run_of_unreported hargv hunreported).2

/-- A reader to which every problem is one of form. -/
def formalReader : Reader := fun text =>
  (Document.read text).mapError fun _ => .illFormed

private theorem decides_formalReader :
    formalReader.Decides fun text => (Document.read text).isOk = true where
  reads {text} h := by
    unfold formalReader
    cases hread : Document.read text with
    | ok d => exact ⟨d, rfl⟩
    | error problem =>
        rw [hread] at h
        cases h
  refuses {text} h := by
    unfold formalReader
    cases hread : Document.read text with
    | ok d =>
        rw [hread] at h
        exact absurd rfl h
    | error problem => rfl

/-- A list of which the bracket is never closed, as settings. -/
theorem settled_iff_open_bracket :
    let library : Library := ⟨formalReader, .standard⟩
    let argv := ["--config", "s.yaml", "--expr=2*x", "--var", "x=3"]
    let arguments : Arguments :=
      { expression := some "2*x", assignments := [some ⟨"x", 3⟩]
        config := some "s.yaml" }
    let files : Settings.Files := fun _ => .ok "limits: [1"
    Arguments.parse argv = .ok arguments
      ∧ ¬ Settled library argv arguments .empty files ""
      ∧ run library argv .empty files ""
        = { ending := .noSettings .illFormed } := by
  intro library argv arguments files
  have hargv : Arguments.parse argv = .ok arguments :=
    eq_ok_of_toOption (by decide +kernel)
  have hfile : Settings.FileHolds files arguments.config .empty "limits: [1" :=
    ⟨"s.yaml", by decide +kernel, by decide, rfl⟩
  have hform : ¬ (Document.read "limits: [1").isOk = true := by
    decide +kernel
  obtain ⟨hsettled, hrun⟩ :=
    (settled_iff library hargv .empty files "").2.2 _ decides_formalReader
  exact ⟨hargv, fun h => hform (hsettled.mp h _ hfile), hrun _ hfile hform⟩

/-- A text as short as `a: [1` gets past both endings: it is no document,
and the run neither works nor ends with code 2. -/
theorem not_settled_open_bracket :
    let argv := ["--config", "s.yaml", "-e", "1"]
    let arguments : Arguments :=
      { expression := some "1", config := some "s.yaml" }
    let files : Settings.Files := fun _ => .ok "a: [1"
    Arguments.parse argv = .ok arguments
      ∧ ¬ Settled .standard argv arguments .empty files "" := by
  intro argv arguments files
  have hargv : Arguments.parse argv = .ok arguments :=
    eq_ok_of_toOption (by decide +kernel)
  have hload :
      (Settings.load .standard files arguments.config .empty).isOk
        = false := by
    decide +kernel
  have hrun : run .standard argv .empty files ""
      = { ending := .noSettings .illFormed } := by
    decide +kernel
  refine ⟨hargv, ?_⟩
  rintro (⟨settings, hok, -⟩ | ⟨problem, message, -, -, hcode⟩)
  · rw [hok] at hload
    cases hload
  · rw [hrun] at hcode
    cases hcode

end CommandLine

end Reckoner

/-
What the loading of settings leaves to libraries.

Two things are done by libraries: a document is read from a text, and a
document is validated. The loading is written over both as parameters, so
that whatever is proved of it holds for all libraries that keep to what
they document; `Settings/Standard.lean` has the ones that run.

A reader tells a text that is no document at all from one in which some
value is impossible, and says why in the second case only.

A validation knows three kinds of declarations: whole numbers above a
bound, texts out of a choice, and models. A model is a mapping with named
fields, and `Fields` lists them, each with its type, what it is worth when
it is missing and how it is read, which may be by a declaration again.
What is relied upon is said by `Validation.Lawful`: a model is accepted
exactly when it has no unknown key and each field is accepted, and is told
everything that is wrong with it at once.
-/
import Reckoner.Document

namespace Reckoner

-- ============================================================= the reading

/-- Why a text gives no document. -/
inductive ReadProblem where
  /-- The text is none. -/
  | illFormed
  /-- A value in it is impossible, as the message says. -/
  | impossibleValue (message : String)
  /-- The reader itself fails, in a way that has a name. -/
  | failure (name : String)
  deriving DecidableEq, Repr

/-- What a problem says. Only an impossible value comes with words that are
meant to be passed on. -/
def ReadProblem.message? : ReadProblem → Option String
  | .impossibleValue message => some message
  | .illFormed | .failure _ => none

/-- A reader of documents. -/
abbrev Reader := String → Except ReadProblem Document

/-- A reader that reads the well-formed texts and finds all others
ill-formed. -/
structure Reader.Decides (read : Reader) (WellFormed : String → Prop) :
    Prop where
  reads : ∀ {text}, WellFormed text → ∃ d, read text = .ok d
  refuses : ∀ {text}, ¬ WellFormed text → read text = .error .illFormed

-- ============================================================== the issues

/-- Something that is wrong with a document: the names that lead to where
it is, and the code of what it is. -/
structure Issue where
  place : List String
  code : String
  deriving DecidableEq, Repr

/-- An issue of a field, seen from the model. -/
def Issue.under (name : String) (issue : Issue) : Issue :=
  { issue with place := name :: issue.place }

/-- All issues of a document that is rejected. There is at least one. -/
structure Issues where
  first : Issue
  more : List Issue
  deriving DecidableEq, Repr

namespace Issues

def single (issue : Issue) : Issues := ⟨issue, []⟩

def toList (issues : Issues) : List Issue := issues.first :: issues.more

def under (name : String) (issues : Issues) : Issues :=
  ⟨issues.first.under name, issues.more.map (·.under name)⟩

def append (issues others : Issues) : Issues :=
  ⟨issues.first, issues.more ++ others.toList⟩

end Issues

/-- Something accepted, or all the issues. -/
abbrev Checked := Except Issues

/-- A check reports an issue, among others or alone. -/
def Reports {α : Type} (check : Checked α) (issue : Issue) : Prop :=
  ∃ issues, check = .error issues ∧ issue ∈ issues.toList

-- ============================================================== the models

/-- The fields of a model, with the type of what they come to. -/
inductive Fields : Type → Type 1 where
  | none : Fields Unit
  | field {α β : Type} (name : String) (missing : α)
      (read : Document → Checked α) (rest : Fields β) : Fields (α × β)

/-- All keys are among the names. -/
def OnlyNamed (names : List String) (entries : List (Document × Document)) :
    Prop :=
  ∀ entry ∈ entries, ∃ name ∈ names, entry.1 = .text name

namespace Fields

def names : {α : Type} → Fields α → List String
  | _, .none => []
  | _, .field name _ _ rest => name :: rest.names

/-- Entries give these values: each field the one that is read, or what it
is worth when it is missing. -/
def Accepts (entries : List (Document × Document)) :
    {α : Type} → Fields α → α → Prop
  | _, .none, _ => True
  | _, .field name missing read rest, (a, b) =>
      (Document.field? entries name).elim (missing = a)
          (fun d => read d = .ok a)
        ∧ rest.Accepts entries b

/-- An issue is reported of some field. -/
def Reports (entries : List (Document × Document)) (issue : Issue) :
    {α : Type} → Fields α → Prop
  | _, .none => False
  | _, .field name _ read rest =>
      (∃ d ∈ Document.field? entries name, ∃ inner,
          Reckoner.Reports (read d) inner ∧ issue = inner.under name)
        ∨ rest.Reports entries issue

end Fields

-- ========================================================== the validation

/-- A validation of documents. -/
structure Validation where
  /-- A whole number above a bound. -/
  integer (bound : Int) : Document → Checked Int
  /-- One of some values, given by its name. -/
  choice {α : Type} (all : List α) (name : α → String) :
    Document → Checked α
  /-- A mapping with these fields and no others. -/
  model {α : Type} (fields : Fields α) : Document → Checked α
  /-- The issue of a key that names no field. -/
  unknownKey (key : Document) : Issue
  /-- What is said of a document that is no model of a title. -/
  message (title : String) (d : Document) (issues : Issues) : String

/-- The documented behaviour of a validation. -/
structure Validation.Lawful (v : Validation) : Prop where
  integer_above : ∀ {bound d n}, v.integer bound d = .ok n → bound < n
  /-- What is an integer already is read as itself. -/
  integer_int : ∀ {bound n : Int}, bound < n →
    v.integer bound (.int n) = .ok n
  /-- A choice is made by its very name. -/
  choice_accepts : ∀ {α : Type} {all : List α} {name : α → String} {d a},
    (all.map name).Nodup →
      (v.choice all name d = .ok a ↔ a ∈ all ∧ d = .text (name a))
  model_of_not_mapping : ∀ {α : Type} {fields : Fields α} {d},
    (∀ entries, d ≠ .mapping entries) →
      v.model fields d = .error (.single ⟨[], "model_type"⟩)
  /-- A key that cannot be decoded keeps everything else from being
  checked. -/
  model_of_brokenKey : ∀ {α : Type} {fields : Fields α} {entries},
    Document.hasBrokenKey entries = true →
      v.model fields (.mapping entries)
        = .error (.single ⟨[], "string_unicode"⟩)
  model_accepts : ∀ {α : Type} {fields : Fields α} {entries a},
    v.model fields (.mapping entries) = .ok a
      ↔ OnlyNamed fields.names entries ∧ fields.Accepts entries a
  model_reports : ∀ {α : Type} {fields : Fields α} {entries issue},
    Document.hasBrokenKey entries = false →
      (Reports (v.model fields (.mapping entries)) issue
        ↔ fields.Reports entries issue
          ∨ ∃ entry ∈ entries, (∀ name ∈ fields.names, entry.1 ≠ .text name)
            ∧ issue = v.unknownKey entry.1)
  unknownKey_text : ∀ name,
    v.unknownKey (.text name) = ⟨[name], "extra_forbidden"⟩
  unknownKey_of_not_text : ∀ {key}, (∀ name, key ≠ .text name) →
    (v.unknownKey key).code = "invalid_key"

/-- The libraries that settings are loaded with. -/
structure Library where
  read : Reader
  validation : Validation

-- =============================================================== the facts

private theorem Issues.mem_under_iff {issues : Issues} {name : String}
    {issue : Issue} :
    issue ∈ (issues.under name).toList
      ↔ ∃ inner ∈ issues.toList, issue = inner.under name := by
  have hlist : (issues.under name).toList
      = issues.toList.map (·.under name) := rfl
  simp only [hlist, List.mem_map, eq_comm]

theorem Issues.mem_append_iff {issues others : Issues} {issue : Issue} :
    issue ∈ (issues.append others).toList
      ↔ issue ∈ issues.toList ∨ issue ∈ others.toList :=
  List.mem_append (s := issues.toList)

section Reports

variable {α β : Type} {check : Checked α} {issue : Issue} {issues : Issues}

theorem reports_error_iff :
    Reports (.error issues : Checked α) issue ↔ issue ∈ issues.toList := by
  simp [Reports]

theorem not_reports_ok {a : α} : ¬ Reports (.ok a) issue := by
  simp [Reports]

/-- What is rejected is rejected for a reason. -/
theorem exists_reports (h : check = .error issues) :
    ∃ issue, Reports check issue :=
  ⟨issues.first, issues, h, List.mem_cons_self⟩

/-- What is made of something accepted reports nothing more. -/
theorem reports_map_iff {f : α → β} :
    Reports (check.map f) issue ↔ Reports check issue := by
  cases check with
  | ok a => exact iff_of_false not_reports_ok not_reports_ok
  | error issues => exact reports_error_iff.trans reports_error_iff.symm

theorem reports_under_iff {name : String} :
    Reports (check.mapError (·.under name)) issue
      ↔ ∃ inner, Reports check inner ∧ issue = inner.under name := by
  cases check with
  | ok a =>
      refine iff_of_false not_reports_ok ?_
      rintro ⟨inner, h, -⟩
      exact not_reports_ok h
  | error issues =>
      refine reports_error_iff.trans (Issues.mem_under_iff.trans ?_)
      simp only [reports_error_iff]

end Reports

end Reckoner

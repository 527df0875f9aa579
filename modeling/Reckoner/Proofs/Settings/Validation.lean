/-
What a validation accepts as settings.

A document is checked field by field, and each of the five settings is
checked by itself: what a document gives for it is brought to its normal
form (`Setting.normal`) and has to be one of the values that the setting may
have (`Setting.Allows`). A mapping is accepted exactly when it has no
unknown name, its `limits` are a mapping if they are there, and each setting
passes; then the settings are what was given, in normal form, and the
standard ones where nothing was given (`ofDocument_mapping_eq_ok_iff`).

All of this rests on what a lawful validation says of single values and of
models, and on nothing else.
-/
import Mathlib.Data.List.Nodup
import Mathlib.Tactic.Choose
import Reckoner.Proofs.Foreseen
import Reckoner.Settings.Models

namespace Reckoner

-- ============================================================ the settings

/-- The settings one by one. -/
inductive Setting where
  | powerAssociativity
  | logLevel
  | limit (resource : Resource)
  deriving DecidableEq, Repr

namespace Setting

open Settings

def all : List Setting :=
  [.powerAssociativity, .logLevel, .limit .expressionLength, .limit .tokens,
    .limit .stackDepth]

theorem mem_all (setting : Setting) : setting ∈ all := by
  cases setting with
  | limit resource => cases resource <;> decide
  | powerAssociativity | logLevel => decide

/-- What settings have for one of them, as a document. -/
def value (settings : Settings) : Setting → Document
  | .powerAssociativity => .text settings.powerAssociativity.name
  | .logLevel => .text settings.logLevel.name
  | .limit resource => .int (settings.limits.of resource)

/-- What is given for a setting, in the form in which it is compared: a limit
as the whole number that the validation takes it for, any other text without
blanks at its ends and in lower case. What has no such form stays as it
is. -/
def normal (v : Validation) : Setting → Document → Document
  | .limit _, d => (v.integer 0 d).toOption.elim d .int
  | _, d => prepared d

/-- The values that a setting may have. -/
def Allows : Setting → Document → Prop
  | .powerAssociativity, d => ∃ choice : Associativity, d = .text choice.name
  | .logLevel, d => ∃ level : LogLevel, d = .text level.name
  | .limit _, d => ∃ n : Int, d = .int n ∧ 0 < n

/-- What a document gives for a setting. The limits have a mapping of their
own. -/
def inFile (entries : List (Document × Document)) : Setting → Option Document
  | .powerAssociativity => Document.field? entries associativityName
  | .logLevel => Document.field? entries logLevelName
  | .limit resource =>
      match Document.field? entries limitsName with
      | some (.mapping limits) => Document.field? limits resource.limitName
      | _ => none

/-- The settings have for this one what is given, which it may have; nothing
given stands for the standard. -/
def Takes (v : Validation) (setting : Setting) (settings : Settings)
    (given : Option Document) : Prop :=
  setting.value settings
      = (given.map (setting.normal v)).getD (setting.value {})
    ∧ ∀ d ∈ given, setting.Allows (setting.normal v d)

variable {v : Validation} {settings : Settings} {given : Option Document}
  {d : Document}

/-- Each value that a setting may have, some settings do have. -/
theorem exists_value_of_allows {setting : Setting} (h : setting.Allows d) :
    ∃ settings, setting.value settings = d := by
  cases setting with
  | powerAssociativity =>
      obtain ⟨choice, rfl⟩ := h
      exact ⟨{ powerAssociativity := choice }, rfl⟩
  | logLevel =>
      obtain ⟨level, rfl⟩ := h
      exact ⟨{ logLevel := level }, rfl⟩
  | limit resource =>
      obtain ⟨n, rfl, -⟩ := h
      refine ⟨{ limits := ⟨n, n, n⟩ }, ?_⟩
      cases resource <;> rfl

/-- Whatever is given and may be had, some settings take. -/
theorem exists_takes {given : Setting → Option Document}
    (h : ∀ setting : Setting, ∀ d ∈ given setting,
      setting.Allows (setting.normal v d)) :
    ∃ settings, ∀ setting : Setting,
      setting.Takes v settings (given setting) := by
  have hvalue : ∀ setting : Setting, ∃ settings, setting.value settings
      = ((given setting).map (setting.normal v)).getD (setting.value {}) := by
    intro setting
    cases hgiven : given setting with
    | none => exact ⟨{}, rfl⟩
    | some d => exact exists_value_of_allows (h setting d hgiven)
  -- the settings that have the one value each are put together into one
  choose having hhaving using hvalue
  let limitOf (resource : Resource) :=
    (having (.limit resource)).limits.of resource
  refine ⟨⟨(having .powerAssociativity).powerAssociativity,
      (having .logLevel).logLevel,
      ⟨limitOf .expressionLength, limitOf .tokens, limitOf .stackDepth⟩⟩,
    fun setting => ⟨?_, h setting⟩⟩
  rw [← hhaving setting]
  cases setting with
  | limit resource => cases resource <;> rfl
  | _ => rfl

end Setting

namespace Settings

-- =============================================================== the names

/-- The names that the fields of a document may have. -/
def fieldNames : List String := [limitsName, associativityName, logLevelName]

/-- The names that the limits may have. -/
def limitNames : List String :=
  [Resource.expressionLength.limitName, Resource.tokens.limitName,
    Resource.stackDepth.limitName]

/-- There is no unknown name, neither among the fields nor among the
limits. -/
structure WellNamed (entries : List (Document × Document)) : Prop where
  fields : OnlyNamed fieldNames entries
  limits : ∀ limits,
    Document.field? entries limitsName = some (.mapping limits) →
      OnlyNamed limitNames limits

/-- If there are limits, they are a mapping. -/
def LimitsMapped (entries : List (Document × Document)) : Prop :=
  ∀ d ∈ Document.field? entries limitsName, ∃ limits, d = .mapping limits

end Settings

open Settings

namespace Setting

variable {v : Validation} {setting : Setting} {settings : Settings}
  {given : Option Document} {d : Document}

/-- A setting is taken as its field is read. -/
theorem takes_iff {α : Type} {read : Document → Checked α} {missing a : α}
    (hmissing : setting.value settings = setting.value {} ↔ missing = a)
    (hread : ∀ d, setting.value settings = setting.normal v d
        ∧ setting.Allows (setting.normal v d) ↔ read d = .ok a) :
    setting.Takes v settings given
      ↔ given.elim (missing = a) fun d => read d = .ok a := by
  cases given with
  | none => simp [Takes, hmissing]
  | some d => simp [Takes, hread]

/-- A setting with named choices is taken as its name is found. -/
theorem takes_choice_iff (hv : v.Lawful) {α : Type} {all : List α}
    {nameOf : α → String} {missing a : α} (hall : ∀ a, a ∈ all)
    (hnodup : (all.map nameOf).Nodup)
    (hnormal : ∀ d, setting.normal v d = prepared d)
    (hallows : ∀ d, setting.Allows d ↔ ∃ a, d = .text (nameOf a))
    (hmissing : setting.value {} = .text (nameOf missing))
    (hvalue : setting.value settings = .text (nameOf a)) :
    setting.Takes v settings given
      ↔ given.elim (missing = a)
        fun d => v.choice all nameOf (prepared d) = .ok a := by
  apply takes_iff
  · rw [hvalue, hmissing, Document.text.injEq]
    exact ⟨fun h => List.inj_on_of_nodup_map hnodup (hall _) (hall _) h.symm,
      fun h => congrArg nameOf h.symm⟩
  · intro d
    rw [hvalue, hnormal, hallows, hv.choice_accepts hnodup]
    constructor
    · rintro ⟨h, -⟩
      exact ⟨hall a, h.symm⟩
    · rintro ⟨-, h⟩
      exact ⟨h.symm, a, h⟩

private theorem takes_powerAssociativity_iff (hv : v.Lawful) :
    Setting.powerAssociativity.Takes v settings given
      ↔ given.elim
        (({} : Settings).powerAssociativity = settings.powerAssociativity)
        fun d => v.choice Associativity.all Associativity.name (prepared d)
          = .ok settings.powerAssociativity :=
  takes_choice_iff hv (fun a => by cases a <;> decide) (by decide)
    (fun _ => rfl) (fun _ => Iff.rfl) rfl rfl

private theorem takes_logLevel_iff (hv : v.Lawful) :
    Setting.logLevel.Takes v settings given
      ↔ given.elim (({} : Settings).logLevel = settings.logLevel)
        fun d => v.choice LogLevel.all LogLevel.name (prepared d)
          = .ok settings.logLevel :=
  takes_choice_iff hv (fun a => by cases a <;> decide) (by decide)
    (fun _ => rfl) (fun _ => Iff.rfl) rfl rfl

private theorem takes_limit_iff (hv : v.Lawful) {resource : Resource} :
    (Setting.limit resource).Takes v settings given
      ↔ given.elim
        (({} : Limits).of resource = settings.limits.of resource)
        fun d => v.integer 0 d = .ok (settings.limits.of resource) := by
  apply takes_iff
  · simp only [value, Document.int.injEq]
    exact eq_comm
  · intro d
    simp only [value, normal, Allows]
    cases hd : v.integer 0 d with
    | ok n =>
        simp only [Except.toOption, Option.elim_some, Document.int.injEq,
          Except.ok.injEq]
        constructor
        · rintro ⟨hn, -⟩
          exact hn.symm
        · rintro rfl
          exact ⟨rfl, _, rfl, hv.integer_above hd⟩
    | error issues =>
        -- what is an integer already would have been read
        simp only [Except.toOption, Option.elim_none, reduceCtorEq, iff_false]
        rintro ⟨rfl, n, hn, hpos⟩
        rw [hn, hv.integer_int hpos] at hd
        cases hd

end Setting

namespace Settings

variable {v : Validation} {entries : List (Document × Document)}
  {d : Document} {limits : Limits} {settings : Settings}

/-- Limits are accepted if they are a mapping without unknown names each
field of which is accepted. -/
theorem limitsOf_eq_ok_iff (hv : v.Lawful) :
    limitsOf v d = .ok limits
      ↔ ∃ entries, d = .mapping entries ∧ OnlyNamed limitNames entries
        ∧ ∀ resource : Resource,
          (Document.field? entries resource.limitName).elim
            (({} : Limits).of resource = limits.of resource)
            fun d => v.integer 0 d = .ok (limits.of resource) := by
  rw [limitsOf, map_eq_ok_iff]
  by_cases hd : ∃ entries, d = .mapping entries
  · obtain ⟨entries, rfl⟩ := hd
    simp only [hv.model_accepts]
    constructor
    · rintro ⟨⟨length, tokens, depth, ⟨⟩⟩, ⟨hnamed, hfields⟩, rfl⟩
      obtain ⟨hlength, htokens, hdepth, -⟩ := hfields
      refine ⟨entries, rfl, hnamed, fun resource => ?_⟩
      cases resource with
      | expressionLength => exact hlength
      | tokens => exact htokens
      | stackDepth => exact hdepth
    · rintro ⟨_, ⟨⟩, hnamed, hfields⟩
      exact ⟨(limits.of .expressionLength, limits.of .tokens,
          limits.of .stackDepth, ()),
        ⟨hnamed, hfields .expressionLength, hfields .tokens,
          hfields .stackDepth, trivial⟩, rfl⟩
  · rw [hv.model_of_not_mapping fun entries h => hd ⟨entries, h⟩]
    refine iff_of_false (by simp) ?_
    rintro ⟨entries, h, -⟩
    exact hd ⟨entries, h⟩

private theorem eq_of_limits {limits' : Limits}
    (h : ∀ resource, limits.of resource = limits'.of resource) :
    limits = limits' := by
  have hlength := h .expressionLength
  have htokens := h .tokens
  have hdepth := h .stackDepth
  cases limits
  cases limits'
  simp_all [Limits.of]

/-- Limits are the standard ones if there are none. -/
theorem limitsField_eq_ok_iff (hv : v.Lawful) (settings : Settings) :
    ((Document.field? entries limitsName).elim
        (({} : Settings).limits = settings.limits)
        fun d => limitsOf v d = .ok settings.limits)
      ↔ (∀ limits,
          Document.field? entries limitsName = some (.mapping limits) →
            OnlyNamed limitNames limits)
        ∧ LimitsMapped entries
        ∧ ∀ resource, (Setting.limit resource).Takes v settings
          ((Setting.limit resource).inFile entries) := by
  simp only [Setting.takes_limit_iff hv, Setting.inFile, LimitsMapped]
  cases Document.field? entries limitsName with
  | none =>
      simp only [reduceCtorEq, Option.elim_none, Option.not_mem_none,
        false_implies, implies_true, true_and]
      exact ⟨fun h resource => by rw [← h], eq_of_limits⟩
  | some d =>
      simp only [Option.elim_some, limitsOf_eq_ok_iff hv,
        Option.some.injEq, Option.mem_def, forall_eq']
      constructor
      · rintro ⟨limits, rfl, hnamed, hfields⟩
        refine ⟨?_, ⟨limits, rfl⟩, hfields⟩
        rintro _ ⟨⟩
        exact hnamed
      · rintro ⟨hnamed, ⟨limits, rfl⟩, hfields⟩
        exact ⟨limits, rfl, hnamed limits rfl, hfields⟩

/-- A mapping is accepted if it has no unknown name, its limits are a mapping
if they are there, and each setting takes what it gives. -/
theorem ofDocument_mapping_eq_ok_iff (hv : v.Lawful) :
    ofDocument v (.mapping entries) = .ok settings
      ↔ WellNamed entries ∧ LimitsMapped entries
        ∧ ∀ setting : Setting,
          setting.Takes v settings (setting.inFile entries) := by
  rw [ofDocument, map_eq_ok_iff]
  simp only [hv.model_accepts]
  constructor
  · rintro ⟨⟨limits, choice, level, ⟨⟩⟩, ⟨hfields, haccepts⟩, rfl⟩
    obtain ⟨hlimits, hchoice, hlevel, -⟩ := haccepts
    obtain ⟨hnamed, hmapped, hlimit⟩ :=
      (limitsField_eq_ok_iff hv ⟨choice, level, limits⟩).mp hlimits
    refine ⟨⟨hfields, hnamed⟩, hmapped, fun setting => ?_⟩
    cases setting with
    | powerAssociativity =>
        exact (Setting.takes_powerAssociativity_iff hv).mpr hchoice
    | logLevel => exact (Setting.takes_logLevel_iff hv).mpr hlevel
    | limit resource => exact hlimit resource
  · rintro ⟨⟨hfields, hnamed⟩, hmapped, htakes⟩
    have hlimits := (limitsField_eq_ok_iff hv settings).mpr
      ⟨hnamed, hmapped, fun resource => htakes (.limit resource)⟩
    have hchoice := (Setting.takes_powerAssociativity_iff hv).mp
      (htakes .powerAssociativity)
    have hlevel := (Setting.takes_logLevel_iff hv).mp (htakes .logLevel)
    exact ⟨(settings.limits, settings.powerAssociativity, settings.logLevel,
        ()), ⟨hfields, hlimits, hchoice, hlevel, trivial⟩, rfl⟩

end Settings

end Reckoner

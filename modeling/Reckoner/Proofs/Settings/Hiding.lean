/-
What variables for limits make of the faults of a file.

Where a variable for a limit is given a value that the limit may have, and
none was set before, the file is reported the same faults as before, those in
the values of limits apart. There is one exception. Limits that say nothing
count as none once there are limits to overlay them with, and if they are no
mapping then this is not reported any more (`HiddenBy`). A file with no other
fault is then accepted.

The two loads differ in the limits alone, and a lawful validation checks the
parts of a document by themselves. So all that is to be compared is what is
reported of the limits (`reports_overlayLimits_iff`).
-/
import Reckoner.Proofs.Settings.Issues
import Reckoner.Proofs.Settings.Overlay

namespace Reckoner.Settings

variable {v : Validation} {environment environment' : Environment}
  {entries limits : List (Document × Document)} {issue : Issue}
  {name variableName : String} {names : List String}

-- ============================================================== the limits

private theorem hasBrokenKey_overlayField :
    Document.hasBrokenKey
        (overlayField environment variableName name entries)
      = Document.hasBrokenKey entries := by
  unfold overlayField
  cases environment.text? variableName with
  | none => rfl
  | some text => exact hasBrokenKey_putField

/-- A variable brings in no unknown key, and hides none. -/
theorem reportsKey_overlayField_iff (h : name ∈ names) :
    ReportsKey v names (overlayField environment variableName name entries)
        issue
      ↔ ReportsKey v names entries issue := by
  unfold overlayField
  cases environment.text? variableName with
  | none => exact Iff.rfl
  | some text => exact reportsKey_putField_iff h

private theorem hasBrokenKey_overlayEach :
    Document.hasBrokenKey (overlayEach environment limits)
      = Document.hasBrokenKey limits := by
  simp only [overlayEach, List.foldl_cons, List.foldl_nil,
    hasBrokenKey_overlayField]

private theorem reportsKey_overlayEach_iff :
    ReportsKey v limitNames (overlayEach environment limits) issue
      ↔ ReportsKey v limitNames limits issue := by
  simp only [overlayEach, List.foldl_cons, List.foldl_nil]
  rw [reportsKey_overlayField_iff (by decide),
    reportsKey_overlayField_iff (by decide),
    reportsKey_overlayField_iff (by decide)]

/-- Of overlaid limits the same is reported, the values of limits apart. -/
theorem reports_limitsOf_overlayEach_iff (hv : v.Lawful)
    (hissue : ¬ (issue.under limitsName).IsOfLimit) :
    Reports (limitsOf v (.mapping (overlayEach environment limits))) issue
      ↔ Reports (limitsOf v (.mapping limits)) issue := by
  have hvalue : ∀ limits, ¬ (limitsFields v).Reports limits issue :=
    fun limits h => hissue (isOfLimit_of_reports h)
  cases hkeys : Document.hasBrokenKey limits with
  | true =>
      rw [reports_limitsOf_of_brokenKey hv hkeys,
        reports_limitsOf_of_brokenKey hv
          (hasBrokenKey_overlayEach.trans hkeys)]
  | false =>
      rw [reports_limitsOf_iff hv hkeys,
        reports_limitsOf_iff hv (hasBrokenKey_overlayEach.trans hkeys),
        reportsKey_overlayEach_iff, iff_of_false (hvalue _) (hvalue _)]

/-- Each variable for a limit is unset or has a value that the limit may
have. -/
def LimitsAllowed (v : Validation) (environment : Environment) : Prop :=
  ∀ resource text, environment.text? (limitVariable resource) = some text →
    ∃ n, v.integer 0 (.text text) = .ok n

/-- Limits that come from variables alone are accepted. -/
theorem not_reports_overlayEach_nil (hv : v.Lawful)
    (hallowed : LimitsAllowed v environment) :
    ¬ Reports (limitsOf v (.mapping (overlayEach environment []))) issue := by
  have hkeys : Document.hasBrokenKey (overlayEach environment []) = false :=
    hasBrokenKey_overlayEach
  rw [reports_limitsOf_iff hv hkeys, reportsKey_overlayEach_iff,
    reports_limitsFields_iff]
  rintro (⟨resource, d, hd, inner, h, -⟩ | ⟨entry, hentry, -⟩)
  · rw [field?_overlayEach] at hd
    cases htext : environment.text? (limitVariable resource) with
    | none =>
        rw [htext] at hd
        cases hd
    | some text =>
        obtain ⟨n, hn⟩ := hallowed resource text htext
        rw [htext] at hd
        cases hd
        rw [hn] at h
        exact not_reports_ok h
  · cases hentry

-- ============================================================= the overlay

/-- Some variable for a limit is set. -/
def LimitGiven (environment : Environment) : Prop :=
  ∃ resource text, environment.text? (limitVariable resource) = some text

private theorem isEmpty_givenLimits_iff :
    (givenLimits environment).isEmpty = true ↔ ¬ LimitGiven environment := by
  rw [List.isEmpty_iff, givenLimits, List.filterMap_eq_nil_iff, LimitGiven]
  constructor
  · rintro hnone ⟨resource, text, htext⟩
    have hmem :
        resource ∈ [Resource.expressionLength, .tokens, .stackDepth] := by
      cases resource <;> decide
    have hfield := hnone resource hmem
    rw [htext] at hfield
    cases hfield
  · intro hnot resource _
    cases htext : environment.text? (limitVariable resource) with
    | none => rfl
    | some text => exact absurd ⟨resource, text, htext⟩ hnot

/-- Without variables for limits the overlay changes nothing. -/
theorem overlayLimits_of_not_limitGiven (h : ¬ LimitGiven environment) :
    overlayLimits environment entries = entries := by
  rw [overlayLimits, isEmpty_givenLimits_iff.mpr h]
  rfl

/-- Limits that are void count as none. -/
theorem overlayLimits_of_isVoid (hgiven : LimitGiven environment)
    (hvoid :
      ((Document.field? entries limitsName).getD .null).isVoid = true) :
    overlayLimits environment entries
      = Document.putField entries limitsName
        (.mapping (overlayEach environment [])) := by
  have hempty : ¬ (givenLimits environment).isEmpty = true := fun h =>
    isEmpty_givenLimits_iff.mp h hgiven
  unfold overlayLimits
  simp only [foldl_givenLimits]
  rw [if_neg hempty, if_pos hvoid]

/-- Limits that are neither void nor a mapping stay as they are. -/
theorem overlayLimits_of_not_isVoid {d : Document}
    (hfield : Document.field? entries limitsName = some d)
    (hvoid : d.isVoid = false) (hmapping : ∀ limits, d ≠ .mapping limits) :
    overlayLimits environment entries = entries := by
  unfold overlayLimits
  simp only [hfield, Option.getD_some, hvoid, Bool.false_eq_true, if_false]
  split
  · rfl
  · cases d with
    | mapping limits => exact absurd rfl (hmapping limits)
    | _ => rfl

/-- The limits say nothing, but not as an empty mapping. -/
def VoidLimits (entries : List (Document × Document)) : Prop :=
  ∃ d, Document.field? entries limitsName = some d ∧ d.isVoid = true
    ∧ ∀ limits, d ≠ .mapping limits

/-- An issue that limits from variables hide: that limits are no mapping, if
they say nothing. -/
def HiddenBy (environment : Environment)
    (entries : List (Document × Document)) (issue : Issue) : Prop :=
  issue = ⟨[limitsName], "model_type"⟩ ∧ VoidLimits entries
    ∧ LimitGiven environment

/-- With limits from variables everything is reported as before but that void
limits are no mapping. -/
theorem reports_overlayLimits_of_voidLimits (hv : v.Lawful)
    (hallowed : LimitsAllowed v environment) (hvoid : VoidLimits entries)
    (hgiven : LimitGiven environment) :
    Reports (ofDocument v (.mapping (overlayLimits environment entries))) issue
      ↔ Reports (ofDocument v (.mapping entries)) issue
        ∧ issue ≠ ⟨[limitsName], "model_type"⟩ := by
  obtain ⟨d, hfield, hd, hmapping⟩ := hvoid
  rw [overlayLimits_of_isVoid hgiven (by rw [hfield]; exact hd)]
  cases hkeys : Document.hasBrokenKey entries with
  | true =>
      rw [reports_ofDocument_of_brokenKey hv hkeys,
        reports_ofDocument_of_brokenKey hv (hasBrokenKey_putField.trans hkeys)]
      refine (and_iff_left_of_imp ?_).symm
      rintro rfl
      decide
  | false =>
      rw [reports_ofDocument_iff hv hkeys,
        reports_ofDocument_iff hv (hasBrokenKey_putField.trans hkeys),
        reportsLimits_putField_iff, reportsOthers_putField_iff]
      constructor
      · rintro (⟨inner, h, -⟩ | h)
        · exact absurd h (not_reports_overlayEach_nil hv hallowed)
        · exact ⟨.inr h, ne_notMapping_of_reportsOthers hv h⟩
      · rintro ⟨⟨d', hd', inner, h, rfl⟩ | h, hne⟩
        · obtain rfl : d = d' := Option.some.inj (hfield.symm.trans hd')
          obtain rfl := (reports_limitsOf_of_not_mapping hv hmapping).mp h
          exact absurd rfl hne
        · exact .inr h

/-- Limits of which the same is reported can be put in for others. -/
theorem reports_putField_of_iff (hv : v.Lawful) {d : Document}
    (h : (∃ inner, Reports (limitsOf v d) inner
        ∧ issue = inner.under limitsName)
      ↔ ReportsLimits v entries issue) :
    Reports (ofDocument v
        (.mapping (Document.putField entries limitsName d))) issue
      ↔ Reports (ofDocument v (.mapping entries)) issue := by
  cases hkeys : Document.hasBrokenKey entries with
  | true =>
      rw [reports_ofDocument_of_brokenKey hv hkeys,
        reports_ofDocument_of_brokenKey hv (hasBrokenKey_putField.trans hkeys)]
  | false =>
      rw [reports_ofDocument_iff hv hkeys,
        reports_ofDocument_iff hv (hasBrokenKey_putField.trans hkeys),
        reportsLimits_putField_iff, reportsOthers_putField_iff, h]

/-- Where no void limits are replaced everything is reported as before, the
values of limits apart. -/
theorem reports_overlayLimits_iff (hv : v.Lawful)
    (hallowed : LimitsAllowed v environment)
    (hkept : ¬ (VoidLimits entries ∧ LimitGiven environment))
    (hissue : ¬ issue.IsOfLimit) :
    Reports (ofDocument v (.mapping (overlayLimits environment entries))) issue
      ↔ Reports (ofDocument v (.mapping entries)) issue := by
  by_cases hgiven : LimitGiven environment
  · cases hfield : Document.field? entries limitsName with
    | none =>
        -- there were no limits, and those of the variables are in order
        rw [overlayLimits_of_isVoid hgiven (by rw [hfield]; rfl)]
        apply reports_putField_of_iff hv
        refine iff_of_false ?_ ?_
        · rintro ⟨inner, h, -⟩
          exact not_reports_overlayEach_nil hv hallowed h
        · rintro ⟨d, hd, -⟩
          rw [hfield] at hd
          cases hd
    | some d =>
        by_cases hmapping : ∃ limits, d = .mapping limits
        · obtain ⟨limits, rfl⟩ := hmapping
          have hmapped : LimitsMapped entries := by
            intro d hd
            rw [hfield] at hd
            exact ⟨limits, (Option.some.inj hd).symm⟩
          have hempty : ¬ (givenLimits environment).isEmpty = true := fun h =>
            isEmpty_givenLimits_iff.mp h hgiven
          rw [overlayLimits_eq hmapped, if_neg hempty, limitsIn, hfield]
          apply reports_putField_of_iff hv
          simp only [ReportsLimits, hfield, Option.mem_some_iff,
            exists_eq_left']
          refine exists_congr fun inner => and_congr_left ?_
          rintro rfl
          exact reports_limitsOf_overlayEach_iff hv hissue
        · have hmapping : ∀ limits, d ≠ .mapping limits := fun limits h =>
            hmapping ⟨limits, h⟩
          have hvoid : d.isVoid = false := by
            rw [Bool.eq_false_iff]
            exact fun h => hkept ⟨⟨d, hfield, h, hmapping⟩, hgiven⟩
          rw [overlayLimits_of_not_isVoid hfield hvoid hmapping]
  · rw [overlayLimits_of_not_limitGiven hgiven]

/-- What is reported and about no value of a limit is reported again, unless
it is hidden. -/
theorem reports_again_iff (hv : v.Lawful)
    (hallowed : LimitsAllowed v environment) (hissue : ¬ issue.IsOfLimit)
    (h : Reports (ofDocument v (.mapping entries)) issue) :
    Reports (ofDocument v (.mapping (overlayLimits environment entries))) issue
      ↔ ¬ HiddenBy environment entries issue := by
  by_cases hhides : VoidLimits entries ∧ LimitGiven environment
  · rw [reports_overlayLimits_of_voidLimits hv hallowed hhides.1 hhides.2,
      HiddenBy]
    simp only [h, hhides, and_true, true_and, ne_eq]
  · rw [reports_overlayLimits_iff hv hallowed hhides hissue]
    exact iff_of_true h fun hhidden => hhides hhidden.2

/-- If something is reported that is about no value of a limit, then something
is reported again, unless all that was reported is hidden. -/
theorem exists_reports_again_iff (hv : v.Lawful)
    (hallowed : LimitsAllowed v environment)
    (hfault : ∃ issue, Reports (ofDocument v (.mapping entries)) issue
      ∧ ¬ issue.IsOfLimit) :
    (∃ issue, Reports
        (ofDocument v (.mapping (overlayLimits environment entries))) issue)
      ↔ ∃ issue, Reports (ofDocument v (.mapping entries)) issue
        ∧ ¬ HiddenBy environment entries issue := by
  by_cases hhides : VoidLimits entries ∧ LimitGiven environment
  · refine exists_congr fun issue => ?_
    rw [reports_overlayLimits_of_voidLimits hv hallowed hhides.1 hhides.2,
      HiddenBy]
    simp only [hhides, and_true, ne_eq]
  · obtain ⟨issue, hreported, hissue⟩ := hfault
    have hkept : ¬ HiddenBy environment entries issue := fun hhidden =>
      hhides hhidden.2
    exact iff_of_true
      ⟨issue, (reports_again_iff hv hallowed hissue hreported).mpr hkept⟩
      ⟨issue, hreported, hkept⟩

-- ============================================================= the loading

/-- An environment in which no variable for a limit is set, and one in which
some of them have values that the limits may have. All other variables are
the same. -/
structure GivesLimits (v : Validation)
    (environment environment' : Environment) : Prop where
  unset : ¬ LimitGiven environment
  allowed : LimitsAllowed v environment'
  same : ∀ name, (∀ resource, name ≠ limitVariable resource) →
    environment'.text? name = environment.text? name

namespace GivesLimits

variable (h : GivesLimits v environment environment') {path : Option String}
include h

/-- Both loads read the same file. -/
theorem filePath?_eq :
    filePath? path environment' = filePath? path environment := by
  unfold filePath?
  rw [h.same fileVariable fun resource => by cases resource <;> decide]

/-- They overlay its two texts alike. -/
theorem overlayChoices_eq :
    overlayChoices environment' entries
      = overlayChoices environment entries := by
  have hlevel : environment'.text? logLevelVariable
      = environment.text? logLevelVariable :=
    h.same _ fun resource => by cases resource <;> decide
  have hchoice : environment'.text? associativityVariable
      = environment.text? associativityVariable :=
    h.same _ fun resource => by cases resource <;> decide
  unfold overlayChoices overlayField
  rw [hlevel, hchoice]

private theorem overlay_eq :
    overlay environment entries = overlayChoices environment entries :=
  overlayLimits_of_not_limitGiven h.unset

private theorem overlay_eq' : overlay environment' entries
    = overlayLimits environment' (overlayChoices environment entries) := by
  rw [← h.overlayChoices_eq]
  rfl

end GivesLimits

private theorem not_limitGiven_empty : ¬ LimitGiven .empty := by
  rintro ⟨resource, text, h⟩
  cases h

/-- One variable for a limit is given a value. -/
theorem givesLimits_insert {resource : Resource} {text : String} {n : Int}
    (hunset : ¬ LimitGiven environment) (htext : text ≠ "")
    (hvalue : v.integer 0 (.text text) = .ok n) :
    GivesLimits v environment
      (environment.insert (limitVariable resource) text) where
  unset := hunset
  allowed other text' h := by
    by_cases hother : limitVariable other = limitVariable resource
    · rw [hother, Environment.text?_insert_self htext] at h
      cases h
      exact ⟨n, hvalue⟩
    · rw [Environment.text?_insert_of_ne hother] at h
      exact absurd ⟨other, text', h⟩ hunset
  same _ h := Environment.text?_insert_of_ne (h resource)

private theorem givesLimits_tokens :
    GivesLimits .standard .empty
      (NameMap.empty.insert "RPNCALC_MAX_TOKENS" "5") := by
  have hvalue : Validation.standard.integer 0 (.text "5") = .ok 5 :=
    eq_ok_of_toOption (by decide +kernel)
  exact @givesLimits_insert .standard .empty .tokens "5" 5
    not_limitGiven_empty (by decide) hvalue

private theorem hiddenBy_overlayChoices_iff :
    HiddenBy environment' (overlayChoices environment entries) issue
      ↔ HiddenBy environment' entries issue := by
  simp only [HiddenBy, VoidLimits, field?_limits_overlayChoices]

/-- The entries of the file at a path; without a path there are none. -/
def entriesAt (read : Reader) (files : Files) : Option String →
    Except LoadProblem (List (Document × Document))
  | some file => fieldsOfFile read files file
  | none => .ok []

variable {library : Library} {read : Reader} {files : Files}
  {path : Option String} {file : Option String}

/-- Loading is reading a file, if there is one, and then validating. -/
theorem load_eq_bind : load library files path environment
    = entriesAt library.read files (filePath? path environment)
      >>= fun entries =>
        validated library.validation (overlay environment entries) := by
  unfold load entriesAt
  cases filePath? path environment <;> rfl

/-- Entries come from a mapping or from a file that says nothing. -/
theorem fileGives_of_entriesAt (h : entriesAt read files file = .ok entries) :
    FileGives read files file entries := by
  cases file with
  | none =>
      cases h
      exact .noFile
  | some file =>
      simp only [entriesAt, fieldsOfFile, List.contains_iff_mem] at h
      split at h
      · cases h
      · next hnul =>
          split at h
          · cases h
          · next text hfile =>
              split at h
              · cases h
              · next hread =>
                  cases h
                  exact .blank hnul hfile hread
              · next hread =>
                  cases h
                  exact .mapping hnul hfile hread
              · cases h

/-- What is wrong with a file before its entries are validated is no issue of
theirs. -/
theorem not_invalid_of_entriesAt {issues : Issues} {message : String} :
    entriesAt read files file ≠ .error (.invalid issues message) := by
  intro h
  cases file with
  | none => cases h
  | some file =>
      simp only [entriesAt, fieldsOfFile] at h
      split at h
      · cases h
      · split at h
        · cases h
        · split at h <;> cases h

/-- Entries are not loaded if something is reported of them, and what is
reported are the issues. -/
theorem validated_eq_error_iff {problem : LoadProblem} :
    validated v entries = .error problem
      ↔ ∃ issues, ofDocument v (.mapping entries) = .error issues
        ∧ .invalid issues (v.message title (.mapping entries) issues)
          = problem :=
  mapError_eq_error_iff

/-- The settings are refused if anything is reported. -/
theorem exists_validated_eq_error_iff :
    (∃ problem, validated v entries = .error problem)
      ↔ ∃ issue, Reports (ofDocument v (.mapping entries)) issue := by
  simp only [validated_eq_error_iff]
  constructor
  · rintro ⟨problem, issues, h, -⟩
    exact exists_reports h
  · rintro ⟨issue, issues, h, -⟩
    exact ⟨_, issues, h, rfl⟩

/-- An issue is among those of a refusal if it is reported. -/
theorem exists_validated_eq_invalid_iff :
    (∃ issues message, validated v entries = .error (.invalid issues message)
        ∧ issue ∈ issues.toList)
      ↔ Reports (ofDocument v (.mapping entries)) issue := by
  simp only [validated_eq_error_iff, LoadProblem.invalid.injEq]
  constructor
  · rintro ⟨_, _, ⟨issues, h, rfl, -⟩, hmem⟩
    exact ⟨issues, h, hmem⟩
  · rintro ⟨issues, h, hmem⟩
    exact ⟨issues, _, ⟨issues, h, rfl, rfl⟩, hmem⟩

/-- Entries that were refused, for one issue at least that is about no value
of a limit: with the variables they are refused again if some issue is not
hidden, and such an issue is reported again if it is not hidden itself. -/
theorem validated_again (hv : v.Lawful)
    (h : GivesLimits v environment environment') {issues : Issues}
    {message : String}
    (hrefused : validated v (overlay environment entries)
      = .error (.invalid issues message))
    (hvalue : ∃ issue ∈ issues.toList, ¬ issue.IsOfLimit) :
    ((∃ problem, validated v (overlay environment' entries) = .error problem)
      ↔ ∃ issue ∈ issues.toList, ¬ HiddenBy environment' entries issue)
    ∧ ∀ issue ∈ issues.toList, ¬ issue.IsOfLimit →
      ((∃ issues' message', validated v (overlay environment' entries)
            = .error (.invalid issues' message')
          ∧ issue ∈ issues'.toList)
        ↔ ¬ HiddenBy environment' entries issue) := by
  obtain ⟨fault, hfault, hnone⟩ := hvalue
  rw [h.overlay_eq] at hrefused
  rw [h.overlay_eq']
  obtain ⟨issues', hchecked, hinvalid⟩ := validated_eq_error_iff.mp hrefused
  obtain rfl : issues' = issues := (LoadProblem.invalid.inj hinvalid).1
  have hissues : ∀ issue, issue ∈ issues'.toList
      ↔ Reports (ofDocument v
        (.mapping (overlayChoices environment entries))) issue := by
    intro issue
    rw [hchecked, reports_error_iff]
  have hhidden : ∀ issue, HiddenBy environment' entries issue
      ↔ HiddenBy environment' (overlayChoices environment entries) issue :=
    fun issue => hiddenBy_overlayChoices_iff.symm
  -- only the limits differ between the two validations
  constructor
  · simp only [hissues, hhidden]
    rw [exists_validated_eq_error_iff]
    exact exists_reports_again_iff hv h.allowed
      ⟨fault, (hissues fault).mp hfault, hnone⟩
  · intro issue hmem hissue
    rw [hhidden, exists_validated_eq_invalid_iff]
    exact reports_again_iff hv h.allowed hissue ((hissues issue).mp hmem)

/-- With values for limits in variables, where none was set before, a fault of
the file stays one, whatever reads the file and for every lawful validation.
What keeps its entries from being validated is the same. Where issues were
reported, one of them about no value of a limit, the settings are refused
again if and only if some issue is not hidden; and each of the issues about no
value of a limit is reported again if and only if it is not hidden itself. -/
theorem load_rejected_again (library : Library)
    (hv : library.validation.Lawful) (files : Files) (path : Option String)
    (h : GivesLimits library.validation environment environment') :
    (∀ problem, (∀ issues message, problem ≠ .invalid issues message) →
      load library files path environment = .error problem →
      load library files path environment' = .error problem)
    ∧ ∀ issues message,
      load library files path environment
          = .error (.invalid issues message) →
      (∃ issue ∈ issues.toList, ¬ issue.IsOfLimit) →
      ∃ entries,
        FileGives library.read files (filePath? path environment) entries
        ∧ ((∃ problem,
            load library files path environment' = .error problem)
          ↔ ∃ issue ∈ issues.toList, ¬ HiddenBy environment' entries issue)
        ∧ ∀ issue ∈ issues.toList, ¬ issue.IsOfLimit →
          ((∃ issues' message', load library files path environment'
                = .error (.invalid issues' message')
              ∧ issue ∈ issues'.toList)
            ↔ ¬ HiddenBy environment' entries issue) := by
  cases hentries :
      entriesAt library.read files (filePath? path environment) with
  -- the file is at fault before a variable is looked at
  | error problem =>
      have hload : load library files path environment = .error problem := by
        rw [load_eq_bind, hentries]
        rfl
      have hload' : load library files path environment'
          = .error problem := by
        rw [load_eq_bind, h.filePath?_eq, hentries]
        rfl
      rw [hload, hload']
      refine ⟨fun _ _ => id, fun issues message hinvalid => ?_⟩
      obtain rfl : problem = .invalid issues message :=
        Except.error.inj hinvalid
      exact absurd hentries not_invalid_of_entriesAt
  | ok entries =>
      have hfile := fileGives_of_entriesAt hentries
      have hfile' : FileGives library.read files
          (filePath? path environment') entries := by
        rw [h.filePath?_eq]
        exact hfile
      rw [hfile.load_eq, hfile'.load_eq]
      constructor
      · intro problem hproblem hload
        obtain ⟨issues, -, rfl⟩ := validated_eq_error_iff.mp hload
        exact absurd rfl (hproblem issues _)
      · intro issues message hload hvalue
        exact ⟨entries, hfile, validated_again hv h hload hvalue⟩

/-- Void limits that are no mapping are hidden by a variable, a level that is
a list is not. -/
theorem load_rejected_again_level :
    let text := "'limits': []\n'log_level': []\n"
    let files : Files := fun _ => .ok text
    let environment' : Environment :=
      NameMap.empty.insert "RPNCALC_MAX_TOKENS" "5"
    let limits : Issue := ⟨["limits"], "model_type"⟩
    let level : Issue := ⟨["log_level"], "literal_error"⟩
    Library.standard.validation.Lawful
      ∧ GivesLimits Library.standard.validation .empty environment'
      ∧ ¬ level.IsOfLimit
      ∧ (∃ message, load .standard files (some "s.yaml") .empty
          = .error (.invalid ⟨limits, [level]⟩ message))
      ∧ ∃ issues' message', load .standard files (some "s.yaml") environment'
          = .error (.invalid issues' message')
        ∧ level ∈ issues'.toList := by
  intro text files environment' limits level
  have hv : Library.standard.validation.Lawful := Validation.lawful_standard
  have hgives : GivesLimits Library.standard.validation .empty environment' :=
    givesLimits_tokens
  have hlevel : ¬ level.IsOfLimit := by
    rintro ⟨resource, rest, h⟩
    exact absurd (List.cons.inj h).1 (by decide)
  have hread : Document.read text = .ok (.mapping
      [(.text "limits", .list []), (.text "log_level", .list [])]) := by
    have hallowed : (Document.unifyBreaks text.toList).all Document.isAllowed
        = true := by
      decide +kernel
    have hmarks : Document.Mark.ofText (Document.unifyBreaks text.toList)
        = [.blockMappingStart, .key, .scalar .quoted (some "limits"), .value,
          .listStart, .listEnd, .key, .scalar .quoted (some "log_level"),
          .value, .listStart, .listEnd, .blockEnd, .textEnd] := by
      decide +kernel
    exact Document.read_eq_ok hallowed hmarks rfl rfl
  have hpath : filePath? (some "s.yaml") .empty = some "s.yaml" := by
    decide +kernel
  have hfile : FileGives Library.standard.read files _ _ :=
    fileGives_standard hpath (by decide) rfl hread
  obtain ⟨message, hload⟩ : ∃ message, load .standard files (some "s.yaml")
      .empty = .error (.invalid ⟨limits, [level]⟩ message) := by
    rw [hfile.load_eq, hgives.overlay_eq]
    exact ⟨_, rfl⟩
  obtain ⟨-, hinvalid⟩ :=
    load_rejected_again .standard hv files (some "s.yaml") hgives
  obtain ⟨entries, -, -, hagain⟩ :=
    hinvalid _ message hload ⟨level, by decide, hlevel⟩
  refine ⟨hv, hgives, hlevel, ⟨message, hload⟩,
    (hagain level (by decide) hlevel).mpr ?_⟩
  rintro ⟨heq, -⟩
  exact absurd heq (by decide)

/-- Void limits that are no mapping are a fault, but not once there is a
variable for a limit. -/
theorem load_hides_void_limits :
    let text := "'limits': []\n"
    let files : Files := fun _ => .ok text
    let environment' : Environment :=
      NameMap.empty.insert "RPNCALC_MAX_TOKENS" "5"
    GivesLimits Library.standard.validation .empty environment'
      ∧ (∃ message, load .standard files (some "s.yaml") .empty
          = .error (.invalid (.single ⟨["limits"], "model_type"⟩) message))
      ∧ load .standard files (some "s.yaml") environment'
        = .ok ⟨.left, .warning, ⟨4096, 5, 256⟩⟩ := by
  intro text files environment'
  have hgives : GivesLimits Library.standard.validation .empty environment' :=
    givesLimits_tokens
  have hread : Document.read text
      = .ok (.mapping [(.text "limits", .list [])]) := by
    have hallowed : (Document.unifyBreaks text.toList).all Document.isAllowed
        = true := by
      decide +kernel
    have hmarks : Document.Mark.ofText (Document.unifyBreaks text.toList)
        = [.blockMappingStart, .key, .scalar .quoted (some "limits"), .value,
          .listStart, .listEnd, .blockEnd, .textEnd] := by
      decide +kernel
    exact Document.read_eq_ok hallowed hmarks rfl rfl
  have hpath : filePath? (some "s.yaml") .empty = some "s.yaml" := by
    decide +kernel
  have hfile : FileGives Library.standard.read files _ _ :=
    fileGives_standard hpath (by decide) rfl hread
  refine ⟨hgives, ?_, eq_ok_of_toOption (by decide +kernel)⟩
  rw [hfile.load_eq, hgives.overlay_eq]
  exact ⟨_, rfl⟩

end Reckoner.Settings

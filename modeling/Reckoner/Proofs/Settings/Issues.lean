/-
What a lawful validation reports of settings.

A document is checked in parts: its limits, its two choices and its keys. No
part looks at another, so what is reported of a document is what is reported
of its limits (`ReportsLimits`) or of everything else (`ReportsOthers`),
unless a key is broken, which keeps everything else from being checked
(`reports_ofDocument_iff`). A field that is put in for the limits changes
what is reported of the limits and nothing else
(`reportsOthers_putField_iff`).
-/
import Reckoner.Proofs.Settings.Validation

namespace Reckoner

variable {issue : Issue} {entries : List (Document × Document)}
  {name : String} {names : List String} {d : Document}

-- ============================================================== the places

/-- What is reported of fields is at the place of one of them. -/
theorem Fields.place_of_reports {α : Type} {fields : Fields α}
    (h : fields.Reports entries issue) :
    ∃ name ∈ fields.names, ∃ rest, issue.place = name :: rest := by
  induction fields with
  | none => exact absurd h not_false
  | field name missing read rest ih =>
      rcases h with ⟨d, -, inner, -, rfl⟩ | h
      · exact ⟨name, List.mem_cons_self, inner.place, rfl⟩
      · obtain ⟨other, hother, hplace⟩ := ih h
        exact ⟨other, List.mem_cons_of_mem _ hother, hplace⟩

-- ================================================================ the keys

/-- Some key is none of the names, and this is the issue of it. -/
def ReportsKey (v : Validation) (names : List String)
    (entries : List (Document × Document)) (issue : Issue) : Prop :=
  ∃ entry ∈ entries, (∀ name ∈ names, entry.1 ≠ .text name)
    ∧ issue = v.unknownKey entry.1

/-- An unknown key is another fault than something that is no mapping. -/
theorem code_of_reportsKey {v : Validation} (hv : v.Lawful)
    (h : ReportsKey v names entries issue) : issue.code ≠ "model_type" := by
  obtain ⟨entry, -, -, rfl⟩ := h
  by_cases hkey : ∃ name, entry.1 = .text name
  · obtain ⟨name, hname⟩ := hkey
    rw [hname, hv.unknownKey_text]
    exact (by decide : "extra_forbidden" ≠ "model_type")
  · rw [hv.unknownKey_of_not_text fun name hname => hkey ⟨name, hname⟩]
    decide

/-- A field that is put in under a known name adds no unknown key. -/
theorem reportsKey_putField_iff {v : Validation} (h : name ∈ names) :
    ReportsKey v names (Document.putField entries name d) issue
      ↔ ReportsKey v names entries issue := by
  unfold ReportsKey Document.putField Document.putEntry
  split
  · -- the entries have the keys that they had
    simp only [List.mem_map, exists_exists_and_eq_and]
    refine exists_congr fun entry => and_congr_right fun _ => ?_
    split <;> rfl
  · simp only [List.mem_append, List.mem_singleton]
    constructor
    · rintro ⟨entry, hentry | rfl, hstrange, hissue⟩
      · exact ⟨entry, hentry, hstrange, hissue⟩
      · exact absurd rfl (hstrange name h)
    · rintro ⟨entry, hentry, hissue⟩
      exact ⟨entry, .inl hentry, hissue⟩

/-- A field that is put in has a name, so it breaks no key and mends none. -/
theorem hasBrokenKey_putField :
    Document.hasBrokenKey (Document.putField entries name d)
      = Document.hasBrokenKey entries := by
  unfold Document.hasBrokenKey Document.putField Document.putEntry
  split
  · rw [List.any_map]
    congr 1
    funext entry
    dsimp only [Function.comp]
    split <;> rfl
  · simp [Document.isSameKey, Document.wholeNumber?]

/-- The issue is about the value of a limit. -/
def Issue.IsOfLimit (issue : Issue) : Prop :=
  ∃ (resource : Resource) (rest : List String),
    issue.place = Settings.limitsName :: resource.limitName :: rest

namespace Settings

variable {v : Validation} {limits : List (Document × Document)}

-- ============================================================== the limits

/-- What is reported of the fields of the limits is reported of the value of
one of them. -/
theorem reports_limitsFields_iff :
    (limitsFields v).Reports limits issue
      ↔ ∃ resource : Resource,
        ∃ d ∈ Document.field? limits resource.limitName, ∃ inner,
          Reports (v.integer 0 d) inner
            ∧ issue = inner.under resource.limitName := by
  constructor
  · rintro (h | h | h | h)
    · exact ⟨.expressionLength, h⟩
    · exact ⟨.tokens, h⟩
    · exact ⟨.stackDepth, h⟩
    · exact absurd h not_false
  · rintro ⟨resource, h⟩
    cases resource with
    | expressionLength => exact .inl h
    | tokens => exact .inr (.inl h)
    | stackDepth => exact .inr (.inr (.inl h))

/-- Such an issue is about the value of a limit. -/
theorem isOfLimit_of_reports (h : (limitsFields v).Reports limits issue) :
    (issue.under limitsName).IsOfLimit := by
  obtain ⟨resource, d, -, inner, -, rfl⟩ := reports_limitsFields_iff.mp h
  exact ⟨resource, inner.place, rfl⟩

theorem reports_limitsOf_of_brokenKey (hv : v.Lawful)
    (hkeys : Document.hasBrokenKey limits = true) :
    Reports (limitsOf v (.mapping limits)) issue
      ↔ issue = ⟨[], "string_unicode"⟩ := by
  rw [limitsOf, reports_map_iff, hv.model_of_brokenKey hkeys,
    reports_error_iff]
  exact List.mem_singleton

/-- What is reported of the limits is reported of one of them or of a
key. -/
theorem reports_limitsOf_iff (hv : v.Lawful)
    (hkeys : Document.hasBrokenKey limits = false) :
    Reports (limitsOf v (.mapping limits)) issue
      ↔ (limitsFields v).Reports limits issue
        ∨ ReportsKey v limitNames limits issue := by
  rw [limitsOf, reports_map_iff, hv.model_reports hkeys]
  rfl

theorem reports_limitsOf_of_not_mapping (hv : v.Lawful)
    (h : ∀ limits, d ≠ .mapping limits) :
    Reports (limitsOf v d) issue ↔ issue = ⟨[], "model_type"⟩ := by
  rw [limitsOf, reports_map_iff, hv.model_of_not_mapping h, reports_error_iff]
  exact List.mem_singleton

-- =========================================================== the documents

/-- The issue is reported of the limits, if there are any. -/
def ReportsLimits (v : Validation) (entries : List (Document × Document))
    (issue : Issue) : Prop :=
  ∃ d ∈ Document.field? entries limitsName, ∃ inner,
    Reports (limitsOf v d) inner ∧ issue = inner.under limitsName

/-- The issue is reported of everything else. -/
def ReportsOthers (v : Validation) (entries : List (Document × Document))
    (issue : Issue) : Prop :=
  (choiceFields v).Reports entries issue
    ∨ ReportsKey v fieldNames entries issue

theorem reports_ofDocument_of_brokenKey (hv : v.Lawful)
    (hkeys : Document.hasBrokenKey entries = true) :
    Reports (ofDocument v (.mapping entries)) issue
      ↔ issue = ⟨[], "string_unicode"⟩ := by
  rw [ofDocument, reports_map_iff, hv.model_of_brokenKey hkeys,
    reports_error_iff]
  exact List.mem_singleton

/-- What is reported of a document is what is reported of its limits and of
everything else. -/
theorem reports_ofDocument_iff (hv : v.Lawful)
    (hkeys : Document.hasBrokenKey entries = false) :
    Reports (ofDocument v (.mapping entries)) issue
      ↔ ReportsLimits v entries issue ∨ ReportsOthers v entries issue := by
  rw [ofDocument, reports_map_iff, hv.model_reports hkeys]
  exact or_assoc

/-- The limits that are put in are the ones that are checked. -/
theorem reportsLimits_putField_iff :
    ReportsLimits v (Document.putField entries limitsName d) issue
      ↔ ∃ inner, Reports (limitsOf v d) inner
        ∧ issue = inner.under limitsName := by
  simp [ReportsLimits, Document.field?_putField_self]

/-- Everything else is checked as before. -/
theorem reportsOthers_putField_iff :
    ReportsOthers v (Document.putField entries limitsName d) issue
      ↔ ReportsOthers v entries issue := by
  have hassociativity : Document.field?
      (Document.putField entries limitsName d) associativityName
        = Document.field? entries associativityName :=
    Document.field?_putField_of_ne (by decide) ..
  have hlevel : Document.field?
      (Document.putField entries limitsName d) logLevelName
        = Document.field? entries logLevelName :=
    Document.field?_putField_of_ne (by decide) ..
  refine or_congr ?_ (reportsKey_putField_iff (by decide))
  simp only [choiceFields, Fields.Reports, hassociativity, hlevel]

/-- That the limits are no mapping is reported of nothing else. -/
theorem ne_notMapping_of_reportsOthers (hv : v.Lawful)
    (h : ReportsOthers v entries issue) :
    issue ≠ ⟨[limitsName], "model_type"⟩ := by
  rintro rfl
  rcases h with h | h
  · obtain ⟨name, hname, rest, hplace⟩ := Fields.place_of_reports h
    have hne : ∀ name ∈ [associativityName, logLevelName],
        limitsName ≠ name := by decide
    exact hne name hname (List.cons.inj hplace).1
  · exact code_of_reportsKey hv h rfl

end Settings

end Reckoner

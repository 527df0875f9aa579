/-
Settings overlaid by the environment.

Each setting has a variable. What is taken for it is the text of the
variable, if it has one, or else what the file gives for it, also where that
is a field of the limits (`Setting.taken`). The overlay comes to just this: a
document that gives for each setting what is taken for it
(`inFile_overlay`), with the same unknown names (`wellNamed_overlay_iff`). So
settings are loaded if and only if what is taken is allowed, setting by
setting, and a variable decides about its own setting and no other.
-/
import Reckoner.Proofs.Settings.Standard
import Reckoner.Proofs.Settings.Validation
import Reckoner.Settings.Load
import Reckoner.Settings.Standard

namespace Reckoner

open Settings

namespace Setting

-- =========================================================== what is taken

/-- The variable of a setting. -/
def variableName : Setting → String
  | .powerAssociativity => associativityVariable
  | .logLevel => logLevelVariable
  | .limit resource => limitVariable resource

/-- What is taken for a setting: the text of its variable, or else what the
file gives. -/
def taken (environment : Environment) (entries : List (Document × Document))
    (setting : Setting) : Option Document :=
  ((environment.text? setting.variableName).map .text).or
    (setting.inFile entries)

/-- No two settings share a variable. -/
theorem variableName_injective {setting other : Setting}
    (h : setting.variableName = other.variableName) : setting = other := by
  have hnodup : (all.map variableName).Nodup := by decide
  exact List.inj_on_of_nodup_map hnodup (mem_all setting) (mem_all other) h

/-- The variable that names the file is none of theirs. -/
theorem variableName_ne_fileVariable (setting : Setting) :
    setting.variableName ≠ fileVariable := by
  have hall : ∀ setting ∈ all, setting.variableName ≠ fileVariable := by decide
  exact hall setting (mem_all setting)

end Setting

namespace Settings

variable {environment : Environment}
  {entries limits : List (Document × Document)}
  {name other variableName text : String} {names : List String}

-- =============================================================== one field

/-- A field that a variable takes the place of: the text of the variable, or
else what was there. -/
theorem field?_overlayField_self :
    Document.field? (overlayField environment variableName name entries) name
      = ((environment.text? variableName).map .text).or
        (Document.field? entries name) := by
  unfold overlayField
  cases environment.text? variableName with
  | none => rfl
  | some text => exact Document.field?_putField_self ..

/-- All other fields stay. -/
theorem field?_overlayField_of_ne (h : name ≠ other) :
    Document.field? (overlayField environment variableName name entries) other
      = Document.field? entries other := by
  unfold overlayField
  cases environment.text? variableName with
  | none => rfl
  | some text => exact Document.field?_putField_of_ne h ..

/-- A field of a known name makes no name unknown. -/
theorem onlyNamed_putField_iff {d : Document} (h : name ∈ names) :
    OnlyNamed names (Document.putField entries name d)
      ↔ OnlyNamed names entries := by
  have hfield : ∃ known ∈ names, Document.text name = .text known :=
    ⟨name, h, rfl⟩
  unfold Document.putField Document.putEntry OnlyNamed
  split
  · simp only [List.forall_mem_map]
    refine forall₂_congr fun entry _ => ?_
    split <;> rfl
  · simp only [List.forall_mem_append, List.forall_mem_singleton]
    exact and_iff_left hfield

/-- A variable brings in no key that is not known. -/
theorem onlyNamed_overlayField_iff (h : name ∈ names) :
    OnlyNamed names (overlayField environment variableName name entries)
      ↔ OnlyNamed names entries := by
  unfold overlayField
  cases environment.text? variableName with
  | none => exact Iff.rfl
  | some text => exact onlyNamed_putField_iff h

-- ============================================================== the limits

/-- The limits of a document, or none. -/
def limitsIn (entries : List (Document × Document)) :
    List (Document × Document) :=
  match Document.field? entries limitsName with
  | some (.mapping limits) => limits
  | _ => []

/-- Limits overlaid one by one. -/
def overlayEach (environment : Environment)
    (limits : List (Document × Document)) :
    List (Document × Document) :=
  [Resource.expressionLength, .tokens, .stackDepth].foldl
      (fun limits resource =>
    overlayField environment (limitVariable resource) resource.limitName
      limits) limits

theorem foldl_givenLimits :
    (givenLimits environment).foldl (fun limits (name, text) =>
        Document.putField limits name (.text text)) limits
      = overlayEach environment limits := by
  unfold givenLimits overlayEach
  rw [List.foldl_filterMap]
  congr 1
  funext limits resource
  unfold overlayField
  cases environment.text? (limitVariable resource) <;> rfl

/-- Each limit is overlaid by its own variable. -/
theorem field?_overlayEach (resource : Resource) :
    Document.field? (overlayEach environment limits) resource.limitName
      = ((environment.text? (limitVariable resource)).map .text).or
        (Document.field? limits resource.limitName) := by
  simp only [overlayEach, List.foldl_cons, List.foldl_nil]
  cases resource with
  | expressionLength =>
      rw [field?_overlayField_of_ne (by decide),
        field?_overlayField_of_ne (by decide), field?_overlayField_self]
  | tokens =>
      rw [field?_overlayField_of_ne (by decide), field?_overlayField_self,
        field?_overlayField_of_ne (by decide)]
  | stackDepth =>
      rw [field?_overlayField_self, field?_overlayField_of_ne (by decide),
        field?_overlayField_of_ne (by decide)]

private theorem onlyNamed_overlayEach_iff :
    OnlyNamed limitNames (overlayEach environment limits)
      ↔ OnlyNamed limitNames limits := by
  simp only [overlayEach, List.foldl_cons, List.foldl_nil]
  rw [onlyNamed_overlayField_iff (by decide),
    onlyNamed_overlayField_iff (by decide),
    onlyNamed_overlayField_iff (by decide)]

/-- Without variables for limits there is nothing to overlay. -/
theorem overlayEach_of_isEmpty (h : (givenLimits environment).isEmpty = true) :
    overlayEach environment limits = limits := by
  rw [← foldl_givenLimits, List.isEmpty_iff.mp h]
  rfl

/-- With limits that are a mapping, or absent, the overlay puts in the
overlaid limits, if there is anything to overlay them with. -/
theorem overlayLimits_eq (hmapped : LimitsMapped entries) :
    overlayLimits environment entries
      = if (givenLimits environment).isEmpty then entries
        else Document.putField entries limitsName
          (.mapping (overlayEach environment (limitsIn entries))) := by
  unfold overlayLimits
  simp only [foldl_givenLimits]
  split
  · rfl
  · cases hfield : Document.field? entries limitsName with
    | none =>
        rw [limitsIn, hfield]
        rfl
    | some d =>
        obtain ⟨limits, rfl⟩ := hmapped d hfield
        rw [limitsIn, hfield]
        cases limits <;> rfl

/-- Whether or not variables are set, the limits afterwards are the overlaid
ones. -/
theorem limitsIn_overlayLimits (hmapped : LimitsMapped entries) :
    limitsIn (overlayLimits environment entries)
      = overlayEach environment (limitsIn entries) := by
  rw [overlayLimits_eq hmapped]
  split
  · next hnone => rw [overlayEach_of_isEmpty hnone]
  · rw [limitsIn, Document.field?_putField_self]

private theorem limitsMapped_overlayLimits (hmapped : LimitsMapped entries) :
    LimitsMapped (overlayLimits environment entries) := by
  rw [overlayLimits_eq hmapped]
  split
  · exact hmapped
  · rw [LimitsMapped, Document.field?_putField_self]
    rintro _ ⟨⟩
    exact ⟨_, rfl⟩

private theorem field?_overlayLimits_of_ne (hmapped : LimitsMapped entries)
    (h : limitsName ≠ name) :
    Document.field? (overlayLimits environment entries) name
      = Document.field? entries name := by
  rw [overlayLimits_eq hmapped]
  split
  · rfl
  · exact Document.field?_putField_of_ne h ..

private theorem onlyNamed_overlayLimits_iff (hmapped : LimitsMapped entries) :
    OnlyNamed fieldNames (overlayLimits environment entries)
      ↔ OnlyNamed fieldNames entries := by
  rw [overlayLimits_eq hmapped]
  split
  · exact Iff.rfl
  · exact onlyNamed_putField_iff (by decide)

-- ======================================================= the whole overlay

/-- Entries with the two choices overlaid. -/
def overlayChoices (environment : Environment)
    (entries : List (Document × Document)) :
    List (Document × Document) :=
  overlayField environment associativityVariable associativityName
    (overlayField environment logLevelVariable logLevelName entries)

theorem field?_limits_overlayChoices :
    Document.field? (overlayChoices environment entries) limitsName
      = Document.field? entries limitsName := by
  rw [overlayChoices, field?_overlayField_of_ne (by decide),
    field?_overlayField_of_ne (by decide)]

private theorem limitsMapped_overlayChoices (hmapped : LimitsMapped entries) :
    LimitsMapped (overlayChoices environment entries) := by
  rw [LimitsMapped, field?_limits_overlayChoices]
  exact hmapped

/-- The overlays of the two texts leave the limits alone. -/
theorem limitsIn_overlay (hmapped : LimitsMapped entries) :
    limitsIn (overlay environment entries)
      = overlayEach environment (limitsIn entries) := by
  have hchoices :
      limitsIn (overlayChoices environment entries) = limitsIn entries := by
    simp only [limitsIn, field?_limits_overlayChoices]
  rw [← hchoices]
  exact limitsIn_overlayLimits (limitsMapped_overlayChoices hmapped)

private theorem inFile_limit {resource : Resource} :
    (Setting.limit resource).inFile entries
      = Document.field? (limitsIn entries) resource.limitName := by
  unfold Setting.inFile limitsIn
  cases Document.field? entries limitsName with
  | none => rfl
  | some d => cases d <;> rfl

/-- The overlaid document gives for each setting what is taken for it. -/
theorem inFile_overlay (hmapped : LimitsMapped entries) (setting : Setting) :
    setting.inFile (overlay environment entries)
      = setting.taken environment entries := by
  have hchoices : LimitsMapped (overlayChoices environment entries) :=
    limitsMapped_overlayChoices hmapped
  cases setting with
  | powerAssociativity =>
      calc Document.field? (overlay environment entries) associativityName
          = Document.field? (overlayChoices environment entries)
              associativityName :=
            field?_overlayLimits_of_ne hchoices (by decide)
        _ = _ := by rw [overlayChoices, field?_overlayField_self,
            field?_overlayField_of_ne (by decide)]; rfl
  | logLevel =>
      calc Document.field? (overlay environment entries) logLevelName
          = Document.field? (overlayChoices environment entries)
              logLevelName :=
            field?_overlayLimits_of_ne hchoices (by decide)
        _ = _ := by rw [overlayChoices, field?_overlayField_of_ne (by decide),
            field?_overlayField_self]; rfl
  | limit resource =>
      rw [inFile_limit, limitsIn_overlay hmapped, field?_overlayEach,
        Setting.taken, inFile_limit]
      rfl

/-- Names at both levels, as the validation asks for them. -/
theorem wellNamed_iff :
    WellNamed entries
      ↔ OnlyNamed fieldNames entries
        ∧ OnlyNamed limitNames (limitsIn entries) := by
  refine ⟨fun h => ⟨h.fields, ?_⟩, fun h => ⟨h.1, fun limits hlimits => ?_⟩⟩
  · unfold limitsIn
    split
    · next hlimits => exact h.limits _ hlimits
    · nofun
  · have hnamed := h.2
    rw [limitsIn, hlimits] at hnamed
    exact hnamed

/-- No variable brings in an unknown name or removes one. -/
theorem wellNamed_overlay_iff (hmapped : LimitsMapped entries) :
    WellNamed (overlay environment entries) ↔ WellNamed entries := by
  rw [wellNamed_iff, wellNamed_iff, limitsIn_overlay hmapped,
    onlyNamed_overlayEach_iff]
  refine and_congr_left fun _ => ?_
  refine (onlyNamed_overlayLimits_iff
    (limitsMapped_overlayChoices hmapped)).trans ?_
  rw [overlayChoices, onlyNamed_overlayField_iff (by decide),
    onlyNamed_overlayField_iff (by decide)]

-- ============================================================= the loading

/-- The settings file is blank or holds a mapping of these entries. Where
there is no file there are no entries. -/
inductive FileGives (read : Reader) (files : Files) :
    Option String → List (Document × Document) → Prop where
  | noFile : FileGives read files none []
  | blank {file text : String} (hnul : '\x00' ∉ file.toList)
      (hfile : files file = .ok text) (hread : read text = .ok .null) :
      FileGives read files (some file) []
  | mapping {file text : String} {entries} (hnul : '\x00' ∉ file.toList)
      (hfile : files file = .ok text)
      (hread : read text = .ok (.mapping entries)) :
      FileGives read files (some file) entries

variable {library : Library} {files : Files} {path : Option String}
  {settings : Settings}

theorem FileGives.fieldsOfFile {read : Reader} {file : String}
    (h : FileGives read files (some file) entries) :
    fieldsOfFile read files file = .ok entries := by
  cases h with
  | blank hnul hfile hread | mapping hnul hfile hread =>
      simp [Settings.fieldsOfFile, hnul, hfile, hread]

/-- A mapping for the reader that runs gives its entries. -/
theorem fileGives_standard {file text : String}
    (hpath : filePath? path environment = some file)
    (hnul : '\x00' ∉ file.toList) (hfile : files file = .ok text)
    (hread : Document.read text = .ok (.mapping entries)) :
    FileGives Library.standard.read files (filePath? path environment)
      entries := by
  rw [hpath]
  exact .mapping hnul hfile (mapError_eq_ok_iff.mpr hread)

/-- With entries to validate, the loading is their validation. -/
theorem FileGives.load_eq
    (h : FileGives library.read files (filePath? path environment) entries) :
    load library files path environment
      = validated library.validation (overlay environment entries) := by
  unfold load
  cases hpath : filePath? path environment with
  | none =>
      rw [hpath] at h
      cases h
      rfl
  | some file =>
      rw [hpath] at h
      simp only [h.fieldsOfFile]
      rfl

/-- Settings are loaded if no name is unknown and each setting takes what is
taken for it. -/
theorem load_eq_ok_iff (hv : library.validation.Lawful)
    (hfile :
      FileGives library.read files (filePath? path environment) entries)
    (hmapped : LimitsMapped entries) :
    load library files path environment = .ok settings
      ↔ WellNamed entries
        ∧ ∀ setting : Setting, setting.Takes library.validation settings
          (setting.taken environment entries) := by
  have hoverlaid : LimitsMapped (overlay environment entries) :=
    limitsMapped_overlayLimits (limitsMapped_overlayChoices hmapped)
  rw [hfile.load_eq, validated, mapError_eq_ok_iff,
    ofDocument_mapping_eq_ok_iff hv, wellNamed_overlay_iff hmapped]
  simp only [hoverlaid, true_and, inFile_overlay hmapped]

/-- Settings are loaded if no name is unknown and what is taken is
allowed. -/
theorem loads_iff (hv : library.validation.Lawful)
    (hfile :
      FileGives library.read files (filePath? path environment) entries)
    (hmapped : LimitsMapped entries) :
    (∃ settings, load library files path environment = .ok settings)
      ↔ WellNamed entries
        ∧ ∀ setting : Setting, ∀ d ∈ setting.taken environment entries,
          setting.Allows (setting.normal library.validation d) := by
  simp only [load_eq_ok_iff hv hfile hmapped, exists_and_left]
  refine and_congr_right fun _ => ⟨?_, Setting.exists_takes⟩
  rintro ⟨settings, htakes⟩ setting
  exact (htakes setting).2

end Settings

-- ============================================================ one variable

section Variable

variable {environment : Environment} {entries : List (Document × Document)}
  {setting other : Setting} {name text : String} {path : Option String}

theorem Environment.text?_insert_self (h : text ≠ "") :
    Environment.text? (environment.insert name text) name = some text := by
  simp [Environment.text?, NameMap.find?_insert, h]

theorem Environment.text?_insert_of_ne {another : String}
    (h : another ≠ name) :
    Environment.text? (environment.insert name text) another
      = environment.text? another := by
  simp only [Environment.text?, NameMap.find?_insert, if_neg h]

private theorem Settings.filePath?_insert :
    filePath? path (environment.insert setting.variableName text)
      = filePath? path environment := by
  unfold filePath?
  rw [Environment.text?_insert_of_ne setting.variableName_ne_fileVariable.symm]

namespace Setting

/-- A variable that is set decides about its setting. -/
theorem taken_insert_self (h : text ≠ "") :
    setting.taken (environment.insert setting.variableName text) entries
      = some (.text text) := by
  rw [taken, Environment.text?_insert_self h]
  rfl

/-- It decides about no other. -/
theorem taken_insert_of_ne (h : other ≠ setting) :
    other.taken (environment.insert setting.variableName text) entries
      = other.taken environment entries := by
  have hname : other.variableName ≠ setting.variableName := fun hsame =>
    h (variableName_injective hsame)
  rw [taken, Environment.text?_insert_of_ne hname, taken]

/-- What is asked of all that is taken is asked of the text and of all else
that was taken. -/
theorem forall_taken_insert_iff (h : text ≠ "")
    {P : Setting → Document → Prop} :
    (∀ other : Setting,
        ∀ d ∈ other.taken (environment.insert setting.variableName text)
          entries, P other d)
      ↔ P setting (.text text)
        ∧ ∀ other : Setting, other ≠ setting →
          ∀ d ∈ other.taken environment entries, P other d := by
  constructor
  · intro hall
    refine ⟨hall setting _ (taken_insert_self h), fun other hother => ?_⟩
    rw [← taken_insert_of_ne hother]
    exact hall other
  · rintro ⟨hself, hothers⟩ other
    by_cases hother : other = setting
    · subst hother
      rw [taken_insert_self h]
      rintro _ ⟨⟩
      exact hself
    · rw [taken_insert_of_ne hother]
      exact hothers other hother

end Setting

end Variable

namespace Settings

-- ============================================================== the result

/-- With a file that is blank or a mapping whose limits are a mapping too, if
they are there: settings are loaded if and only if no name is unknown and what
is taken for each setting is allowed, and each of them is what was taken, in
normal form, or the standard one. Where a variable is given a text, this alone
counts for its setting, whatever the file has there; and no other setting
changes. This holds whatever reads the file, and for every lawful
validation. -/
theorem load_setting_by_setting (library : Library)
    (hv : library.validation.Lawful) (files : Files) (path : Option String)
    (environment : Environment) {entries : List (Document × Document)}
    (hfile :
      FileGives library.read files (filePath? path environment) entries)
    (hmapped : LimitsMapped entries) :
    ((∃ settings, load library files path environment = .ok settings)
      ↔ WellNamed entries
        ∧ ∀ setting : Setting, ∀ d ∈ setting.taken environment entries,
          setting.Allows (setting.normal library.validation d))
    ∧ (∀ settings, load library files path environment = .ok settings →
        ∀ setting : Setting, setting.value settings
          = ((setting.taken environment entries).map
              (setting.normal library.validation)).getD (setting.value {}))
    ∧ (∀ (setting : Setting) (text : String), text ≠ "" →
        ((∃ settings, load library files path
            (environment.insert setting.variableName text) = .ok settings)
          ↔ WellNamed entries
            ∧ setting.Allows (setting.normal library.validation (.text text))
            ∧ ∀ other : Setting, other ≠ setting →
              ∀ d ∈ other.taken environment entries,
                other.Allows (other.normal library.validation d)))
    ∧ ∀ (setting : Setting) (text : String) (settings settings' : Settings),
        load library files path environment = .ok settings →
        load library files path
            (environment.insert setting.variableName text) = .ok settings' →
        ∀ other : Setting, other ≠ setting →
          other.value settings' = other.value settings := by
  have hinserted : ∀ (setting : Setting) (text : String),
      FileGives library.read files
        (filePath? path (environment.insert setting.variableName text))
        entries := by
    intro setting text
    rw [filePath?_insert]
    exact hfile
  refine ⟨loads_iff hv hfile hmapped, ?_, ?_, ?_⟩
  · intro settings hload setting
    exact (((load_eq_ok_iff hv hfile hmapped).mp hload).2 setting).1
  · intro setting text htext
    rw [loads_iff hv (hinserted setting text) hmapped,
      Setting.forall_taken_insert_iff htext]
  · intro setting text settings settings' hload hload' other hother
    have htakes := ((load_eq_ok_iff hv hfile hmapped).mp hload).2 other
    have htakes' :=
      ((load_eq_ok_iff hv (hinserted setting text) hmapped).mp hload').2 other
    rw [Setting.taken_insert_of_ne hother] at htakes'
    rw [htakes.1, htakes'.1]

/-- A level that is a list and a zero limit in the file count for nothing
where variables have something else for them. The other limit is that of the
file, and an empty variable has nothing to say. A variable with a zero is
refused. -/
theorem load_setting_by_setting_overridden :
    let text := "'log_level': []\n'limits':\n  'max_tokens': '0'\n"
      ++ "  'max_stack_depth': '7'\n"
    let files : Files := fun _ => .ok text
    let environment : Environment := ⟨[("RPNCALC_CONFIG", "s.yaml"),
      ("RPNCALC_LOG_LEVEL", " Info "), ("RPNCALC_MAX_TOKENS", "5.0"),
      ("RPNCALC_POWER_ASSOCIATIVITY", "")]⟩
    let entries : List (Document × Document) := [(.text "log_level", .list []),
      (.text "limits", .mapping [(.text "max_tokens", .text "0"),
        (.text "max_stack_depth", .text "7")])]
    let settings : Settings := ⟨.left, .info, ⟨4096, 5, 7⟩⟩
    Library.standard.validation.Lawful
      ∧ FileGives Library.standard.read files (filePath? none environment)
        entries
      ∧ LimitsMapped entries
      ∧ load .standard files none environment = .ok settings
      ∧ (∀ setting : Setting, setting.value settings
        = ((setting.taken environment entries).map
            (setting.normal Library.standard.validation)).getD
          (setting.value {}))
      ∧ ¬ ∃ settings', load .standard files none
        (environment.insert (Setting.limit .tokens).variableName "0")
          = .ok settings' := by
  intro text files environment entries settings
  have hread : Document.read text = .ok (.mapping entries) := by
    let name (s : String) : List Document.Mark :=
      [.key, .scalar .quoted (some s), .value]
    have hallowed : (Document.unifyBreaks text.toList).all Document.isAllowed
        = true := by
      decide +kernel
    have hmarks : Document.Mark.ofText (Document.unifyBreaks text.toList)
        = .blockMappingStart :: name "log_level" ++ [.listStart, .listEnd]
          ++ name "limits" ++ .blockMappingStart :: name "max_tokens"
          ++ .scalar .quoted (some "0") :: name "max_stack_depth"
          ++ [.scalar .quoted (some "7"), .blockEnd, .blockEnd, .textEnd] := by
      decide +kernel
    exact Document.read_eq_ok hallowed hmarks rfl rfl
  have hpath : filePath? none environment = some "s.yaml" := by
    decide +kernel
  have hfile : FileGives Library.standard.read files _ _ :=
    fileGives_standard hpath (by decide) rfl hread
  have hmapped : LimitsMapped entries := by
    rintro _ ⟨⟩
    exact ⟨_, rfl⟩
  have hload : load .standard files none environment = .ok settings :=
    eq_ok_of_toOption (by decide +kernel)
  have hv : Library.standard.validation.Lawful := Validation.lawful_standard
  obtain ⟨-, hvalues, hvariable, -⟩ :=
    load_setting_by_setting .standard hv files none environment hfile hmapped
  refine ⟨hv, hfile, hmapped, hload, hvalues settings hload, ?_⟩
  rw [hvariable (.limit .tokens) "0" (by decide)]
  rintro ⟨-, ⟨n, hn, hpos⟩, -⟩
  -- a zero is read as a number, but not as one above zero
  have hzero :
      (Validation.standard.integer 0 (.text "0")).toOption = none := by
    decide +kernel
  have hnormal : (Setting.limit .tokens).normal Validation.standard (.text "0")
      = .text "0" := by
    rw [Setting.normal, hzero]
    rfl
  cases hnormal.symm.trans hn

end Settings

end Reckoner

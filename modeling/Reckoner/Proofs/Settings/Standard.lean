/-
The validation that runs keeps to what a validation documents.

Fields are read side by side, so they are accepted exactly when each of
them is (`readFields_eq_ok_iff`), and what is reported of them is what is
reported of one of them (`reports_readFields_iff`). Both are inductions on
the fields. A model adds the keys that name none of its fields.
-/
import Reckoner.Proofs.Foreseen
import Reckoner.Settings.Validation

namespace Reckoner.Validation

variable {α β : Type} {entries : List (Document × Document)} {name : String}
  {names : List String} {issue : Issue}

-- ============================================================== the values

/-- A limit is accepted if it can be read as a whole number and is above the
bound. -/
theorem wholeAbove_eq_ok_iff {bound n : Int} {d : Document} :
    wholeAbove bound d = .ok n ↔ whole d = .ok n ∧ bound < n := by
  rw [wholeAbove, bind_eq_ok_iff]
  constructor
  · rintro ⟨m, hm, h⟩
    split at h
    · next habove =>
        cases h
        exact ⟨hm, habove⟩
    · cases h
  · rintro ⟨hn, habove⟩
    exact ⟨n, hn, if_pos habove⟩

/-- Where no two choices share a name, the one that is found by a name is
the one that has it. -/
theorem find?_name_eq_some_iff {all : List α} {nameOf : α → String}
    (h : (all.map nameOf).Nodup) {a : α} :
    (all.find? fun b => nameOf b == name) = some a
      ↔ a ∈ all ∧ nameOf a = name := by
  induction all with
  | nil => simp
  | cons b rest ih =>
      rw [List.map_cons, List.nodup_cons] at h
      by_cases hb : nameOf b = name
      · -- what comes later has another name
        have hrest : ∀ a ∈ rest, nameOf a ≠ name := fun a ha heq =>
          h.1 (List.mem_map.mpr ⟨a, ha, heq.trans hb.symm⟩)
        rw [List.find?_cons_of_pos (by simpa using hb), Option.some_inj,
          List.mem_cons]
        constructor
        · rintro rfl
          exact ⟨.inl rfl, hb⟩
        · rintro ⟨rfl | ha, hname⟩
          · rfl
          · exact absurd hname (hrest a ha)
      · rw [List.find?_cons_of_neg (by simpa using hb), ih h.2,
          List.mem_cons]
        refine and_congr_left fun hname => (or_iff_right ?_).symm
        rintro rfl
        exact hb hname

/-- A name is looked up; with names that are all different only one value has
it. -/
theorem named_eq_ok_iff {all : List α} {nameOf : α → String} {d : Document}
    {a : α} (h : (all.map nameOf).Nodup) :
    named all nameOf d = .ok a ↔ a ∈ all ∧ d = .text (nameOf a) := by
  cases d with
  | text s =>
      rw [Document.text.injEq, eq_comm (a := s), ← find?_name_eq_some_iff h,
        named]
      cases all.find? fun b => nameOf b == s with
      | none => simp [rejected]
      | some b => simp
  | _ => simp [named, rejected]

-- ============================================================== the fields

/-- Of two checks side by side, what either of them reports is reported. -/
theorem reports_both_iff {first : Checked α} {second : Checked β} :
    Reports (both first second) issue
      ↔ Reports first issue ∨ Reports second issue := by
  cases first <;> cases second <;>
    simp [both, Reports, Issues.mem_append_iff]

section Field

variable {missing a : α} {read : Document → Checked α}

private theorem readField_eq_ok_iff :
    readField entries name missing read = .ok a
      ↔ (Document.field? entries name).elim (missing = a)
        fun d => read d = .ok a := by
  unfold readField
  cases Document.field? entries name with
  | none => simp
  | some d => exact mapError_eq_ok_iff

private theorem reports_readField_iff :
    Reports (readField entries name missing read) issue
      ↔ ∃ d ∈ Document.field? entries name, ∃ inner,
        Reports (read d) inner ∧ issue = inner.under name := by
  unfold readField
  cases Document.field? entries name with
  | none => simpa using not_reports_ok
  | some d => simpa using reports_under_iff

end Field

/-- By induction on the fields: all of them are accepted, with their values
in order. -/
theorem readFields_eq_ok_iff {fields : Fields α} {a : α} :
    readFields entries fields = .ok a ↔ fields.Accepts entries a := by
  induction fields with
  | none => exact iff_of_true rfl trivial
  | field name missing read rest ih =>
      obtain ⟨b, c⟩ := a
      rw [readFields, both_eq_ok_iff, readField_eq_ok_iff, ih]
      rfl

/-- The issues of the fields are those of each field, found under its name.
-/
theorem reports_readFields_iff {fields : Fields α} :
    Reports (readFields entries fields) issue
      ↔ fields.Reports entries issue := by
  induction fields with
  | none => exact iff_of_false not_reports_ok not_false
  | field name missing read rest ih =>
      rw [readFields, reports_both_iff, reports_readField_iff, ih]
      rfl

-- ================================================================ the keys

/-- A key is strange if it is none of the names as a text. -/
theorem isStrange_iff {key : Document} :
    (!names.any fun name => key.isSameKey (.text name)) = true
      ↔ ∀ name ∈ names, key ≠ .text name := by
  simp

private theorem reports_onlyNamed_iff :
    Reports (onlyNamed entries names) issue
      ↔ ∃ entry ∈ entries, (∀ name ∈ names, entry.1 ≠ .text name)
        ∧ issue = strangeKey entry.1 := by
  have hstrange : Reports (onlyNamed entries names) issue
      ↔ issue ∈ (entries.filter fun entry =>
          !names.any fun name => entry.1.isSameKey (.text name)).map
        fun entry => strangeKey entry.1 := by
    unfold onlyNamed
    dsimp only
    split
    · next hnone =>
        rw [hnone]
        exact iff_of_false not_reports_ok List.not_mem_nil
    · next first more hsome =>
        rw [hsome, reports_error_iff]
        rfl
  simp only [hstrange, List.mem_map, List.mem_filter, isStrange_iff,
    and_assoc, eq_comm (b := issue)]

/-- The keys pass if there is no strange one among them. -/
theorem onlyNamed_eq_ok_iff :
    onlyNamed entries names = .ok () ↔ OnlyNamed names entries := by
  have hknown : OnlyNamed names entries
      ↔ ∀ issue, ¬ Reports (onlyNamed entries names) issue := by
    simp only [reports_onlyNamed_iff, not_exists, not_and]
    constructor
    · intro h issue entry hentry hstrange
      obtain ⟨name, hname, hkey⟩ := h entry hentry
      exact absurd hkey (hstrange name hname)
    · intro h entry hentry
      refine Classical.byContradiction fun hnone => ?_
      exact h _ entry hentry
        (fun name hname hkey => hnone ⟨name, hname, hkey⟩) rfl
  rw [hknown]
  cases hcheck : onlyNamed entries names with
  | ok u => exact iff_of_true rfl fun issue => not_reports_ok
  | error issues =>
      refine iff_of_false (by simp) fun h => ?_
      obtain ⟨issue, hissue⟩ := exists_reports hcheck
      exact h issue (hcheck ▸ hissue)

/-- A key that is a name is no broken text. -/
theorem hasBrokenKey_of_onlyNamed (h : OnlyNamed names entries) :
    Document.hasBrokenKey entries = false := by
  unfold Document.hasBrokenKey
  rw [List.any_eq_false]
  intro entry hentry
  obtain ⟨name, -, hname⟩ := h entry hentry
  simp [hname, Document.isSameKey, Document.wholeNumber?]

-- ================================================================= the laws

private theorem modelOf_of_brokenKey {fields : Fields α}
    (h : Document.hasBrokenKey entries = true) :
    modelOf fields (.mapping entries) = rejected "string_unicode" := by
  rw [modelOf, if_pos h]

private theorem modelOf_of_not_brokenKey {fields : Fields α}
    (h : Document.hasBrokenKey entries = false) :
    modelOf fields (.mapping entries)
      = (both (readFields entries fields)
          (onlyNamed entries fields.names)).map Prod.fst := by
  rw [modelOf, h]
  rfl

/-- A model is accepted if its fields and its keys are. A broken key is a
strange one too, so it needs no case of its own. -/
theorem modelOf_eq_ok_iff {fields : Fields α} {a : α} :
    modelOf fields (.mapping entries) = .ok a
      ↔ OnlyNamed fields.names entries ∧ fields.Accepts entries a := by
  cases hkeys : Document.hasBrokenKey entries with
  | true =>
      rw [modelOf_of_brokenKey hkeys]
      refine iff_of_false (by simp [rejected]) fun h => ?_
      rw [hasBrokenKey_of_onlyNamed h.1] at hkeys
      cases hkeys
  | false =>
      have hmap : ∀ check : Checked (α × Unit),
          check.map Prod.fst = .ok a ↔ check = .ok (a, ()) := by
        intro check
        cases check with
        | ok pair => simp [Except.map, Prod.ext_iff]
        | error issues => simp [Except.map]
      rw [modelOf_of_not_brokenKey hkeys, hmap, both_eq_ok_iff,
        readFields_eq_ok_iff, onlyNamed_eq_ok_iff, and_comm]

/-- The validation that runs is a lawful one. -/
theorem lawful_standard : standard.Lawful where
  integer_above h := (wholeAbove_eq_ok_iff.mp h).2
  integer_int h := wholeAbove_eq_ok_iff.mpr ⟨rfl, h⟩
  choice_accepts h := named_eq_ok_iff h
  model_of_not_mapping {α fields d} h := by
    cases d with
    | mapping entries => exact absurd rfl (h entries)
    | _ => rfl
  model_of_brokenKey h := modelOf_of_brokenKey h
  model_accepts := modelOf_eq_ok_iff
  model_reports {α fields entries issue} hkeys := by
    show Reports (modelOf fields (.mapping entries)) issue ↔ _
    rw [modelOf_of_not_brokenKey hkeys, reports_map_iff, reports_both_iff,
      reports_readFields_iff, reports_onlyNamed_iff]
    rfl
  unknownKey_text name := rfl
  unknownKey_of_not_text {key} h := by
    cases key with
    | text name => exact absurd rfl (h name)
    | _ => rfl

end Reckoner.Validation

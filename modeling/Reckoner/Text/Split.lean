/-
Splitting texts at separators.

Main facts: a text without separators is its only group
(`splitOn_of_not_mem`), the groups before and after a separator are those
of the whole (`splitOn_append`), and a text is divided at its first
separator (`splitFirst_append`).
-/
namespace Reckoner.Text

/-- The groups of a text that a separator divides; one more than there
are separators. -/
def splitOn (separator : Char) : List Char → List (List Char)
  | [] => [[]]
  | c :: rest =>
      match splitOn separator rest with
      | [] => [[]]
      | group :: more =>
          if c = separator then [] :: group :: more else (c :: group) :: more

/-- What comes before the first separator and, if there is one, what
comes after it. -/
def splitFirst (separator : Char) : List Char → List Char × Option (List Char)
  | [] => ([], none)
  | c :: rest =>
      if c = separator then ([], some rest)
      else
        let (before, after) := splitFirst separator rest
        (c :: before, after)

/-- A text without separators is its only group. -/
theorem splitOn_of_not_mem {separator : Char} {cs : List Char}
    (h : separator ∉ cs) : splitOn separator cs = [cs] := by
  induction cs with
  | nil => rfl
  | cons c rest ih =>
      rw [List.mem_cons, not_or] at h
      have hc : c ≠ separator := fun heq => h.1 heq.symm
      simp [splitOn, ih h.2, hc]

/-- The groups before a separator and those after it are those of the whole
text. -/
theorem splitOn_append (separator : Char) (before after : List Char) :
    splitOn separator (before ++ separator :: after)
      = splitOn separator before ++ splitOn separator after := by
  have hsome : ∀ cs, splitOn separator cs ≠ [] := by
    intro cs
    cases cs with
    | nil => simp [splitOn]
    | cons c rest =>
        rw [splitOn]
        split
        · simp
        · split <;> simp
  induction before with
  | nil =>
      cases hafter : splitOn separator after with
      | nil => exact absurd hafter (hsome after)
      | cons group more => simp [splitOn, hafter]
  | cons c rest ih =>
      rw [List.cons_append, splitOn, splitOn, ih]
      cases hrest : splitOn separator rest with
      | nil => exact absurd hrest (hsome rest)
      | cons group more =>
          rw [List.cons_append]
          dsimp only
          split <;> rfl

/-- A text is divided at its first separator. -/
theorem splitFirst_append {separator : Char} {before : List Char}
    (h : separator ∉ before) (after : List Char) :
    splitFirst separator (before ++ separator :: after)
      = (before, some after) := by
  induction before with
  | nil => simp [splitFirst]
  | cons c rest ih =>
      rw [List.mem_cons, not_or] at h
      have hc : c ≠ separator := fun heq => h.1 heq.symm
      simp [splitFirst, ih h.2, hc]

end Reckoner.Text

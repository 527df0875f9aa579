/-
Blank characters: which characters an expression ignores, and what a
setting, an answer or a command-line value loses at its two ends.

The class is the Unicode white space together with the four information
separators U+001C to U+001F. The invisible characters U+180E, U+200B,
U+2060 and U+FEFF are not in it, so an expression that holds one of them
is refused and not silently cleaned.

Main fact: a list with nothing to drop is its own trimmed form
(`trimBoth_of_none`).
-/
namespace Reckoner.Text

-- ============================================================ the class

/-- Characters that stand between lexemes and count for nothing. -/
def isBlank (c : Char) : Bool :=
  let n := c.toNat
  (0x09 ≤ n && n ≤ 0x0D) || (0x1C ≤ n && n ≤ 0x20) || n == 0x85 || n == 0xA0
    || n == 0x1680 || (0x2000 ≤ n && n ≤ 0x200A) || n == 0x2028 || n == 0x2029
    || n == 0x202F || n == 0x205F || n == 0x3000

/-- Unicode's own `White_Space` property: the blanks without the four
information separators. Numbers written as text are trimmed by this
narrower class. -/
def isWhiteSpace (c : Char) : Bool :=
  isBlank c && !(0x1C ≤ c.toNat && c.toNat ≤ 0x1F)

-- ============================================================= trimming

/-- What is left when the characters that `drop` accepts are taken off
both ends. -/
def trimBoth (drop : Char → Bool) (cs : List Char) : List Char :=
  ((cs.dropWhile drop).reverse.dropWhile drop).reverse

/-- A text without the blanks at its ends. -/
def strip (s : String) : String :=
  String.ofList (trimBoth isBlank s.toList)

/-- Nothing is dropped from the front of a list that has nothing to
drop. -/
private theorem dropWhile_of_none {drop : Char → Bool} {cs : List Char}
    (h : ∀ c ∈ cs, drop c = false) : cs.dropWhile drop = cs := by
  cases cs with
  | nil => rfl
  | cons c rest => simp [List.dropWhile, h c (List.mem_cons_self ..)]

/-- A list that has nothing to drop is left as it is. -/
theorem trimBoth_of_none {drop : Char → Bool} {cs : List Char}
    (h : ∀ c ∈ cs, drop c = false) : trimBoth drop cs = cs := by
  unfold trimBoth
  rw [dropWhile_of_none h, dropWhile_of_none, List.reverse_reverse]
  intro c hc
  exact h c (List.mem_reverse.mp hc)

end Reckoner.Text

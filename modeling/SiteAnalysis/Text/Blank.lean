/-! # Blank characters

The characters that separate arguments and that trimming removes: the property `White_Space`
of the Unicode character database.
-/

namespace SiteAnalysis

/-- **Blank characters.** -/
def isBlank (c : Char) : Bool :=
  let n := c.toNat
  (9 ≤ n && n ≤ 13) || n == 32 || n == 0x85 || n == 0xA0 || n == 0x1680 ||
    (0x2000 ≤ n && n ≤ 0x200A) || n == 0x2028 || n == 0x2029 || n == 0x202F || n == 0x205F ||
    n == 0x3000

/-- The blanks of `Char.isWhitespace` are blank. -/
theorem isBlank_of_isWhitespace {c : Char} (h : c.isWhitespace = true) : isBlank c = true := by
  simp only [Char.isWhitespace, Bool.or_eq_true, decide_eq_true_eq] at h
  rcases h with ((rfl | rfl) | rfl) | rfl <;> decide

/-- Removes blanks at both ends. -/
def trimBlanks (cs : List Char) : List Char :=
  ((cs.dropWhile isBlank).reverse.dropWhile isBlank).reverse

/-- Removes blanks at both ends of a text. -/
def trim (s : String) : String := String.ofList (trimBlanks s.toList)

/-! ## Trimmed texts -/

/-- Whether a text neither starts nor ends with a blank. -/
def IsTrimmed (cs : List Char) : Prop :=
  (∀ c ∈ cs.head?, isBlank c = false) ∧ ∀ c ∈ cs.getLast?, isBlank c = false

theorem head?_dropWhile_stop {p : Char → Bool} (cs : List Char) :
    ∀ c ∈ (cs.dropWhile p).head?, p c = false := by
  intro c hc
  have hnot := List.head?_dropWhile_not p cs
  rw [Option.mem_def.1 hc] at hnot
  simpa using hnot

theorem dropWhile_of_head? {p : Char → Bool} {cs : List Char} (h : ∀ c ∈ cs.head?, p c = false) :
    cs.dropWhile p = cs := by
  cases cs with
  | nil => rfl
  | cons c cs => simp [h c rfl]

theorem trimBlanks_of_isTrimmed {cs : List Char} (h : IsTrimmed cs) : trimBlanks cs = cs := by
  rw [trimBlanks, dropWhile_of_head? h.1, dropWhile_of_head?, List.reverse_reverse]
  simpa using h.2

theorem isTrimmed_trimBlanks (cs : List Char) : IsTrimmed (trimBlanks cs) := by
  constructor
  · intro c hc
    -- What is left starts where the blanks at the front ended.
    have hprefix : trimBlanks cs <+: cs.dropWhile isBlank := by
      rw [← List.reverse_suffix, trimBlanks, List.reverse_reverse]
      exact List.dropWhile_suffix _
    obtain ⟨tail, htail⟩ := hprefix
    refine head?_dropWhile_stop cs c ?_
    rw [← htail, List.head?_append, Option.mem_def.1 hc]
    rfl
  · rw [trimBlanks, List.getLast?_reverse]
    exact head?_dropWhile_stop _

/-- Trimming once is enough. -/
theorem trim_trim (s : String) : trim (trim s) = trim s := by
  simp [trim, trimBlanks_of_isTrimmed (isTrimmed_trimBlanks _)]

end SiteAnalysis

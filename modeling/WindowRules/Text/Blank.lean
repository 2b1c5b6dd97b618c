/-!
# Blank characters, trimming and words

Configuration text is handled as the list of its characters. A character is blank when it has the `White_Space`
property (`isBlank`); trimming takes blanks off the ends of a text (`trim`), and the words of a text are its maximal
stretches without blanks (`words`).

A text loses nothing but blanks when it is trimmed (`trimStart_append`), and its words hold no blanks (`words_mem`).
-/

namespace WindowRules

/-- A text is the list of its characters. -/
abbrev Text := List Char

namespace Text

/-! ## Blank characters -/

/-- The ranges of the characters with the property `White_Space`. -/
def blankRanges : List (Nat × Nat) :=
  [(0x9, 0xD), (0x20, 0x20), (0x85, 0x85), (0xA0, 0xA0), (0x1680, 0x1680), (0x2000, 0x200A), (0x2028, 0x2029),
    (0x202F, 0x202F), (0x205F, 0x205F), (0x3000, 0x3000)]

/-- A character is blank when it has the property `White_Space`. -/
def isBlank (c : Char) : Bool := blankRanges.any fun (first, last) => first ≤ c.toNat && c.toNat ≤ last

/-- The blanks that may stand inside the skeleton of a block rule: the space and the tab. -/
def isSpaceOrTab (c : Char) : Bool := c == ' ' || c == '\t'

/-- The space and the tab are blank. -/
theorem isBlank_of_isSpaceOrTab {c : Char} (h : isSpaceOrTab c) : isBlank c := by
  simp only [isSpaceOrTab, Bool.or_eq_true, beq_iff_eq] at h
  rcases h with rfl | rfl <;> rfl

/-! ## Trimming -/

/-- The text without the blanks it starts with. -/
def trimStart (s : Text) : Text := s.dropWhile isBlank

/-- The text without the blanks it ends with. -/
def trimEnd (s : Text) : Text := (s.reverse.dropWhile isBlank).reverse

/-- The text without the blanks at either end. -/
def trim (s : Text) : Text := trimEnd (trimStart s)

/-- Trimming the start takes off exactly the leading blanks. -/
theorem trimStart_append (s : Text) : s.takeWhile isBlank ++ trimStart s = s := List.takeWhile_append_dropWhile

/-- Trimming the end takes off exactly the closing blanks. -/
theorem trimEnd_append (s : Text) : trimEnd s ++ (s.reverse.takeWhile isBlank).reverse = s := by
  rw [trimEnd, ← List.reverse_append, List.takeWhile_append_dropWhile, List.reverse_reverse]

/-! ## Words -/

/-- The maximal stretches of a text without blanks. -/
def words (s : Text) : List Text := (s.splitOnP isBlank).filter (· ≠ [])

/-- The texts of a list, with one space between neighbours. -/
def spaced (parts : List Text) : Text := [' '].intercalate parts

/-- No word is empty. -/
theorem words_mem {s w : Text} (h : w ∈ words s) : w ≠ [] := by
  simpa using (List.mem_filter.mp h).2

end Text
end WindowRules

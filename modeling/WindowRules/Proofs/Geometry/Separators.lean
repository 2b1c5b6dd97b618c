import WindowRules.Proofs.Geometry.Expressions

/-!
# Separators of expressions

Only a coordinate that is kept on the monitor depends on the dialect, which writes the commas between the arguments of
its expression. With these commas bare again the two expressions are the same, unless the coordinate ends with a
backslash: a block writes a comma behind it, which is then taken for an escaped one
(`Position.unescape_coordinate_eq_iff`).
-/

namespace WindowRules

open Text

namespace Comma

theorem unescape_append_backslash (s t : Text) : unescape (s ++ '\\' :: ',' :: t) = unescape s ++ ',' :: unescape t := by
  rw [unescape_append fun _ => by simp, unescape]

theorem unescape_append_comma {s : Text} (h : s.getLast? ≠ some '\\') (t : Text) :
    unescape (s ++ ',' :: t) = unescape s ++ ',' :: unescape t := by
  rw [unescape_append fun hs => absurd hs h, unescape_cons fun hc => by cases hc]

/-- A comma is the same with and without a backslash of its own, unless another backslash stands before it. -/
theorem unescape_comma_eq_iff {s t u : Text} (h : unescape t = unescape u) :
    unescape (s ++ ',' :: t) = unescape (s ++ '\\' :: ',' :: u) ↔ s.getLast? ≠ some '\\' := by
  refine ⟨fun he hs => ?_, fun hs => by rw [unescape_append_comma hs, unescape_append_backslash, h]⟩
  obtain ⟨rest, rfl⟩ := List.getLast?_eq_some_iff.mp hs
  have hlast : unescape (rest ++ ['\\']) = unescape rest ++ ['\\'] := unescape_append fun _ => by simp
  rw [List.append_assoc, List.singleton_append, unescape_append_backslash, unescape_append_backslash, hlast, h] at he
  have hlength := congrArg List.length he
  simp at hlength

end Comma

/-- Texts with a mark between them end with another character exactly if the last one does. -/
theorem getLast?_intercalate_iff {sep c : Char} (h : c ≠ sep) {parts : List Text} :
    ([sep].intercalate parts).getLast? = some c ↔ ∃ part ∈ parts.getLast?, part.getLast? = some c := by
  induction parts with
  | nil => simp
  | cons part parts ih =>
    cases parts with
    | nil => simp
    | cons next parts =>
      rw [List.intercalate_cons_cons, List.getLast?_cons_cons, ← ih, List.append_assoc, List.getLast?_append]
      cases hrest : [sep].intercalate (next :: parts) with
      | nil => simpa using Ne.symm h
      | cons d rest => simp [List.getLast?_cons]

namespace Position

/-- An operand ends with a backslash exactly if its expression does. -/
theorem getLast?_operand_iff (axis : Axis) {s : Text} (htrim : trim s = s) :
    (operand axis s).getLast? = some '\\' ↔ s.getLast? = some '\\' := by
  unfold operand
  simp only [htrim]
  split
  · next hw =>
    rw [hw]
    cases axis <;> decide
  · unfold Axis.shareOrSame Axis.share?
    cases hs : stripSuffix? '%' s with
    | none => rfl
    | some number =>
      rw [Option.map_some, Option.getD_some, stripSuffix?_eq_some_iff.mp hs, List.getLast?_concat, List.getLast?_concat]
      decide

theorem getLast?_difference_iff (axis : Axis) {s : Text} (h : ∀ c ∈ s, isBlank c = false) :
    (difference axis s).getLast? = some '\\' ↔ s.getLast? = some '\\' := by
  have hparts : ∀ part ∈ s.splitOn '-', trim part = part := fun part hp =>
    trim_of_not_isBlank fun c hc => h c (subset_of_mem_splitOnP hp hc)
  have hs : ['-'].intercalate (s.splitOn '-') = s := List.intercalate_splitOn '-'
  conv_rhs => rw [← hs]
  rw [difference, getLast?_intercalate_iff (by decide), getLast?_intercalate_iff (by decide), List.getLast?_map]
  cases hlast : (s.splitOn '-').getLast? with
  | none => simp
  | some part => simpa using getLast?_operand_iff axis (hparts part (List.mem_of_getLast? hlast))

/-- The dialect writes a comma at two places of a clamped expression: behind the text and behind a parenthesis. -/
theorem exists_clamped_eq (axis : Axis) (s : Text) : ∃ opening middle closing : Text,
    opening.getLast? = some '(' ∧ middle.getLast? = some ')' ∧ ∀ dialect, clamped dialect axis s =
      opening ++ s ++ (dialect.separator ++ (middle ++ (dialect.separator ++ closing))) := by
  refine ⟨"min(max(".toList, "0)".toList, axis.monitor ++ ('-' :: axis.window ++ [')']), by decide, by decide,
    fun dialect => ?_⟩
  unfold clamped
  generalize "min(max(".toList = opening
  generalize "0)".toList = middle
  simp only [List.append_assoc]

/-- A coordinate that is kept on the monitor has the two places, too. -/
theorem exists_coordinate_eq (cursor : Bool) (axis : Axis) (s : Text) : ∃ opening middle closing : Text,
    opening.getLast? = some '(' ∧ middle.getLast? = some ')' ∧ ∀ dialect, coordinate dialect ⟨cursor, true⟩ axis s =
      opening ++ difference axis (trim s) ++ (dialect.separator ++ (middle ++ (dialect.separator ++ closing))) := by
  obtain ⟨opening, middle, closing, hopening, hmiddle, hclamped⟩ := exists_clamped_eq axis (difference axis (trim s))
  have hfront : ∀ front : Text, (front ++ opening).getLast? = some '(' := fun front => by
    rw [List.getLast?_append, hopening]
    rfl
  cases cursor with
  | false =>
    refine ⟨['('] ++ opening, middle, closing ++ [')'], hfront ['('], hmiddle, fun dialect => ?_⟩
    have hcoordinate : coordinate dialect ⟨false, true⟩ axis s =
        '(' :: clamped dialect axis (difference axis (trim s)) ++ [')'] := rfl
    rw [hcoordinate, hclamped]
    simp only [List.append_assoc, List.cons_append, List.nil_append]
  | true =>
    refine ⟨'(' :: axis.cursor ++ "+(".toList ++ opening, middle, closing ++ [')', ')'], hfront _, hmiddle,
      fun dialect => ?_⟩
    have hcoordinate : coordinate dialect ⟨true, true⟩ axis s =
        '(' :: fromCursor axis (clamped dialect axis (difference axis (trim s))) ++ [')'] := rfl
    rw [hcoordinate, hclamped, fromCursor]
    simp only [List.append_assoc, List.cons_append, List.nil_append]

/-- **A coordinate is the same for both dialects**, up to the commas, unless it is kept on the monitor and ends with a
backslash. -/
theorem unescape_coordinate_eq_iff (modifiers : Modifiers) (axis : Axis) {s : Text} (h : ∀ c ∈ s, isBlank c = false) :
    Comma.unescape (coordinate .block modifiers axis s) = Comma.unescape (coordinate .inline modifiers axis s) ↔
      ¬(modifiers.onscreen = true ∧ s.getLast? = some '\\') := by
  obtain ⟨cursor, onscreen⟩ := modifiers
  cases onscreen with
  | false =>
    -- without a comma of its own the expression is the same
    have hsame : coordinate .block ⟨cursor, false⟩ axis s = coordinate .inline ⟨cursor, false⟩ axis s := by
      simp only [coordinate, Bool.false_eq_true, if_false]
    simp [hsame]
  | true =>
    obtain ⟨opening, middle, closing, hopening, hmiddle, hcoordinate⟩ := exists_coordinate_eq cursor axis s
    have hlast : (opening ++ difference axis (trim s)).getLast? = some '\\' ↔ s.getLast? = some '\\' := by
      rw [trim_of_not_isBlank h, ← getLast?_difference_iff axis h, List.getLast?_append, hopening]
      cases (difference axis s).getLast? with
      | none => decide
      | some c => rfl
    have hback : middle.getLast? ≠ some '\\' := by
      rw [hmiddle]
      decide
    have hblock : Dialect.block.separator = [','] := rfl
    have hinline : Dialect.inline.separator = ['\\', ','] := rfl
    rw [hcoordinate, hcoordinate, hblock, hinline, and_iff_right rfl, ← hlast]
    exact Comma.unescape_comma_eq_iff ((Comma.unescape_comma_eq_iff (t := closing) rfl).mpr hback)

/-- The arguments of a move become the same for both dialects, up to the commas, unless they keep the window on the
monitor and a coordinate ends with a backslash. -/
theorem unescape_read_eq_iff {arguments : List Text} (h : ∀ s ∈ arguments, ∀ c ∈ s, isBlank c = false) :
    Comma.unescape (spaced (read .block arguments)) = Comma.unescape (spaced (read .inline arguments)) ↔
      ¬(onscreenWord ∈ arguments ∧ ∃ s ∈ coordinates arguments, s.getLast? = some '\\') := by
  have hcoordinates : ∀ s ∈ coordinates arguments, ∀ c ∈ s, isBlank c = false := fun s hs => h s (List.mem_filter.mp hs).1
  have honscreen : (Modifiers.of arguments).onscreen = true ↔ onscreenWord ∈ arguments := by simp [Modifiers.of]
  -- the words of the two values are compared one by one
  have hwords : ∀ dialect, words (Comma.unescape (spaced (read dialect arguments))) =
      (read dialect arguments).map Comma.unescape := by
    intro dialect
    have hname := isName_of_mem_read dialect h
    exact Dialect.block.words_encode_spaced (fun s hs => (hname s hs).ne_nil) fun s hs => (hname s hs).blank
  constructor
  · rintro heq ⟨hon, s, hs, hback⟩
    have hmap := congrArg words heq
    rw [hwords, hwords, read, read, Axis.map_distribute, Axis.map_distribute] at hmap
    obtain ⟨axis, haxis⟩ := Axis.exists_eq_of_distribute hmap hs
    exact (unescape_coordinate_eq_iff _ axis (hcoordinates s hs)).mp haxis ⟨honscreen.mpr hon, hback⟩
  · intro hnot
    have hmap : (read .block arguments).map Comma.unescape = (read .inline arguments).map Comma.unescape := by
      rw [read, read, Axis.map_distribute, Axis.map_distribute]
      refine Axis.distribute_congr fun axis s hs => (unescape_coordinate_eq_iff _ axis (hcoordinates s hs)).mpr ?_
      exact fun hon => hnot ⟨honscreen.mp hon.1, s, hs, hon.2⟩
    have hblock := Dialect.block.encode_spaced (read .block arguments)
    have hinline := Dialect.block.encode_spaced (read .inline arguments)
    rw [Dialect.encode] at hblock hinline
    rw [hblock, hinline, hmap]

end Position
end WindowRules

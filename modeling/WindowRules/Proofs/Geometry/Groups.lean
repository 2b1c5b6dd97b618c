import WindowRules.Proofs.Geometry.Expressions

/-!
# Coordinates that are read again

The arguments of a move stay as they are when they are read again for a line exactly if each of them is one group
(`Position.map_escape_read_eq_iff`). Groups are left alone. Another argument gets parentheses around it, and it is not
the same afterwards, although the expression inside them may be shorter than the argument was: the piece behind its last
dash is kept and gets the closing parenthesis (`Position.escape_coordinate_ne`). Coordinates without parentheses become
groups (`Position.isGroup_of_mem_read`).
-/

namespace WindowRules

open Text

/-! ## Escaped groups -/

namespace Comma

theorem length_le_length_escape (s : Text) : s.length ≤ (escape s).length := by
  fun_induction escape s with
  | case1 => exact Nat.le_refl 0
  | case2 s ih => simpa using ih
  | case3 s ih =>
    rw [List.length_cons, List.length_cons, List.length_cons]
    omega
  | case4 c s _ _ ih => simpa using ih

end Comma

namespace Position

theorem closesAtEnd_escape (depth : Nat) (s : Text) : closesAtEnd depth (Comma.escape s) = closesAtEnd depth s := by
  have hempty : ∀ s : Text, (Comma.escape s).isEmpty = s.isEmpty := fun s => by
    rw [Bool.eq_iff_iff, List.isEmpty_iff, List.isEmpty_iff]
    exact Dialect.inline.encode_eq_nil_iff
  fun_induction Comma.escape s generalizing depth with
  | case1 => rfl
  | case2 s ih => simp [closesAtEnd, ih]
  | case3 s ih => simp [closesAtEnd, ih]
  | case4 c s hback hcomma ih => simp only [closesAtEnd, ih, hempty]

/-- Escaping brings in no parenthesis, so it makes no group and breaks none. -/
theorem isGroup_escape (s : Text) : isGroup (Comma.escape s) = isGroup s := by
  cases s with
  | nil => rfl
  | cons c s =>
    by_cases hopen : c = '('
    · rw [hopen, Comma.escape_cons (by decide) fun hc => by cases hc]
      exact closesAtEnd_escape 1 s
    · have hnone : ∀ {t : Text}, t.head? ≠ some '(' → isGroup t = false := by
        intro t ht
        unfold isGroup
        split
        · exact absurd rfl ht
        · rfl
      have hhead : (Comma.escape (c :: s)).head? ≠ some '(' := by
        rw [Comma.escape.eq_def]
        split <;> simp_all
      rw [hnone hhead, hnone (by simpa using hopen)]

/-! ## The last piece of a difference -/

theorem intercalate_append {sep : Text} {parts others : List Text} (hparts : parts ≠ []) (hothers : others ≠ []) :
    sep.intercalate (parts ++ others) = sep.intercalate parts ++ sep ++ sep.intercalate others := by
  induction parts with
  | nil => exact absurd rfl hparts
  | cons part parts ih =>
    cases parts with
    | nil =>
      cases others with
      | nil => exact absurd rfl hothers
      | cons other others => simp [List.intercalate_cons_cons]
    | cons next parts =>
      rw [List.cons_append, List.cons_append, List.intercalate_cons_cons, ← List.cons_append,
        ih (List.cons_ne_nil next parts), List.intercalate_cons_cons]
      simp only [List.append_assoc]

theorem difference_append (axis : Axis) (s t : Text) :
    difference axis (s ++ '-' :: t) = difference axis s ++ '-' :: difference axis t := by
  have hne : ∀ s : Text, (s.splitOn '-').map (operand axis) ≠ [] := fun s =>
    List.map_eq_nil_iff.not.mpr (List.splitOn_ne_nil '-' s)
  rw [difference, List.splitOn_append_cons_self, List.map_append, intercalate_append (hne s) (hne t), List.append_assoc]
  rfl

/-- A piece that ends with a parenthesis is kept. -/
theorem difference_of_not_mem (axis : Axis) {s : Text} (h : '-' ∉ s) (hblank : ∀ c ∈ s, isBlank c = false)
    (hlast : s.getLast? = some ')') : difference axis s = s := by
  have hnone : axis.share? s = none := by
    rw [Axis.share?_eq_none_iff]
    rintro rest rfl
    rw [List.getLast?_concat] at hlast
    cases hlast
  have hword : s ≠ ['w'] := by
    rintro rfl
    cases hlast
  rw [difference, List.splitOn_eq_singleton h, List.map_singleton, List.intercalate_singleton, operand,
    trim_of_not_isBlank hblank]
  simp only [if_neg hword, Axis.shareOrSame, hnone, Option.getD_none]

/-- The text behind the last dash is determined. -/
theorem append_dash_inj {s t u v : Text} (ht : '-' ∉ t) (hv : '-' ∉ v) (h : s ++ '-' :: t = u ++ '-' :: v) : t = v := by
  have hpiece : ∀ s : Text, ∀ {t : Text}, '-' ∉ t → (s ++ '-' :: t).reverse.takeWhile (· != '-') = t.reverse := by
    intro s t ht
    have hkept : ∀ c ∈ t.reverse, (c != '-') = true := by
      intro c hc
      rw [bne_iff_ne]
      rintro rfl
      exact ht (List.mem_reverse.mp hc)
    rw [List.reverse_append, List.reverse_cons, List.append_assoc, List.takeWhile_append_of_pos hkept]
    simp
  have hreverse := congrArg (fun text : Text => text.reverse.takeWhile (· != '-')) h
  simp only [hpiece s ht, hpiece u hv] at hreverse
  exact List.reverse_inj.mp hreverse

theorem exists_last_dash {s : Text} (h : '-' ∈ s) : ∃ before after, s = before ++ '-' :: after ∧ '-' ∉ after := by
  obtain ⟨after, before, he, hnot⟩ := List.eq_append_cons_of_mem (List.mem_reverse.mpr h)
  refine ⟨before.reverse, after.reverse, ?_, fun hm => hnot (List.mem_reverse.mp hm)⟩
  rw [← List.reverse_reverse s, he]
  simp

/-- **What is not a group changes when it is read again.** -/
theorem escape_coordinate_ne (dialect : Dialect) (axis : Axis) {s : Text} (hblank : ∀ c ∈ s, isBlank c = false)
    (h : isGroup s = false) : Comma.escape (coordinate dialect ⟨false, false⟩ axis s) ≠ s := by
  have hwrapped : coordinate dialect ⟨false, false⟩ axis s = '(' :: difference axis s ++ [')'] := by
    simp [coordinate, trim_of_not_isBlank hblank, h]
  have hescape : ∀ {c : Char}, c ≠ ',' → c ≠ '\\' → ∀ s t : Text,
      Comma.escape (s ++ c :: t) = Comma.escape s ++ c :: Comma.escape t := Dialect.inline.encode_append_cons
  rw [hwrapped]
  intro he
  have hlast : s.getLast? = some ')' := by
    rw [← he, hescape (by decide) (by decide)]
    exact List.getLast?_concat
  by_cases hdash : '-' ∈ s
  · obtain ⟨before, after, rfl, hafter⟩ := exists_last_dash hdash
    have hend : after.getLast? = some ')' := by
      rw [List.getLast?_append_of_ne_nil _ (List.cons_ne_nil '-' after)] at hlast
      cases after with
      | nil => cases hlast
      | cons c after => simpa using hlast
    have hkept := difference_of_not_mem axis hafter (fun c hc => hblank c (by simp [hc])) hend
    -- the piece behind the last dash would be itself and a parenthesis more
    have hgrown : '(' :: (difference axis before ++ '-' :: after) ++ [')'] =
        '(' :: difference axis before ++ '-' :: (after ++ [')']) := by simp
    have hdashes : '-' ∉ Comma.escape (after ++ [')']) := by
      intro hm
      have hsubset := Comma.escape_subset _ hm
      simp [hafter] at hsubset
    rw [difference_append, hkept, hgrown, hescape (by decide) (by decide)] at he
    have hlength := congrArg List.length (append_dash_inj hdashes hafter he)
    have hle := Comma.length_le_length_escape (after ++ [')'])
    rw [hlength, List.length_append, List.length_singleton] at hle
    omega
  · rw [difference_of_not_mem axis hdash hblank hlast] at he
    have hle := Comma.length_le_length_escape ('(' :: s ++ [')'])
    rw [he, List.length_append, List.length_cons] at hle
    omega

theorem modifiers_of_coordinates {arguments : List Text} (h : coordinates arguments = arguments) :
    Modifiers.of arguments = ⟨false, false⟩ := by
  have hne : ∀ s ∈ arguments, s ≠ cursorWord ∧ s ≠ onscreenWord := by
    simpa using List.filter_eq_self.mp h
  have hcursor : cursorWord ∉ arguments := fun hm => (hne _ hm).1 rfl
  have honscreen : onscreenWord ∉ arguments := fun hm => (hne _ hm).2 rfl
  simp [Modifiers.of, hcursor, honscreen]

/-- Arguments that begin with a parenthesis are no modifiers. -/
theorem coordinates_of_head? {arguments : List Text} (h : ∀ s ∈ arguments, s.head? = some '(') :
    coordinates arguments = arguments := by
  refine List.filter_eq_self.mpr fun s hs => ?_
  have hhead := h s hs
  have hcursor : s ≠ cursorWord := by
    rintro rfl
    exact absurd hhead (by decide)
  have honscreen : s ≠ onscreenWord := by
    rintro rfl
    exact absurd hhead (by decide)
  simp [hcursor, honscreen]

/-- **Arguments stay as they are exactly if each of them is one group**, if they begin with a parenthesis and have their
commas escaped. -/
theorem map_escape_read_eq_iff {arguments : List Text} (hblank : ∀ s ∈ arguments, ∀ c ∈ s, isBlank c = false)
    (hhead : ∀ s ∈ arguments, s.head? = some '(') (hescaped : ∀ s ∈ arguments, Comma.escape s = s) :
    (read .inline arguments).map Comma.escape = arguments ↔ ∀ s ∈ arguments, isGroup s = true := by
  have hcoordinates := coordinates_of_head? hhead
  have hself : Axis.distribute (fun _ s => s) arguments = arguments := Axis.distribute_eq_self fun _ _ _ => rfl
  rw [read, modifiers_of_coordinates hcoordinates, hcoordinates, Axis.map_distribute]
  constructor
  · intro he s hs
    obtain ⟨axis, haxis⟩ := Axis.exists_eq_of_distribute (he.trans hself.symm) hs
    by_contra hgroup
    exact escape_coordinate_ne .inline axis (hblank s hs) (Bool.eq_false_iff.mpr hgroup) haxis
  · intro hgroup
    refine Axis.distribute_eq_self fun axis s hs => ?_
    have hkept : coordinate .inline ⟨false, false⟩ axis s = s := by
      simp [coordinate, trim_of_not_isBlank (hblank s hs), hgroup s hs]
    rw [hkept, hescaped s hs]

/-- **Level coordinates become groups**: those without parentheses, and groups where no modifier stands. -/
theorem isGroup_of_mem_read (dialect : Dialect) {arguments : List Text}
    (hblank : ∀ s ∈ arguments, ∀ c ∈ s, isBlank c = false) (h : ∀ s ∈ coordinates arguments,
      ('(' ∉ s ∧ ')' ∉ s) ∨ isGroup s = true ∧ coordinates arguments = arguments) :
    ∀ value ∈ read dialect arguments, isGroup value = true := by
  intro value hv
  obtain ⟨axis, s, hs, rfl⟩ := Axis.exists_of_mem_distribute hv
  refine isGroup_coordinate dialect axis ((h s hs).imp id fun ⟨hgroup, hcoordinates⟩ => ?_)
  have htrim : trim s = s := trim_of_not_isBlank (hblank s (List.mem_filter.mp hs).1)
  exact ⟨modifiers_of_coordinates hcoordinates, htrim.symm ▸ hgroup⟩

end Position
end WindowRules

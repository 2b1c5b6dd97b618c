import WindowRules.Proofs.Encoding.Words
import WindowRules.Proofs.Writing.Inline

/-!
# Expressions of sizes and positions

What is read from the arguments of a size or a move are expressions without blanks (`Position.not_isBlank_coordinate`).
The parentheses that an expression brings along are level (`Position.IsLevel`): a scan of a group goes on behind a level
text at the depth it had before. So a coordinate without parentheses of its own becomes one group, under any modifiers
(`Position.isGroup_coordinate`).
-/

namespace WindowRules

open Text

/-! ## Expressions have no blanks -/

theorem forall_mem_intercalate {p : Char → Prop} {sep : Text} {parts : List Text} (hsep : ∀ c ∈ sep, p c)
    (h : ∀ part ∈ parts, ∀ c ∈ part, p c) : ∀ c ∈ sep.intercalate parts, p c := by
  induction parts with
  | nil => simp
  | cons part parts ih =>
    obtain ⟨hpart, hparts⟩ := List.forall_mem_cons.mp h
    cases parts with
    | nil => rwa [List.intercalate_singleton]
    | cons next parts =>
      rw [List.intercalate_cons_cons]
      exact List.forall_mem_append.mpr ⟨List.forall_mem_append.mpr ⟨hpart, hsep⟩, ih hparts⟩

namespace Decimal

/-- The characters of the texts of numbers. -/
def alphabet : Text := "0123456789.-NaNinf".toList

theorem digits_subset (n : Nat) : Nat.toDigits 10 n ⊆ alphabet := by
  have htable : ∀ d < 10, Char.ofNat (48 + d) ∈ alphabet := by
    unfold alphabet
    repeat rw [String.toList_ofList]
    decide
  intro c hc
  obtain ⟨hlow, hhigh⟩ := Char.isDigit_iff_toNat.mp (Nat.isDigit_of_mem_toDigits (by omega) (by omega) hc)
  have hlow : 48 ≤ c.toNat := hlow
  have hhigh : c.toNat ≤ 57 := hhigh
  have hdigit := htable (c.toNat - 48) (by omega)
  rwa [show 48 + (c.toNat - 48) = c.toNat by omega, Char.ofNat_toNat] at hdigit

theorem positional_subset (x : Decimal) : x.positional ⊆ alphabet := by
  have hdigits := digits_subset x.digits
  have hzeros : ∀ n, List.replicate n '0' ⊆ alphabet := by
    intro n c hc
    rw [List.eq_of_mem_replicate hc]
    decide
  have hpoint : '.' ∈ alphabet := by decide
  have hzero : '0' ∈ alphabet := by decide
  unfold positional
  simp only
  split
  · exact List.append_subset.mpr ⟨hdigits, hzeros _⟩
  · split
    · refine List.append_subset.mpr ⟨List.Subset.trans (List.take_subset _ _) hdigits, ?_⟩
      exact List.cons_subset.mpr ⟨hpoint, List.Subset.trans (List.drop_subset _ _) hdigits⟩
    · refine List.append_subset.mpr ⟨?_, hdigits⟩
      exact List.cons_subset.mpr ⟨hzero, List.cons_subset.mpr ⟨hpoint, hzeros _⟩⟩

theorem text_subset (x : Float) : text x ⊆ alphabet := by
  have hmagnitude : ∀ exponent fraction, magnitudeText exponent fraction ⊆ alphabet := by
    intro exponent fraction
    unfold magnitudeText
    split
    · decide
    · split
      · decide
      · split <;> exact positional_subset _
  unfold text
  simp only
  split
  · decide
  · split
    · exact List.cons_subset.mpr ⟨by decide, hmagnitude _ _⟩
    · exact hmagnitude _ _

/-- The text of a number has no blanks and no parentheses. -/
theorem not_mem_text (x : Float) : (∀ c ∈ text x, isBlank c = false) ∧ '(' ∉ text x ∧ ')' ∉ text x := by
  have halphabet : (∀ c ∈ alphabet, isBlank c = false) ∧ '(' ∉ alphabet ∧ ')' ∉ alphabet := by
    unfold alphabet
    repeat rw [String.toList_ofList]
    decide
  have hsubset := text_subset x
  exact ⟨fun c hc => halphabet.1 c (hsubset hc), fun hm => halphabet.2.1 (hsubset hm),
    fun hm => halphabet.2.2 (hsubset hm)⟩

end Decimal

namespace Axis

theorem exists_of_mem_distribute {rule : Axis → Text → Text} {texts : List Text} {value : Text}
    (h : value ∈ distribute rule texts) : ∃ axis, ∃ s ∈ texts, value = rule axis s := by
  cases texts with
  | nil => cases h
  | cons first others =>
    rcases List.mem_cons.mp h with rfl | h
    · exact ⟨_, first, List.mem_cons_self, rfl⟩
    · obtain ⟨s, hs, rfl⟩ := List.mem_map.mp h
      exact ⟨_, s, List.mem_cons_of_mem _ hs, rfl⟩

theorem exists_mem_distribute {rule : Axis → Text → Text} {texts : List Text} {s : Text} (h : s ∈ texts) :
    ∃ axis, rule axis s ∈ distribute rule texts := by
  cases texts with
  | nil => cases h
  | cons first others =>
    rcases List.mem_cons.mp h with rfl | h
    · exact ⟨.horizontal, List.mem_cons_self⟩
    · exact ⟨.vertical, List.mem_cons_of_mem _ (List.mem_map_of_mem h)⟩

theorem map_distribute {α β : Type} (f : α → β) (rule : Axis → Text → α) (texts : List Text) :
    (distribute rule texts).map f = distribute (fun axis s => f (rule axis s)) texts := by
  cases texts <;> simp [distribute, Function.comp_def]

/-- Two rules give the same only if they agree, for each text, along the axis that it lies on. -/
theorem exists_eq_of_distribute {rule other : Axis → Text → Text} {texts : List Text}
    (h : distribute rule texts = distribute other texts) {s : Text} (hs : s ∈ texts) :
    ∃ axis, rule axis s = other axis s := by
  cases texts with
  | nil => cases hs
  | cons first others =>
    obtain ⟨hfirst, hothers⟩ := List.cons.inj h
    rcases List.mem_cons.mp hs with rfl | hs
    · exact ⟨.horizontal, hfirst⟩
    · exact ⟨.vertical, List.map_inj_left.mp hothers s hs⟩

theorem distribute_congr {α : Type} {rule other : Axis → Text → α} {texts : List Text}
    (h : ∀ axis, ∀ s ∈ texts, rule axis s = other axis s) : distribute rule texts = distribute other texts := by
  cases texts with
  | nil => rfl
  | cons first others =>
    rw [distribute, distribute, h _ first List.mem_cons_self]
    exact congrArg _ (List.map_congr_left fun s hs => h _ s (List.mem_cons_of_mem _ hs))

theorem isIdentifier_monitor (axis : Axis) : axis.monitor.IsIdentifier := by cases axis <;> decide

theorem isIdentifier_window (axis : Axis) : axis.window.IsIdentifier := by cases axis <;> decide

theorem isIdentifier_cursor (axis : Axis) : axis.cursor.IsIdentifier := by cases axis <;> decide

theorem not_isBlank_shareOrSame (axis : Axis) {s : Text} (h : ∀ c ∈ s, isBlank c = false) :
    ∀ c ∈ axis.shareOrSame s, isBlank c = false := by
  unfold shareOrSame share?
  cases stripSuffix? '%' s with
  | none => exact h
  | some number =>
    have hnumber := (Decimal.not_mem_text (hundredth number)).1
    have hmonitor := axis.isIdentifier_monitor.not_isBlank
    simp only [Option.map_some, Option.getD_some, List.forall_mem_append, List.forall_mem_cons]
    exact ⟨⟨⟨by decide, hmonitor⟩, by decide, hnumber⟩, by decide, by simp⟩

theorem shareOrSame_eq_nil_iff {axis : Axis} {s : Text} : axis.shareOrSame s = [] ↔ s = [] := by
  unfold shareOrSame share?
  cases hs : stripSuffix? '%' s with
  | none => rfl
  | some number => simp [stripSuffix?_eq_some_iff.mp hs]

/-- What is written for an axis is no percentage. -/
theorem getLast?_shareOrSame_ne (axis : Axis) (s : Text) : (axis.shareOrSame s).getLast? ≠ some '%' := by
  unfold shareOrSame share?
  cases hs : stripSuffix? '%' s with
  | none =>
    intro hlast
    obtain ⟨rest, rfl⟩ := List.getLast?_eq_some_iff.mp hlast
    rw [stripSuffix?_eq_some_iff.mpr rfl] at hs
    cases hs
  | some number =>
    rw [Option.map_some, Option.getD_some, List.getLast?_concat]
    decide

end Axis

namespace Size

/-- The expression for an argument along an axis. -/
def value (axis : Axis) (argument : Text) : Text := axis.shareOrSame (mark (trim argument)).2

theorem values_read (arguments : List Text) : (read arguments).values = Axis.distribute value arguments := by
  cases arguments with
  | nil => rfl
  | cons first others =>
    simp only [read, List.map_cons, Axis.distribute, List.map_map]
    rfl

theorem mark_cases (s : Text) : (∃ c rest, (c = '>' ∨ c = '<') ∧ s = c :: rest ∧ (mark s).1 ≠ none ∧
    (mark s).1 ≠ some .exact ∧ (mark s).2 = rest) ∨ mark s = (none, s) ∧ s.head? ≠ some '>' ∧ s.head? ≠ some '<' := by
  unfold mark
  split
  · exact Or.inl ⟨_, _, Or.inl rfl, rfl, nofun, nofun, rfl⟩
  · exact Or.inl ⟨_, _, Or.inr rfl, rfl, nofun, nofun, rfl⟩
  · next hleast hgreatest =>
    refine Or.inr ⟨rfl, fun hs => ?_, fun hs => ?_⟩
    · obtain ⟨rest, rfl⟩ := List.head?_eq_some_iff.mp hs
      exact hleast rest rfl
    · obtain ⟨rest, rfl⟩ := List.head?_eq_some_iff.mp hs
      exact hgreatest rest rfl

theorem mark_subset (s : Text) : (mark s).2 ⊆ s := by
  rcases mark_cases s with ⟨c, rest, -, rfl, -, -, hrest⟩ | ⟨hmark, -, -⟩
  · rw [hrest]
    exact List.subset_cons_self c rest
  · rw [hmark]
    exact List.Subset.refl s

theorem not_isBlank_value (axis : Axis) {argument : Text} (h : ∀ c ∈ argument, isBlank c = false) :
    ∀ c ∈ value axis argument, isBlank c = false :=
  axis.not_isBlank_shareOrSame fun c hc => h c (trim_subset argument (mark_subset _ hc))

/-- Only a mark without a number leaves nothing. -/
theorem value_eq_nil_iff {axis : Axis} {argument : Text} (h : argument.IsName) :
    value axis argument = [] ↔ argument = ['>'] ∨ argument = ['<'] := by
  rw [value, Axis.shareOrSame_eq_nil_iff, trim_of_not_isBlank h.blank]
  rcases mark_cases argument with ⟨c, rest, hc, rfl, -, -, hrest⟩ | ⟨hmark, hleast, hgreatest⟩
  · rw [hrest, List.cons.injEq, List.cons.injEq, ← or_and_right, and_iff_right hc]
  · rw [hmark]
    refine iff_of_false h.ne_nil ?_
    rintro (rfl | rfl)
    · exact hleast rfl
    · exact hgreatest rfl

/-- A size is exact if no argument is marked. -/
theorem mark_of_exact {arguments : List Text} (h : (read arguments).bound = .exact) {argument : Text}
    (ha : argument ∈ arguments) : (mark (trim argument)).1 = none := by
  have hmarked : ∀ bound ∈ (arguments.map fun argument => mark (trim argument)).filterMap Prod.fst, bound ≠ .exact := by
    intro bound hb
    obtain ⟨marked, hm, hbound⟩ := List.mem_filterMap.mp hb
    obtain ⟨s, -, rfl⟩ := List.mem_map.mp hm
    rintro rfl
    rcases mark_cases (trim s) with ⟨_, _, _, _, _, hexact, _⟩ | ⟨hmark, _, _⟩
    · exact hexact hbound
    · rw [hmark] at hbound
      cases hbound
  rw [Option.eq_none_iff_forall_ne_some]
  intro bound hbound
  have hmem : bound ∈ (arguments.map fun argument => mark (trim argument)).filterMap Prod.fst :=
    List.mem_filterMap.mpr ⟨_, List.mem_map_of_mem ha, hbound⟩
  -- the last mark would tell the bound
  cases hlast : ((arguments.map fun argument => mark (trim argument)).filterMap Prod.fst).getLast? with
  | none =>
    rw [List.getLast?_eq_none_iff.mp hlast] at hmem
    cases hmem
  | some last =>
    simp only [read, hlast, Option.getD_some] at h
    exact hmarked last (List.mem_of_getLast? hlast) h

end Size

namespace Position

theorem not_isBlank_operand (axis : Axis) {s : Text} (h : ∀ c ∈ s, isBlank c = false) :
    ∀ c ∈ operand axis s, isBlank c = false := by
  unfold operand
  simp only
  split
  · exact axis.isIdentifier_window.not_isBlank
  · exact axis.not_isBlank_shareOrSame fun c hc => h c (trim_subset s hc)

theorem not_isBlank_difference (axis : Axis) {s : Text} (h : ∀ c ∈ s, isBlank c = false) :
    ∀ c ∈ difference axis s, isBlank c = false := by
  refine forall_mem_intercalate (by decide) (List.forall_mem_map.mpr fun part hp => ?_)
  exact not_isBlank_operand axis fun c hc => h c (subset_of_mem_splitOnP hp hc)

theorem not_isBlank_clamped (dialect : Dialect) (axis : Axis) {s : Text} (h : ∀ c ∈ s, isBlank c = false) :
    ∀ c ∈ clamped dialect axis s, isBlank c = false := by
  have hseparator : ∀ c ∈ dialect.separator, isBlank c = false := by cases dialect <;> decide
  have hmax : ∀ c ∈ "min(max(".toList, isBlank c = false := by
    rw [String.toList_ofList]
    decide
  have hzero : ∀ c ∈ "0)".toList, isBlank c = false := by decide
  unfold clamped
  simp only [List.forall_mem_append, List.forall_mem_cons]
  exact ⟨⟨⟨⟨⟨⟨⟨hmax, h⟩, hseparator⟩, hzero⟩, hseparator⟩, axis.isIdentifier_monitor.not_isBlank⟩, by decide, axis.isIdentifier_window.not_isBlank⟩,
    by decide, by simp⟩

theorem not_isBlank_fromCursor (axis : Axis) {s : Text} (h : ∀ c ∈ s, isBlank c = false) :
    ∀ c ∈ fromCursor axis s, isBlank c = false := by
  have hopen : ∀ c ∈ "+(".toList, isBlank c = false := by decide
  unfold fromCursor
  simp only [List.forall_mem_append, List.forall_mem_cons]
  exact ⟨⟨⟨axis.isIdentifier_cursor.not_isBlank, hopen⟩, h⟩, by decide, by simp⟩

/-- The expression for a coordinate has no blanks. -/
theorem not_isBlank_coordinate (dialect : Dialect) (modifiers : Modifiers) (axis : Axis) {s : Text}
    (h : ∀ c ∈ s, isBlank c = false) : ∀ c ∈ coordinate dialect modifiers axis s, isBlank c = false := by
  have htrim : ∀ c ∈ trim s, isBlank c = false := fun c hc => h c (trim_subset s hc)
  have hdifference := not_isBlank_difference axis htrim
  unfold coordinate
  simp only
  split
  · exact htrim
  · simp only [List.forall_mem_append, List.forall_mem_cons]
    refine ⟨⟨by decide, ?_⟩, by decide, by simp⟩
    split <;> split
    · exact not_isBlank_fromCursor axis (not_isBlank_clamped dialect axis hdifference)
    · exact not_isBlank_fromCursor axis hdifference
    · exact not_isBlank_clamped dialect axis hdifference
    · exact hdifference

/-- A coordinate begins with a parenthesis. -/
theorem head?_coordinate (dialect : Dialect) (modifiers : Modifiers) (axis : Axis) (s : Text) :
    (coordinate dialect modifiers axis s).head? = some '(' := by
  unfold coordinate
  simp only
  split
  · next h =>
    simp only [Bool.and_eq_true] at h
    have hgroup := h.2
    unfold isGroup at hgroup
    split at hgroup
    · next heq => rw [heq]; rfl
    · cases hgroup
  · rfl

theorem isName_of_mem_read (dialect : Dialect) {arguments : List Text}
    (h : ∀ s ∈ arguments, ∀ c ∈ s, isBlank c = false) : ∀ s ∈ read dialect arguments, s.IsName := by
  intro value hv
  obtain ⟨axis, s, hs, rfl⟩ := Axis.exists_of_mem_distribute hv
  have hhead := head?_coordinate dialect (.of arguments) axis s
  refine ⟨fun he => ?_, not_isBlank_coordinate dialect _ axis (h s (List.mem_filter.mp hs).1)⟩
  rw [he] at hhead
  cases hhead

/-- A move has a value exactly if it has a coordinate. -/
theorem spaced_read_eq_nil_iff (dialect : Dialect) {arguments : List Text}
    (h : ∀ s ∈ arguments, ∀ c ∈ s, isBlank c = false) :
    spaced (read dialect arguments) = [] ↔ coordinates arguments = [] := by
  have hname := isName_of_mem_read dialect h
  have hne : read dialect arguments ≠ [[]] := by
    intro he
    rw [he] at hname
    exact (hname [] List.mem_cons_self).ne_nil rfl
  rw [spaced_eq_nil_iff, or_iff_left hne, ← List.length_eq_zero_iff, length_read, List.length_eq_zero_iff]

/-! ## Level texts -/

/-- The text closes the groups that it opens and no other one: behind it a scan goes on at the depth that it had. -/
def IsLevel (s : Text) : Prop := ∀ depth rest, 1 ≤ depth → closesAtEnd depth (s ++ rest) = closesAtEnd depth rest

theorem isLevel_of_not_mem {s : Text} (hopen : '(' ∉ s) (hclose : ')' ∉ s) : IsLevel s := by
  intro depth rest hdepth
  induction s with
  | nil => rfl
  | cons c s ih =>
    rw [List.mem_cons, not_or] at hopen hclose
    rw [List.cons_append, closesAtEnd, if_neg (Ne.symm hopen.1), if_neg (Ne.symm hclose.1), ih hopen.2 hclose.2]

theorem isLevel_of_isIdentifier {s : Text} (h : s.IsIdentifier) : IsLevel s :=
  isLevel_of_not_mem (h.not_mem (by decide)) (h.not_mem (by decide))

theorem IsLevel.append {s t : Text} (hs : IsLevel s) (ht : IsLevel t) : IsLevel (s ++ t) := by
  intro depth rest hdepth
  rw [List.append_assoc, hs depth _ hdepth, ht depth rest hdepth]

theorem IsLevel.group {s : Text} (h : IsLevel s) : IsLevel ('(' :: s ++ [')']) := by
  intro depth rest hdepth
  have hclose : ¬depth + 1 ≤ 1 := by omega
  rw [List.cons_append, List.cons_append, closesAtEnd, if_pos rfl, List.append_assoc, h (depth + 1) _ (by omega),
    List.singleton_append, closesAtEnd, if_neg (by decide), if_pos rfl, if_neg hclose, Nat.add_sub_cancel]

theorem IsLevel.intercalate {sep : Text} {parts : List Text} (hsep : IsLevel sep) (h : ∀ part ∈ parts, IsLevel part) :
    IsLevel (sep.intercalate parts) := by
  induction parts with
  | nil => exact isLevel_of_not_mem (by simp) (by simp)
  | cons part parts ih =>
    obtain ⟨hpart, hparts⟩ := List.forall_mem_cons.mp h
    cases parts with
    | nil => rwa [List.intercalate_singleton]
    | cons next parts =>
      rw [List.intercalate_cons_cons]
      exact (hpart.append hsep).append (ih hparts)

/-- **A level text in parentheses is one group.** -/
theorem IsLevel.isGroup {s : Text} (h : IsLevel s) : isGroup ('(' :: s ++ [')']) = true := by
  rw [List.cons_append, Position.isGroup, h 1 [')'] (by omega)]
  rfl

theorem isLevel_shareOrSame (axis : Axis) {s : Text} (h : IsLevel s) : IsLevel (axis.shareOrSame s) := by
  unfold Axis.shareOrSame Axis.share?
  cases stripSuffix? '%' s with
  | none => exact h
  | some number =>
    obtain ⟨-, hopen, hclose⟩ := Decimal.not_mem_text (Axis.hundredth number)
    have hstar : IsLevel ('*' :: Decimal.text (Axis.hundredth number)) :=
      isLevel_of_not_mem (by simp [hopen]) (by simp [hclose])
    exact ((isLevel_of_isIdentifier axis.isIdentifier_monitor).append hstar).group

theorem isLevel_operand (axis : Axis) {s : Text} (hopen : '(' ∉ s) (hclose : ')' ∉ s) : IsLevel (operand axis s) := by
  unfold operand
  simp only
  split
  · exact isLevel_of_isIdentifier axis.isIdentifier_window
  · refine isLevel_shareOrSame axis (isLevel_of_not_mem ?_ ?_)
    · exact fun hm => hopen (trim_subset s hm)
    · exact fun hm => hclose (trim_subset s hm)

/-- The expression for a coordinate without parentheses is level. -/
theorem isLevel_difference (axis : Axis) {s : Text} (hopen : '(' ∉ s) (hclose : ')' ∉ s) :
    IsLevel (difference axis s) := by
  refine (isLevel_of_not_mem (by decide) (by decide)).intercalate (List.forall_mem_map.mpr fun part hp => ?_)
  have hsubset := subset_of_mem_splitOnP hp
  exact isLevel_operand axis (fun hm => hopen (hsubset hm)) fun hm => hclose (hsubset hm)

theorem isLevel_clamped (dialect : Dialect) (axis : Axis) {s : Text} (h : IsLevel s) :
    IsLevel (clamped dialect axis s) := by
  have hseparator : IsLevel dialect.separator := by
    cases dialect <;> exact isLevel_of_not_mem (by decide) (by decide)
  have hdash : IsLevel ['-'] := isLevel_of_not_mem (by decide) (by decide)
  have hbound := (isLevel_of_isIdentifier axis.isIdentifier_monitor).append
    (hdash.append (isLevel_of_isIdentifier axis.isIdentifier_window))
  have hmin : IsLevel ['m', 'i', 'n'] := isLevel_of_not_mem (by decide) (by decide)
  have hmax : IsLevel ['m', 'a', 'x'] := isLevel_of_not_mem (by decide) (by decide)
  have hzero : IsLevel ['0'] := isLevel_of_not_mem (by decide) (by decide)
  -- the maximum stands in parentheses of its own inside those of the minimum
  have hgreatest := hmax.append ((h.append hseparator).append hzero).group
  have hleast := hmin.append ((hgreatest.append hseparator).append hbound).group
  have hopen : "min(max(".toList = ['m', 'i', 'n', '(', 'm', 'a', 'x', '('] := by decide
  have hclose : "0)".toList = ['0', ')'] := by decide
  unfold clamped
  rw [hopen, hclose]
  simpa using hleast

theorem isLevel_fromCursor (axis : Axis) {s : Text} (h : IsLevel s) : IsLevel (fromCursor axis s) := by
  have hplus : IsLevel ['+'] := isLevel_of_not_mem (by decide) (by decide)
  have hcursor := (isLevel_of_isIdentifier axis.isIdentifier_cursor).append hplus
  have hsum : fromCursor axis s = axis.cursor ++ ['+'] ++ ('(' :: s ++ [')']) := by simp [fromCursor]
  rw [hsum]
  exact hcursor.append h.group

/-- **A coordinate without parentheses becomes one group**, and one that is a group stays so if there is no modifier. -/
theorem isGroup_coordinate (dialect : Dialect) {modifiers : Modifiers} (axis : Axis) {s : Text}
    (h : ('(' ∉ s ∧ ')' ∉ s) ∨ modifiers = ⟨false, false⟩ ∧ isGroup (trim s) = true) :
    isGroup (coordinate dialect modifiers axis s) = true := by
  unfold coordinate
  simp only
  split
  · next hkept => exact (Bool.and_eq_true _ _ ▸ hkept).2
  · next hnew =>
    rcases h with ⟨hopen, hclose⟩ | ⟨rfl, hgroup⟩
    · have hsubset := trim_subset s
      have hdifference := isLevel_difference axis (fun hm => hopen (hsubset hm)) fun hm => hclose (hsubset hm)
      refine IsLevel.isGroup ?_
      split <;> split
      · exact isLevel_fromCursor axis (isLevel_clamped dialect axis hdifference)
      · exact isLevel_fromCursor axis hdifference
      · exact isLevel_clamped dialect axis hdifference
      · exact hdifference
    · exact absurd (by simpa using hgroup) hnew

end Position
end WindowRules

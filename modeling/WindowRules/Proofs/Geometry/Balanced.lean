import WindowRules.Proofs.Geometry.Groups

/-!
# Balanced groups and moves

A text is one group in parentheses exactly if a balanced text stands between its first and its last character
(`isGroup_iff`). Balanced is said by counting alone: no beginning of the text closes more groups than it opens, and the
whole text closes all of them (`Position.IsBalanced`).

* `Position.closesAtEnd_iff` — a scan that has groups open closes the outermost one with the last character exactly if
  it is never outside before (`Position.ReachesOutermost`). Proof: by induction on the text; each character changes the
  depth by one at most.
* `move_is_read_alike` — the modifiers of a move may stand anywhere, and level coordinates become groups that stay as
  they are when they are read again.
-/

namespace WindowRules

open Text

namespace Position

/-! ## Balanced texts -/

/-- No beginning of the text closes more groups than it opens, and the whole text closes as many as it opens. -/
structure IsBalanced (s : Text) : Prop where
  beginnings : ∀ before, before <+: s → before.count ')' ≤ before.count '('
  totals : s.count ')' = s.count '('

/-- The text is a balanced text in one pair of parentheses. -/
def IsSingleGroup (s : Text) : Prop := ∃ inner, s = '(' :: inner ++ [')'] ∧ IsBalanced inner

/-- Behind every beginning of the text one of `depth` open groups is still open, and behind the whole text just one. -/
structure ReachesOutermost (depth : Nat) (s : Text) : Prop where
  inside : ∀ before, before <+: s → before.count ')' < depth + before.count '('
  outermost : s.count ')' + 1 = depth + s.count '('

theorem reachesOutermost_nil_iff {depth : Nat} : ReachesOutermost depth [] ↔ depth = 1 := by
  constructor
  · rintro ⟨-, houtermost⟩
    simpa using houtermost.symm
  · rintro rfl
    exact ⟨by simp, by simp⟩

/-- **One character further**, where it leaves `after` groups open of those that `depth` counts. -/
theorem reachesOutermost_cons_iff {depth : Nat} (after : Nat) {c : Char} {s : Text}
    (h : [c].count ')' + after = depth + [c].count '(') :
    ReachesOutermost depth (c :: s) ↔ 1 ≤ depth ∧ ReachesOutermost after s := by
  have hcount : ∀ (mark : Char) (t : Text), (c :: t).count mark = [c].count mark + t.count mark := fun mark t => by
    rw [← List.singleton_append, List.count_append]
  constructor
  · rintro ⟨hinside, houtermost⟩
    have hdepth : 0 < depth := by simpa using hinside [] List.nil_prefix
    refine ⟨hdepth, fun before hb => ?_, ?_⟩
    · have hbefore := hinside (c :: before) (List.cons_prefix_cons.mpr ⟨rfl, hb⟩)
      rw [hcount ')' before, hcount '(' before] at hbefore
      omega
    · rw [hcount ')' s, hcount '(' s] at houtermost
      omega
  · rintro ⟨hdepth, hinside, houtermost⟩
    refine ⟨fun before hb => ?_, ?_⟩
    · rcases List.prefix_cons_iff.mp hb with rfl | ⟨t, rfl, ht⟩
      · exact hdepth
      · have hbefore := hinside t ht
        rw [hcount ')' t, hcount '(' t]
        omega
    · rw [hcount ')' s, hcount '(' s]
      omega

/-- Directly inside the outermost group, to stay there is to be balanced. -/
theorem reachesOutermost_one_iff {s : Text} : ReachesOutermost 1 s ↔ IsBalanced s := by
  constructor
  · rintro ⟨hinside, houtermost⟩
    refine ⟨fun before hb => ?_, by omega⟩
    have hbefore := hinside before hb
    omega
  · rintro ⟨hbeginnings, htotals⟩
    refine ⟨fun before hb => ?_, by omega⟩
    have hbefore := hbeginnings before hb
    omega

/-- The first character stands in front of the last one, or it is the last one. -/
theorem exists_last_cons_iff {depth : Nat} {c : Char} {s : Text} :
    (∃ inner, c :: s = inner ++ [')'] ∧ ReachesOutermost depth inner) ↔
      (c = ')' ∧ s = [] ∧ depth = 1) ∨ ∃ inner, s = inner ++ [')'] ∧ ReachesOutermost depth (c :: inner) := by
  constructor
  · rintro ⟨inner, he, hreaches⟩
    cases inner with
    | nil =>
      obtain ⟨rfl, rfl⟩ := List.cons.inj he
      exact Or.inl ⟨rfl, rfl, reachesOutermost_nil_iff.mp hreaches⟩
    | cons first inner =>
      obtain ⟨rfl, rfl⟩ := List.cons.inj he
      exact Or.inr ⟨inner, rfl, hreaches⟩
  · rintro (⟨rfl, rfl, rfl⟩ | ⟨inner, rfl, hreaches⟩)
    · exact ⟨[], rfl, reachesOutermost_nil_iff.mpr rfl⟩
    · exact ⟨c :: inner, rfl, hreaches⟩

/-- **A scan closes the outermost group with the last character** exactly if it is never outside before. -/
theorem closesAtEnd_iff {depth : Nat} {s : Text} (h : 1 ≤ depth) :
    closesAtEnd depth s = true ↔ ∃ inner, s = inner ++ [')'] ∧ ReachesOutermost depth inner := by
  induction s generalizing depth with
  | nil => simp [closesAtEnd]
  | cons c s ih =>
    rw [exists_last_cons_iff, closesAtEnd]
    by_cases hopen : c = '('
    · have hstep : ∀ inner, ReachesOutermost depth ('(' :: inner) ↔ ReachesOutermost (depth + 1) inner := fun inner => by
        rw [reachesOutermost_cons_iff (depth + 1) (by simp), and_iff_right h]
      rw [if_pos hopen, ih (by omega), hopen]
      simp [hstep]
    · rw [if_neg hopen]
      by_cases hclose : c = ')'
      · rw [if_pos hclose, hclose]
        by_cases hlast : depth ≤ 1
        · obtain rfl : depth = 1 := by omega
          -- behind the closing parenthesis no group would be open
          have hnone : ∀ inner, ¬ReachesOutermost 1 (')' :: inner) := fun inner hreaches => by
            have hoff := hreaches.inside [')'] (List.cons_prefix_cons.mpr ⟨rfl, List.nil_prefix⟩)
            simp at hoff
          simp [hnone]
        · have hstep : ∀ inner, ReachesOutermost depth (')' :: inner) ↔ ReachesOutermost (depth - 1) inner := fun inner => by
            rw [reachesOutermost_cons_iff (depth - 1) (by simp; omega), and_iff_right h]
          have hdepth : depth ≠ 1 := by omega
          simp [if_neg hlast, ih (show 1 ≤ depth - 1 by omega), hstep, hdepth]
      · have hstep : ∀ inner, ReachesOutermost depth (c :: inner) ↔ ReachesOutermost depth inner := fun inner => by
          have hcounts : [c].count ')' + depth = depth + [c].count '(' := by
            rw [List.count_singleton, List.count_singleton, if_neg (by simpa using hclose), if_neg (by simpa using hopen)]
            omega
          rw [reachesOutermost_cons_iff depth hcounts, and_iff_right h]
        simp [ih h, hstep, hclose]

/-- A group is balanced between its parentheses. -/
theorem isSingleGroup_of_isGroup {s : Text} (h : isGroup s = true) : IsSingleGroup s := by
  unfold isGroup at h
  split at h
  · next s =>
    obtain ⟨inner, rfl, hreaches⟩ := (closesAtEnd_iff (Nat.le_refl 1)).mp h
    exact ⟨inner, rfl, reachesOutermost_one_iff.mp hreaches⟩
  · cases h

/-- A balanced text in parentheses is a group. -/
theorem IsBalanced.isGroup {inner : Text} (h : IsBalanced inner) : isGroup ('(' :: inner ++ [')']) = true := by
  rw [List.cons_append, Position.isGroup, closesAtEnd_iff (Nat.le_refl 1)]
  exact ⟨inner, rfl, reachesOutermost_one_iff.mpr h⟩

/-! ## Moves -/

/-- The axis along which the number at an index lies. -/
def axisAt (index : Nat) : Axis := if index = 0 then .horizontal else .vertical

theorem getElem?_distribute {α : Type} (rule : Axis → Text → α) (texts : List Text) (index : Nat) :
    (Axis.distribute rule texts)[index]? = texts[index]?.map (rule (axisAt index)) := by
  cases texts with
  | nil => simp [Axis.distribute]
  | cons first others => cases index <;> simp [Axis.distribute, axisAt]

/-- Only the coordinates and which modifiers occur are looked at. -/
theorem read_congr {dialect : Dialect} {arguments others : List Text}
    (hcoordinates : coordinates others = coordinates arguments) (hcursor : cursorWord ∈ others ↔ cursorWord ∈ arguments)
    (honscreen : onscreenWord ∈ others ↔ onscreenWord ∈ arguments) : read dialect others = read dialect arguments := by
  have hmodifiers : Modifiers.of others = Modifiers.of arguments := by
    simp [Modifiers.of, List.contains_eq_mem, hcursor, honscreen]
  rw [read, read, hcoordinates, hmodifiers]

theorem IsSingleGroup.trim_eq {s : Text} (h : IsSingleGroup s) : trim s = s := by
  obtain ⟨inner, rfl, -⟩ := h
  refine trim_eq_self_iff.mpr ⟨fun c hc => ?_, fun c hc => ?_⟩
  · cases hc
    decide
  · rw [List.cons_append, ← List.cons_append, List.getLast?_concat] at hc
    cases hc
    decide

/-- **Groups stay as they are**, since none of them is a modifier. -/
theorem read_eq_self (dialect : Dialect) {arguments : List Text} (h : ∀ s ∈ arguments, IsSingleGroup s) :
    read dialect arguments = arguments := by
  have hcoordinates : coordinates arguments = arguments := coordinates_of_head? fun s hs => by
    obtain ⟨inner, rfl, -⟩ := h s hs
    rfl
  rw [read, modifiers_of_coordinates hcoordinates, hcoordinates]
  refine Axis.distribute_eq_self fun axis s hs => ?_
  obtain ⟨inner, hinner, hbalanced⟩ := h s hs
  have hgroup : isGroup s = true := hinner ▸ hbalanced.isGroup
  simp [coordinate, (h s hs).trim_eq, hgroup]

/-- A coordinate without parentheses, or one that is a group but for blanks around it while no modifier occurs. -/
def IsLevelCoordinate (arguments : List Text) (s : Text) : Prop :=
  ('(' ∉ s ∧ ')' ∉ s) ∨ IsSingleGroup (trim s) ∧ cursorWord ∉ arguments ∧ onscreenWord ∉ arguments

/-- **Level coordinates become groups.** -/
theorem isSingleGroup_of_mem_read (dialect : Dialect) {arguments : List Text}
    (h : ∀ s ∈ coordinates arguments, IsLevelCoordinate arguments s) :
    ∀ value ∈ read dialect arguments, IsSingleGroup value := by
  intro value hv
  obtain ⟨axis, s, hs, rfl⟩ := Axis.exists_of_mem_distribute hv
  refine isSingleGroup_of_isGroup (isGroup_coordinate dialect axis ((h s hs).imp id ?_))
  rintro ⟨⟨inner, hinner, hbalanced⟩, hcursor, honscreen⟩
  exact ⟨by simp [Modifiers.of, hcursor, honscreen], hinner ▸ hbalanced.isGroup⟩

end Position

/-- **Groups are balanced.** A text is taken for one group in parentheses exactly if it is a text in one pair of
parentheses of which no beginning closes more groups than it opens, and which closes as many as it opens. -/
theorem isGroup_iff (s : Text) :
    Position.isGroup s = true ↔ ∃ inner, s = '(' :: inner ++ [')'] ∧ Position.IsBalanced inner :=
  ⟨Position.isSingleGroup_of_isGroup, fun ⟨_, hs, hbalanced⟩ => hs ▸ hbalanced.isGroup⟩

/-- The parentheses of the last two texts do not belong together. -/
example : ["(10)", "((a)-(b))", "(a)-(b)", "(a"].map (Position.isGroup ·.toList) = [true, true, false, false] := by decide

/-- **Moves are read alike wherever the modifiers stand, and again.** There is one expression for each argument that is
no modifier, in order, and all expressions depend on these arguments and on which modifiers occur. If each of these
arguments has no parentheses, or is one group while no modifier occurs, then the expressions are groups, and reading
them again in either dialect leaves them as they are. -/
theorem move_is_read_alike (dialect : Dialect) (arguments : List Text) :
    (Position.read dialect arguments).length = (Position.coordinates arguments).length ∧
      (∀ index : Nat, (Position.read dialect arguments)[index]? = (Position.coordinates arguments)[index]?.map
        (Position.coordinate dialect (.of arguments) (Position.axisAt index))) ∧
      (∀ others, Position.coordinates others = Position.coordinates arguments →
        (Position.cursorWord ∈ others ↔ Position.cursorWord ∈ arguments) →
        (Position.onscreenWord ∈ others ↔ Position.onscreenWord ∈ arguments) →
        Position.read dialect others = Position.read dialect arguments) ∧
      ((∀ s ∈ Position.coordinates arguments, Position.IsLevelCoordinate arguments s) →
        (∀ value ∈ Position.read dialect arguments, Position.IsSingleGroup value) ∧
          ∀ again, Position.read again (Position.read dialect arguments) = Position.read dialect arguments) := by
  refine ⟨Position.length_read dialect arguments, Position.getElem?_distribute _ _, fun others => Position.read_congr,
    fun hlevel => ?_⟩
  have hgroups := Position.isSingleGroup_of_mem_read dialect hlevel
  exact ⟨hgroups, fun again => Position.read_eq_self again hgroups⟩

/-- A group with blanks around it, and a coordinate without parentheses. -/
def groupAndDifference : List Text := [" ((1)+w) ".toList, "w-5".toList]

/-- Two coordinates among modifiers. -/
def scatteredMove : List Text := ["onscreen".toList, "10".toList, "cursor".toList, "w-5".toList]

/-- The same coordinates in front of the modifiers. -/
def gatheredMove : List Text := ["10".toList, "w-5".toList, "cursor".toList, "cursor".toList, "onscreen".toList]

/-- The coordinates without modifiers become groups, which stay as they are on a line, and it does not matter where the
modifiers of the others stand. -/
theorem moves_read_alike :
    (∀ s ∈ Position.coordinates groupAndDifference, Position.IsLevelCoordinate groupAndDifference s) ∧
      Position.read .block groupAndDifference = ["((1)+w)".toList, "(window_h-5)".toList] ∧
      Position.read .inline (Position.read .block groupAndDifference) = Position.read .block groupAndDifference ∧
      Position.coordinates gatheredMove = Position.coordinates scatteredMove ∧
      Position.read .inline gatheredMove = Position.read .inline scatteredMove := by
  have hlevel : ∀ s ∈ Position.coordinates groupAndDifference, Position.IsLevelCoordinate groupAndDifference s := by
    have hcoordinates : Position.coordinates groupAndDifference = [" ((1)+w) ".toList, "w-5".toList] := by decide
    have hgroup : Position.isGroup (trim " ((1)+w) ".toList) = true := by decide
    rw [hcoordinates]
    intro s hs
    rcases List.mem_cons.mp hs with rfl | hs
    · exact Or.inr ⟨Position.isSingleGroup_of_isGroup hgroup, by decide, by decide⟩
    · obtain rfl := List.mem_singleton.mp hs
      exact Or.inl (by decide)
  have hcoordinates : Position.coordinates gatheredMove = Position.coordinates scatteredMove := by decide
  refine ⟨hlevel, by decide, ((move_is_read_alike .block groupAndDifference).2.2.2 hlevel).2 .inline, hcoordinates, ?_⟩
  exact (move_is_read_alike .inline scatteredMove).2.2.1 gatheredMove hcoordinates (by decide) (by decide)

end WindowRules

import WindowRules.Text.Lowercase
import Mathlib.Data.List.Basic

/-!
# Marks and letters of lowercase forms

Only letters have another lowercase form, and no such form has a character before the letters of ASCII. So the newlines,
commas and other marks of a text are those of its lowercase form (`not_mem_lower`, `mem_lower`).

A lowercase form is its own lowercase form (`lower_lower`). Proof: its characters are kept ones or lowercase letters, and
the table holds no letter that is both a capital and a small one (`not_mem_of_mem_lowered`). The two lists of letters
are compared as sets of numbers, each written as the binary digits of one number.
-/

namespace WindowRules
namespace Text

theorem ofNat_ne {n : Nat} {mark : Char} (hzero : mark ≠ '\x00') (h : n ≠ mark.toNat) : Char.ofNat n ≠ mark := by
  intro he
  by_cases hv : n.isValidChar
  · have hn : (Char.ofNat n).toNat = n := by
      rw [Char.ofNat, dif_pos hv]
      rfl
    rw [he] at hn
    exact h hn.symm
  · rw [Char.ofNat, dif_neg hv] at he
    exact hzero he.symm

theorem toLower_ne {c mark : Char} (hmark : mark.toNat < 65) (h : c ≠ mark) : c.toLower ≠ mark := by
  unfold Char.toLower
  split
  · next hc =>
    -- a capital and its small letter lie above the mark
    intro he
    have hlow : 65 ≤ c.val.toNat := UInt32.le_iff_toNat_le.mp hc.1
    have hhigh : c.val.toNat ≤ 90 := UInt32.le_iff_toNat_le.mp hc.2
    have hn : (c.val + 32).toNat = mark.toNat := congrArg Char.toNat he
    rw [UInt32.toNat_add, show (32 : UInt32).toNat = 32 from rfl] at hn
    omega
  · exact h

/-- Runs of capitals lie behind ASCII, and their lowercase forms are no surrogates. -/
theorem capitals_bounds : ∀ run ∈ capitals, 128 ≤ run.first ∧ 65 ≤ run.small ∧
    (run.small + (run.last - run.first) < 0xD800 ∨
      0xDFFF < run.small ∧ run.small + (run.last - run.first) < 0x110000) := by decide +kernel

/-- The lowercase form of a character has no other mark. -/
theorem not_mem_lowerChar {c mark : Char} (hzero : mark ≠ '\x00') (hmark : mark.toNat < 65) (h : c ≠ mark) :
    mark ∉ lowerChar c := by
  have hne : ∀ {other : Char}, 65 ≤ other.toNat → mark ≠ other := by
    rintro other ho rfl
    omega
  unfold lowerChar
  split
  · exact fun hm => toLower_ne hmark h (List.mem_singleton.mp hm).symm
  · split
    · simp only [List.mem_cons, List.not_mem_nil, or_false, not_or]
      exact ⟨hne (by decide), hne (by decide)⟩
    · split
      · next run hrun =>
        have hsmall := (capitals_bounds run (List.mem_of_find?_eq_some hrun)).2.1
        exact fun hm => ofNat_ne hzero (by omega) (List.mem_singleton.mp hm).symm
      · exact fun hm => h (List.mem_singleton.mp hm).symm

/-- **No mark comes into a text by its lowercase form.** -/
theorem not_mem_lower {s : Text} {mark : Char} (hzero : mark ≠ '\x00') (hmark : mark.toNat < 65) (h : mark ∉ s) :
    mark ∉ lower s := by
  have hfrom : ∀ before : Text, mark ∉ lowerFrom before s := by
    induction s with
    | nil => exact fun _ => h
    | cons c s ih =>
      intro before
      have hc : c ≠ mark := fun e => h (e ▸ List.mem_cons_self)
      have hs : mark ∉ s := fun hm => h (List.mem_cons_of_mem _ hm)
      rw [lowerFrom, List.mem_append, not_or]
      refine ⟨?_, ih hs _⟩
      split
      · split <;> intro hm <;> rw [List.mem_singleton.mp hm] at hmark <;> exact absurd hmark (by decide)
      · exact not_mem_lowerChar hzero hmark hc
  exact hfrom []

/-! ## Lowercase forms of lowercase forms -/

/-- How far the capitals of the run lie from the first one. -/
def CapitalRun.offsets (run : CapitalRun) : List Nat :=
  (List.range (run.last + 1 - run.first)).filter fun d => d % run.step == 0

/-- The code points that have another lowercase form. -/
def altered : List Nat :=
  0x130 :: (List.range 26).map (65 + ·) ++ capitals.flatMap fun run => run.offsets.map (run.first + ·)

/-- The code points that come into a text by its lowercase form. -/
def lowered : List Nat :=
  0x69 :: 0x307 :: 0x3C2 :: 0x3C3 :: (List.range 26).map (97 + ·) ++
    capitals.flatMap fun run => run.offsets.map (run.small + ·)

/-- A set of numbers as one number, whose binary digits tell its members. -/
def bits (numbers : List Nat) : Nat := numbers.foldr (fun n set => set ||| 1 <<< n) 0

theorem testBit_bits {numbers : List Nat} {n : Nat} : (bits numbers).testBit n = true ↔ n ∈ numbers := by
  induction numbers with
  | nil => simp [bits]
  | cons first others ih =>
    have hcons : bits (first :: others) = bits others ||| 1 <<< first := rfl
    rw [hcons, Nat.testBit_or, Bool.or_eq_true, ih, List.mem_cons, Nat.one_shiftLeft, Nat.testBit_two_pow]
    simp [or_comm, eq_comm]

theorem disjoint_of_bits {numbers others : List Nat} (h : bits numbers &&& bits others = 0) :
    ∀ n ∈ numbers, n ∉ others := by
  intro n hn ho
  have hand : (bits numbers &&& bits others).testBit n = true := by
    rw [Nat.testBit_and, testBit_bits.mpr hn, testBit_bits.mpr ho]
    rfl
  rw [h, Nat.zero_testBit] at hand
  cases hand

/-- The code points of the blanks. -/
def blanks : List Nat := blankRanges.flatMap fun (first, last) => (List.range (last - first + 1)).map (first + ·)

theorem toNat_mem_blanks {c : Char} (h : isBlank c = true) : c.toNat ∈ blanks := by
  obtain ⟨⟨first, last⟩, hrange, hc⟩ := List.any_eq_true.mp h
  simp only [Bool.and_eq_true, decide_eq_true_eq] at hc
  refine List.mem_flatMap.mpr ⟨_, hrange, List.mem_map.mpr ⟨c.toNat - first, List.mem_range.mpr ?_, ?_⟩⟩ <;> omega

theorem CapitalRun.covers_iff {run : CapitalRun} {n : Nat} :
    run.covers n = true ↔ run.first ≤ n ∧ n - run.first ∈ run.offsets := by
  simp only [covers, offsets, Bool.and_eq_true, decide_eq_true_eq, List.mem_filter, List.mem_range, beq_iff_eq,
    and_assoc]
  refine and_congr_right fun hfirst => and_congr_left fun _ => ?_
  omega

-- Both lists have some fifteen hundred members, so they are not compared one by one.
theorem not_mem_of_mem_lowered : ∀ n ∈ lowered, n ∉ altered ++ blanks :=
  disjoint_of_bits (by decide +kernel)

theorem CapitalRun.mem_altered {run : CapitalRun} (hrun : run ∈ capitals) {n : Nat} (h : run.covers n = true) :
    n ∈ altered := by
  obtain ⟨hfirst, hoffset⟩ := CapitalRun.covers_iff.mp h
  refine List.mem_append_right _ (List.mem_flatMap.mpr ⟨run, hrun, List.mem_map.mpr ⟨_, hoffset, ?_⟩⟩)
  omega

theorem CapitalRun.toNat_lower_mem_lowered {run : CapitalRun} (hrun : run ∈ capitals) {n : Nat}
    (h : run.covers n = true) : (run.lower n).toNat ∈ lowered := by
  obtain ⟨-, -, hvalid⟩ := capitals_bounds run hrun
  obtain ⟨hfirst, hoffset⟩ := CapitalRun.covers_iff.mp h
  have hlast : n - run.first < run.last + 1 - run.first := List.mem_range.mp (List.mem_filter.mp hoffset).1
  have hchar : (run.small + (n - run.first)).isValidChar := by
    unfold Nat.isValidChar
    omega
  have hnat : (run.lower n).toNat = run.small + (n - run.first) := by
    rw [CapitalRun.lower, Char.ofNat, dif_pos hchar]
    rfl
  rw [hnat]
  exact List.mem_append_right _ (List.mem_flatMap.mpr ⟨run, hrun, List.mem_map.mpr ⟨_, hoffset, rfl⟩⟩)

/-- Of ASCII only the capitals are altered. -/
theorem not_mem_altered_of_lt {n : Nat} (hascii : n < 128) (h : n < 65 ∨ 90 < n) : n ∉ altered := by
  intro hm
  rcases List.mem_append.mp hm with hm | hm
  · simp only [List.mem_cons, List.mem_map, List.mem_range] at hm
    omega
  · obtain ⟨run, hrun, hm⟩ := List.mem_flatMap.mp hm
    obtain ⟨offset, _, rfl⟩ := List.mem_map.mp hm
    have hfirst := (capitals_bounds run hrun).1
    omega

theorem toNat_toLower_mem_lowered {c : Char} (h : 65 ≤ c.toNat ∧ c.toNat ≤ 90) : c.toLower.toNat ∈ lowered := by
  have hlow : (65 : UInt32) ≤ c.val := UInt32.le_iff_toNat_le.mpr h.1
  have hhigh : c.val ≤ 90 := UInt32.le_iff_toNat_le.mpr h.2
  have hsum : c.toLower.toNat = (c.val + 32).toNat := by
    unfold Char.toLower
    rw [dif_pos ⟨hlow, hhigh⟩]
    rfl
  have hletter : c.toLower.toNat = 97 + (c.toNat - 65) := by
    rw [hsum, UInt32.toNat_add, show (32 : UInt32).toNat = 32 from rfl, ← Char.toNat]
    omega
  rw [hletter]
  exact List.mem_append_left _ (List.mem_cons_of_mem _ (List.mem_cons_of_mem _ (List.mem_cons_of_mem _
    (List.mem_cons_of_mem _ (List.mem_map_of_mem (List.mem_range.mpr (by omega)))))))

theorem toLower_eq_self {c : Char} (h : ¬(65 ≤ c.toNat ∧ c.toNat ≤ 90)) : c.toLower = c := by
  unfold Char.toLower
  refine dif_neg fun hc => h ?_
  have hlow : 65 ≤ c.val.toNat := UInt32.le_iff_toNat_le.mp hc.1
  have hhigh : c.val.toNat ≤ 90 := UInt32.le_iff_toNat_le.mp hc.2
  exact ⟨hlow, hhigh⟩

/-- A character of a lowercase form is a character that was kept, or a lowercase letter. -/
theorem mem_lowerChar {c d : Char} (h : d ∈ lowerChar c) : d = c ∧ c.toNat ∉ altered ∨ d.toNat ∈ lowered := by
  unfold lowerChar at h
  split at h
  · next hascii =>
    rw [List.mem_singleton.mp h]
    by_cases hcapital : 65 ≤ c.toNat ∧ c.toNat ≤ 90
    · exact Or.inr (toNat_toLower_mem_lowered hcapital)
    · refine Or.inl ⟨?_, not_mem_altered_of_lt hascii (by omega)⟩
      exact toLower_eq_self hcapital
  · next hascii =>
    split at h
    · refine Or.inr ?_
      rcases List.mem_cons.mp h with rfl | h
      · exact List.mem_cons_self
      · rw [List.mem_singleton.mp h]
        exact List.mem_cons_of_mem _ List.mem_cons_self
    · next hdotted =>
      split at h
      · next run hfind =>
        have hcovers : run.covers c.toNat = true := by
          simpa using List.find?_some hfind
        rw [List.mem_singleton.mp h]
        exact Or.inr (CapitalRun.toNat_lower_mem_lowered (List.mem_of_find?_eq_some hfind) hcovers)
      · next hfind =>
        refine Or.inl ⟨List.mem_singleton.mp h, fun hm => ?_⟩
        rcases List.mem_append.mp hm with hm | hm
        · simp only [List.mem_cons, List.mem_map, List.mem_range] at hm
          rcases hm with hm | ⟨offset, hoffset, hm⟩
          · exact hdotted (Char.toNat_inj.mp hm)
          · omega
        · obtain ⟨run, hrun, hm⟩ := List.mem_flatMap.mp hm
          obtain ⟨offset, hoffset, hm⟩ := List.mem_map.mp hm
          refine List.find?_eq_none.mp hfind run hrun (CapitalRun.covers_iff.mpr ⟨by omega, ?_⟩)
          rwa [← hm, Nat.add_sub_cancel_left]

/-- What is not altered is its own lowercase form. -/
theorem lowerChar_eq_self {c : Char} (h : c.toNat ∉ altered) : lowerChar c = [c] := by
  unfold lowerChar
  split
  · next hascii =>
    rw [toLower_eq_self fun hcapital => h ?_]
    refine List.mem_append_left _ (List.mem_cons_of_mem _ (List.mem_map.mpr ⟨c.toNat - 65, ?_, ?_⟩))
    · exact List.mem_range.mpr (by omega)
    · omega
  · split
    · next hdotted =>
      rw [hdotted] at h
      exact absurd (List.mem_append_left _ List.mem_cons_self) h
    · split
      · next run hfind =>
        have hcovers : run.covers c.toNat = true := by simpa using List.find?_some hfind
        exact absurd (CapitalRun.mem_altered (List.mem_of_find?_eq_some hfind) hcovers) h
      · rfl

/-- A text without characters that are altered is its own lowercase form. -/
theorem lower_eq_self {s : Text} (h : ∀ c ∈ s, c.toNat ∉ altered) : lower s = s := by
  have hfrom : ∀ before : Text, lowerFrom before s = s := by
    induction s with
    | nil => exact fun _ => rfl
    | cons c s ih =>
      intro before
      obtain ⟨hc, hs⟩ := List.forall_mem_cons.mp h
      have hsigma : c ≠ 'Σ' := by
        rintro rfl
        exact hc (by decide +kernel)
      rw [lowerFrom, if_neg hsigma, lowerChar_eq_self hc, ih hs, List.singleton_append]
  exact hfrom []

theorem mem_lowerFrom {before s : Text} {d : Char} (h : d ∈ lowerFrom before s) :
    d ∈ s ∧ d.toNat ∉ altered ∨ d.toNat ∈ lowered := by
  induction s generalizing before with
  | nil => cases h
  | cons c s ih =>
    rw [lowerFrom, List.mem_append] at h
    rcases h with h | h
    · split at h
      · refine Or.inr (List.mem_cons_of_mem _ (List.mem_cons_of_mem _ ?_))
        split at h <;> rw [List.mem_singleton.mp h]
        · exact List.mem_cons_self
        · exact List.mem_cons_of_mem _ List.mem_cons_self
      · rcases mem_lowerChar h with ⟨rfl, hkept⟩ | hlowered
        · exact Or.inl ⟨List.mem_cons_self, hkept⟩
        · exact Or.inr hlowered
    · exact (ih h).imp_left (And.imp_left (List.mem_cons_of_mem c))

/-- **Lowercase forms are their own lowercase forms.** -/
theorem lower_lower (s : Text) : lower (lower s) = lower s := by
  refine lower_eq_self fun c hc => ?_
  rcases mem_lowerFrom hc with ⟨_, hkept⟩ | hlowered
  · exact hkept
  · exact fun hm => not_mem_of_mem_lowered _ hlowered (List.mem_append_left _ hm)

/-- No blank comes into a text by its lowercase form. -/
theorem not_isBlank_of_mem_lower {s : Text} (h : ∀ c ∈ s, isBlank c = false) : ∀ c ∈ lower s, isBlank c = false := by
  intro c hc
  rcases mem_lowerFrom hc with ⟨hkept, _⟩ | hlowered
  · exact h c hkept
  · refine Bool.eq_false_iff.mpr fun hblank => ?_
    exact not_mem_of_mem_lowered _ hlowered (List.mem_append_right _ (toNat_mem_blanks hblank))

/-! ## Marks that are kept -/

/-- A mark is its own lowercase form. -/
theorem lowerChar_mark {mark : Char} (hmark : mark.toNat < 65) : lowerChar mark = [mark] := by
  unfold lowerChar
  rw [if_pos (by omega), toLower_eq_self (by omega)]

theorem mem_lower {s : Text} {mark : Char} (hmark : mark.toNat < 65) (h : mark ∈ s) : mark ∈ lower s := by
  have hsigma : mark ≠ 'Σ' := by
    rintro rfl
    exact absurd hmark (by decide)
  have hfrom : ∀ before : Text, mark ∈ lowerFrom before s := by
    induction s with
    | nil => cases h
    | cons c s ih =>
      intro before
      rw [lowerFrom, List.mem_append]
      rcases List.mem_cons.mp h with rfl | h
      · rw [if_neg hsigma, lowerChar_mark hmark]
        exact Or.inl List.mem_cons_self
      · exact Or.inr (ih h _)
  exact hfrom []

theorem lowerChar_ne_nil (c : Char) : lowerChar c ≠ [] := by
  unfold lowerChar
  repeat' split
  all_goals simp

/-- A lowercase form begins with a mark only if the text does. -/
theorem head?_lower_ne {s : Text} {mark : Char} (hzero : mark ≠ '\x00') (hmark : mark.toNat < 65)
    (h : s.head? ≠ some mark) : (lower s).head? ≠ some mark := by
  cases s with
  | nil => exact h
  | cons c s =>
    have hc : c ≠ mark := fun e => h (congrArg some e)
    rw [lower, lowerFrom]
    intro hhead
    split at hhead
    · split at hhead <;> cases hhead <;> exact absurd hmark (by decide)
    · rw [List.head?_append_of_ne_nil _ (lowerChar_ne_nil c)] at hhead
      exact not_mem_lowerChar hzero hmark hc (List.mem_of_head? hhead)

theorem lower_ne_nil {s : Text} (h : s ≠ []) : lower s ≠ [] := by
  cases s with
  | nil => exact absurd rfl h
  | cons c s =>
    rw [lower, lowerFrom]
    split
    · simp
    · exact fun he => lowerChar_ne_nil c (List.append_eq_nil_iff.mp he).1

end Text
end WindowRules

import WindowRules.Text.Blank
import Mathlib.Data.List.Basic

/-!
# Trimmed texts and words

A text is left alone by trimming exactly if neither its first nor its last character is blank (`trim_eq_self_iff`). The
words of a text have no blanks (`not_isBlank_of_mem_words`), and a word in front of a blank is the first of them
(`words_append_blank`). Trimming takes no word off (`words_trim`), and texts without blanks that are put behind each
other with single spaces are the words of the whole (`words_spaced`). A text that is its words with single spaces between
them is called spaced (`Spaced`).
-/

namespace WindowRules
namespace Text

-- These go before every way to decide a statement about all characters there are.
instance (priority := 2000) decidableForallMem {p : Char → Prop} [DecidablePred p] (s : Text) :
    Decidable (∀ c ∈ s, p c) := List.decidableBAll p s

instance (priority := 2000) decidableExistsMem {p : Char → Prop} [DecidablePred p] (s : Text) :
    Decidable (∃ c ∈ s, p c) := List.decidableBEx p s

instance (priority := 2000) decidableForallMemOption {p : Char → Prop} [DecidablePred p] (o : Option Char) :
    Decidable (∀ c ∈ o, p c) := Option.decidableForallMem o

/-! ## Trimmed texts -/

theorem head?_dropWhile_isBlank (s : Text) : ∀ c ∈ (s.dropWhile isBlank).head?, isBlank c = false := by
  intro c hc
  have h := List.head?_dropWhile_not isBlank s
  rw [Option.mem_def.mp hc] at h
  simpa using h

theorem getLast?_trimEnd (s : Text) : ∀ c ∈ (trimEnd s).getLast?, isBlank c = false := by
  rw [trimEnd, List.getLast?_reverse]
  exact head?_dropWhile_isBlank s.reverse

theorem head?_trim (s : Text) : ∀ c ∈ (trim s).head?, isBlank c = false := by
  intro c hc
  refine head?_dropWhile_isBlank s c ?_
  have happend := trimEnd_append (trimStart s)
  rw [trim, Option.mem_def] at hc
  rw [Option.mem_def, ← trimStart, ← happend, List.head?_append, hc]
  rfl

theorem getLast?_trim (s : Text) : ∀ c ∈ (trim s).getLast?, isBlank c = false := getLast?_trimEnd (trimStart s)

theorem dropWhile_isBlank_eq_self {s : Text} (h : ∀ c ∈ s.head?, isBlank c = false) : s.dropWhile isBlank = s := by
  cases s with
  | nil => rfl
  | cons c s => rw [List.dropWhile_cons_of_neg (by simpa using h c rfl)]

/-- **Trimming leaves a text alone exactly if neither end of it is blank.** -/
theorem trim_eq_self_iff {s : Text} :
    trim s = s ↔ (∀ c ∈ s.head?, isBlank c = false) ∧ ∀ c ∈ s.getLast?, isBlank c = false := by
  constructor
  · intro h
    have hfirst := head?_trim s
    have hlast := getLast?_trim s
    rw [h] at hfirst hlast
    exact ⟨hfirst, hlast⟩
  · rintro ⟨hfirst, hlast⟩
    have hstart : trimStart s = s := dropWhile_isBlank_eq_self hfirst
    have hend : s.reverse.dropWhile isBlank = s.reverse :=
      dropWhile_isBlank_eq_self (by rwa [List.head?_reverse])
    rw [trim, hstart, trimEnd, hend, List.reverse_reverse]

theorem trim_trim (s : Text) : trim (trim s) = trim s := trim_eq_self_iff.mpr ⟨head?_trim s, getLast?_trim s⟩

theorem trim_cons_blank {c : Char} (h : isBlank c) (s : Text) : trim (c :: s) = trim s := by
  rw [trim, trimStart, List.dropWhile_cons_of_pos h, ← trimStart, ← trim]

theorem trim_of_not_isBlank {s : Text} (h : ∀ c ∈ s, isBlank c = false) : trim s = s :=
  trim_eq_self_iff.mpr ⟨fun c hc => h c (List.mem_of_head? hc), fun c hc => h c (List.mem_of_getLast? hc)⟩

/-- A text is trimmed if its first character is the first one of a trimmed text, and its last one likewise. -/
theorem trim_append_eq_self {s t : Text} (hs : s ≠ []) (ht : t ≠ []) (hfirst : ∀ c ∈ s.head?, isBlank c = false)
    (hlast : ∀ c ∈ t.getLast?, isBlank c = false) : trim (s ++ t) = s ++ t := by
  refine trim_eq_self_iff.mpr ⟨?_, ?_⟩
  · rw [List.head?_append_of_ne_nil s hs]
    exact hfirst
  · rw [List.getLast?_append_of_ne_nil s ht]
    exact hlast

theorem mem_trimEnd {c : Char} {s : Text} (h : c ∈ s) (hc : isBlank c = false) : c ∈ trimEnd s := by
  rw [← trimEnd_append s] at h
  refine (List.mem_append.mp h).resolve_right fun hm => ?_
  rw [List.all_eq_true.mp List.all_takeWhile c (List.mem_reverse.mp hm)] at hc
  cases hc

/-- Only blanks are taken off. -/
theorem mem_trim {c : Char} {s : Text} (h : c ∈ s) (hc : isBlank c = false) : c ∈ trim s := by
  rw [← trimStart_append s] at h
  refine mem_trimEnd ((List.mem_append.mp h).resolve_left fun hm => ?_) hc
  rw [List.all_eq_true.mp List.all_takeWhile c hm] at hc
  cases hc

/-- Every character that is no blank is kept, as often as it is there. -/
theorem count_trim {c : Char} (hc : isBlank c = false) (s : Text) : (trim s).count c = s.count c := by
  have hblank : ∀ t : Text, (t.takeWhile isBlank).count c = 0 := by
    refine fun t => List.count_eq_zero.mpr fun hm => ?_
    rw [List.all_eq_true.mp List.all_takeWhile c hm] at hc
    cases hc
  have hstart := congrArg (List.count c) (trimStart_append s)
  have hend := congrArg (List.count c) (trimEnd_append (trimStart s))
  rw [List.count_append, hblank, Nat.zero_add] at hstart
  rw [List.count_append, List.count_reverse, hblank, Nat.add_zero] at hend
  exact hend.trans hstart

/-- Blanks at the end are taken off behind a character that is none. -/
theorem trimEnd_append_cons {c : Char} (h : isBlank c = false) (s t : Text) :
    trimEnd (s ++ c :: t) = s ++ c :: trimEnd t := by
  have hkeep : (c :: s.reverse).dropWhile isBlank = c :: s.reverse := List.dropWhile_cons_of_neg (by simp [h])
  rw [trimEnd, trimEnd, List.reverse_append, List.reverse_cons, List.append_assoc, List.singleton_append,
    List.dropWhile_append, hkeep]
  split
  · next hempty => simp [List.isEmpty_iff.mp hempty]
  · simp

/-- What stands behind a character that is no blank is trimmed at its end only. -/
theorem exists_trim_append_cons {c : Char} (h : isBlank c = false) (s t : Text) :
    ∃ start, trim (s ++ c :: t) = start ++ c :: trimEnd t := by
  have hdrop : (c :: t).dropWhile isBlank = c :: t := List.dropWhile_cons_of_neg (by simp [h])
  have hstart : ∃ start, trimStart (s ++ c :: t) = start ++ c :: t := by
    rw [trimStart, List.dropWhile_append, hdrop]
    split
    · exact ⟨[], rfl⟩
    · exact ⟨_, rfl⟩
  obtain ⟨start, hstart⟩ := hstart
  exact ⟨start, by rw [trim, hstart, trimEnd_append_cons h]⟩

/-! ## Words -/

/-- No piece of a split has a character of the class. -/
theorem forall_of_mem_splitOnP {p : Char → Bool} {s part : Text} (h : part ∈ s.splitOnP p) : ∀ c ∈ part, p c = false := by
  induction s generalizing part with
  | nil =>
    rw [List.splitOnP_nil, List.mem_singleton] at h
    simp [h]
  | cons c s ih =>
    rw [List.splitOnP_cons_eq_if_modifyHead] at h
    split at h
    · rcases List.mem_cons.mp h with rfl | h
      · simp
      · exact ih h
    · next hc =>
      cases hs : s.splitOnP p with
      | nil => exact absurd hs (List.splitOnP_ne_nil p s)
      | cons first parts =>
        rw [hs, List.modifyHead_cons] at h
        rcases List.mem_cons.mp h with rfl | h
        · intro d hd
          rcases List.mem_cons.mp hd with rfl | hd
          · simpa using hc
          · exact ih (hs ▸ List.mem_cons_self) d hd
        · exact ih (hs ▸ List.mem_cons_of_mem _ h)

theorem not_isBlank_of_mem_words {s word : Text} (h : word ∈ words s) : ∀ c ∈ word, isBlank c = false :=
  forall_of_mem_splitOnP (List.mem_filter.mp h).1

/-- A word in front of a blank is the first one. -/
theorem words_append_blank {word : Text} (hne : word ≠ []) (h : ∀ c ∈ word, isBlank c = false) {c : Char}
    (hc : isBlank c) (rest : Text) : words (word ++ c :: rest) = word :: words rest := by
  rw [words, List.splitOnP_append_cons_of_forall_mem h c hc rest, List.filter_cons_of_pos (by simpa using hne), words]

/-- Blanks at the front are no word. -/
theorem words_cons_blank {c : Char} (h : isBlank c) (s : Text) : words (c :: s) = words s := by
  rw [words, List.splitOnP_cons_eq_if_modifyHead, if_pos h, List.filter_cons_of_neg (by simp), words]

theorem words_dropWhile (s : Text) : words (s.dropWhile isBlank) = words s := by
  induction s with
  | nil => rfl
  | cons c s ih =>
    rw [List.dropWhile_cons]
    split
    · next hc => rw [ih, words_cons_blank hc]
    · rfl

/-- Between two words stands a blank at least. -/
theorem words_append_cons {c : Char} (h : isBlank c) (s t : Text) : words (s ++ c :: t) = words s ++ words t := by
  rw [words, List.splitOnP_append_cons s t h, List.filter_append, words, words]

theorem words_append_of_blank {t : Text} (h : ∀ c ∈ t, isBlank c = true) (s : Text) : words (s ++ t) = words s := by
  induction t generalizing s with
  | nil => rw [List.append_nil]
  | cons c t ih =>
    obtain ⟨hc, ht⟩ := List.forall_mem_cons.mp h
    have hnone : words t = [] := ih ht []
    rw [words_append_cons hc, hnone, List.append_nil]

/-- Trimming takes no word off. -/
theorem words_trim (s : Text) : words (trim s) = words s := by
  have hend : words (trimEnd (trimStart s)) = words (trimStart s) := by
    conv_rhs => rw [← trimEnd_append (trimStart s)]
    refine (words_append_of_blank (fun c hc => ?_) _).symm
    exact List.all_eq_true.mp List.all_takeWhile c (List.mem_reverse.mp hc)
  rw [trim, hend]
  exact words_dropWhile s

/-- A text without blanks is the one word of it. -/
theorem words_of_not_isBlank {word : Text} (hne : word ≠ []) (h : ∀ c ∈ word, isBlank c = false) :
    words word = [word] := by
  have hsplit := words_append_blank hne h (c := ' ') (by decide) []
  rwa [words_append_cons (by decide), show words [] = [] from rfl, List.append_nil] at hsplit

/-- The words between single spaces are those that were put there. -/
theorem words_spaced {parts : List Text} (hne : ∀ part ∈ parts, part ≠ [])
    (h : ∀ part ∈ parts, ∀ c ∈ part, isBlank c = false) : words (spaced parts) = parts := by
  induction parts with
  | nil => rfl
  | cons part parts ih =>
    obtain ⟨hpart, hparts⟩ := List.forall_mem_cons.mp hne
    obtain ⟨hblank, hblanks⟩ := List.forall_mem_cons.mp h
    cases parts with
    | nil => rw [spaced, List.intercalate_singleton, words_of_not_isBlank hpart hblank]
    | cons next parts =>
      have ih := ih hparts hblanks
      rw [spaced, List.intercalate_cons_cons, List.append_assoc, List.singleton_append, ← spaced,
        words_append_blank hpart hblank (by decide), ih]

/-- The first word of a text that begins with no blank stands at the front, before the end or a blank. -/
theorem exists_words_eq_cons {s : Text} (hne : s ≠ []) (h : ∀ c ∈ s.head?, isBlank c = false) :
    ∃ word rest, s = word ++ rest ∧ word ≠ [] ∧ (∀ c ∈ word, isBlank c = false) ∧
      (∀ c ∈ rest.head?, isBlank c = true) ∧ words s = word :: words rest := by
  have hword : ∀ c ∈ s.takeWhile (!isBlank ·), isBlank c = false := fun c hc => by
    simpa using List.all_eq_true.mp List.all_takeWhile c hc
  have hfirst : s.takeWhile (!isBlank ·) ≠ [] := by
    cases s with
    | nil => exact absurd rfl hne
    | cons c s => simp [h c rfl]
  have hs := List.takeWhile_append_dropWhile (p := (!isBlank ·)) (l := s)
  refine ⟨_, s.dropWhile (!isBlank ·), hs.symm, hfirst, hword, fun c hc => ?_, ?_⟩
  · have hnot := List.head?_dropWhile_not (!isBlank ·) s
    rw [Option.mem_def.mp hc] at hnot
    simpa using hnot
  · conv_lhs => rw [← hs]
    cases hrest : s.dropWhile (!isBlank ·) with
    | nil => rw [List.append_nil, words_of_not_isBlank hfirst hword, show words [] = [] from rfl]
    | cons c rest =>
      have hnot := List.head?_dropWhile_not (!isBlank ·) s
      rw [hrest] at hnot
      have hc : isBlank c = true := by simpa using hnot
      rw [words_append_blank hfirst hword hc, words_cons_blank hc]

/-! ## Spaced texts -/

/-- The text is its words with single spaces between them, and there is a word. -/
structure Spaced (s : Text) : Prop where
  ne_nil : s ≠ []
  spaced : Text.spaced (words s) = s

instance (s : Text) : Decidable (Spaced s) :=
  decidable_of_iff (s ≠ [] ∧ Text.spaced (words s) = s) ⟨fun ⟨ne_nil, spaced⟩ => ⟨ne_nil, spaced⟩,
    fun h => ⟨h.ne_nil, h.spaced⟩⟩

theorem getLast?_intercalate {sep : Text} {parts : List Text} (h : ∀ part ∈ parts, part ≠ []) :
    ∀ c ∈ (sep.intercalate parts).getLast?, ∃ part ∈ parts, c ∈ part := by
  induction parts with
  | nil => simp
  | cons part parts ih =>
    intro c hc
    cases parts with
    | nil =>
      rw [List.intercalate_singleton] at hc
      exact ⟨part, List.mem_cons_self, List.mem_of_getLast? hc⟩
    | cons next parts =>
      have hrest : sep.intercalate (next :: parts) ≠ [] := by
        intro he
        cases parts with
        | nil => exact h next (by simp) (by simpa using he)
        | cons _ _ => exact h next (by simp) (by simpa [List.intercalate_cons_cons] using (List.append_eq_nil_iff.mp he).1)
      rw [List.intercalate_cons_cons, List.getLast?_append_of_ne_nil _ hrest] at hc
      obtain ⟨p, hp, hcp⟩ := ih (fun p hp => h p (List.mem_cons_of_mem _ hp)) c hc
      exact ⟨p, List.mem_cons_of_mem _ hp, hcp⟩

/-- Texts with spaces between them have more than blanks exactly if one of them has. -/
theorem exists_not_isBlank_spaced_iff {parts : List Text} :
    (∃ c ∈ Text.spaced parts, isBlank c = false) ↔ ∃ part ∈ parts, ∃ c ∈ part, isBlank c = false := by
  have hspace : ¬∃ c ∈ [' '], isBlank c = false := by decide
  induction parts with
  | nil => simp [Text.spaced]
  | cons part parts ih =>
    cases parts with
    | nil => simp [Text.spaced]
    | cons next parts =>
      have happend : ∀ s t : Text, (∃ c ∈ s ++ t, isBlank c = false) ↔
          (∃ c ∈ s, isBlank c = false) ∨ ∃ c ∈ t, isBlank c = false := by
        simp [or_and_right, exists_or]
      rw [Text.spaced, List.intercalate_cons_cons, ← Text.spaced, happend, happend, or_iff_left hspace]
      exact (or_congr_right ih).trans (by simp)

theorem spaced_eq_nil_iff {parts : List Text} : Text.spaced parts = [] ↔ parts = [] ∨ parts = [[]] := by
  cases parts with
  | nil => simp [Text.spaced]
  | cons part parts =>
    cases parts with
    | nil => simp [Text.spaced]
    | cons next parts => simp [Text.spaced, List.intercalate_cons_cons]

/-- A spaced text does not end with a blank. -/
theorem Spaced.getLast? {s : Text} (h : Spaced s) : ∀ c ∈ s.getLast?, isBlank c = false := by
  intro c hc
  have hspaced := h.spaced
  rw [← hspaced] at hc
  obtain ⟨word, hword, hmem⟩ := getLast?_intercalate (fun word => words_mem) c hc
  exact not_isBlank_of_mem_words hword c hmem

end Text
end WindowRules

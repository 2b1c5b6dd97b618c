import WindowRules.Proofs.Encoding.Commas
import WindowRules.Proofs.Text.Words
import WindowRules.Text.Cut

/-!
# How a line is divided

A comma behind a safe text separates, and none of its own does (`split_append_comma`). The fragments of a line are the
only texts from which it is joined with commas such that each is escaped and none but the last ends with a backslash
(`split_eq_iff`); so texts that are safe can be joined and told apart again (`split_intercalate`).

The pieces of a fragment that its readers take are escaped as it is: what is in front of a character and behind it, the
trimmed text, and its words.
-/

namespace WindowRules

open Text

namespace Comma

/-! ## Splitting -/

theorem split_cons {c : Char} {s : Text} (hc : c ≠ ',') (h : c = '\\' → s.head? ≠ some ',') :
    split (c :: s) = (split s).modifyHead (c :: ·) := by
  rw [split.eq_def]
  split
  · next heq => cases heq
  · next rest heq => cases heq; exact absurd rfl (h rfl)
  · next heq => cases heq; exact absurd rfl hc
  · next heq => cases heq; rfl

/-- A comma behind a safe text is the first that separates. -/
theorem split_append_comma {s : Text} (h : Safe s) (t : Text) : split (s ++ ',' :: t) = s :: split t := by
  obtain ⟨hescaped, hlast⟩ := h
  fun_induction escape s with
  | case1 => rfl
  | case2 s ih =>
    have ih := ih (by simpa using hescaped) fun hl => hlast (by cases s <;> simp_all)
    simp only [List.cons_append, split, ih, List.modifyHead_cons]
  | case3 s ih => simp at hescaped
  | case4 c s hback hcomma ih =>
    have ih := ih (by simpa using hescaped) fun hl => hlast (by cases s <;> simp_all)
    rw [List.cons_append, split_cons hcomma, ih, List.modifyHead_cons]
    intro hc
    cases s with
    | nil => exact absurd (by simp [hc]) hlast
    | cons d s =>
      intro hd
      simp only [List.cons_append, List.head?_cons, Option.some.injEq] at hd
      exact hback s hc (by rw [hd])

/-- A text whose commas all have their backslash has none that separates. -/
theorem split_eq_singleton {s : Text} (h : escape s = s) : split s = [s] := by
  fun_induction escape s with
  | case1 => rfl
  | case2 s ih =>
    have ih := ih (by simpa using h)
    simp only [split, ih, List.modifyHead_cons]
  | case3 s ih => simp at h
  | case4 c s hback hcomma ih =>
    have ih := ih (by simpa using h)
    rw [split_cons hcomma, ih, List.modifyHead_cons]
    intro hc hd
    cases s with
    | nil => cases hd
    | cons d s =>
      cases hd
      exact hback s hc rfl

/-! ## Fragments -/

/-- The commas of a fragment are escaped. -/
theorem escaped_of_mem_split {s part : Text} (h : part ∈ split s) : Escaped part := by
  fun_induction split s generalizing part with
  | case1 => rw [List.mem_singleton.mp h]; exact escaped_nil
  | case2 s ih =>
    obtain ⟨first, parts, hs⟩ := List.exists_cons_of_ne_nil (split_ne_nil s)
    rw [hs, List.modifyHead_cons] at h
    rcases List.mem_cons.mp h with rfl | h
    · rw [Escaped, escape, ih (hs ▸ List.mem_cons_self)]
    · exact ih (hs ▸ List.mem_cons_of_mem _ h)
  | case3 s ih =>
    rcases List.mem_cons.mp h with rfl | h
    · exact escaped_nil
    · exact ih h
  | case4 c s hback hcomma ih =>
    obtain ⟨first, parts, hs⟩ := List.exists_cons_of_ne_nil (split_ne_nil s)
    rw [hs, List.modifyHead_cons] at h
    rcases List.mem_cons.mp h with rfl | h
    · have hfirst := ih (hs ▸ List.mem_cons_self)
      exact (escaped_cons_iff hcomma fun _ => hfirst.head?_ne).mpr hfirst
    · exact ih (hs ▸ List.mem_cons_of_mem _ h)

/-- What holds of every text but the last still does when the first is changed, if it holds of the changed text. -/
theorem forall_mem_dropLast_modifyHead {p : Text → Prop} {f : Text → Text} {parts : List Text}
    (h : ∀ part ∈ parts.dropLast, p part) (hfirst : ∀ first next rest, parts = first :: next :: rest → p (f first)) :
    ∀ part ∈ (parts.modifyHead f).dropLast, p part := by
  rcases parts with _ | ⟨first, _ | ⟨next, rest⟩⟩
  · exact h
  · simp
  · rw [List.modifyHead_cons, List.dropLast_cons_cons, List.forall_mem_cons]
    rw [List.dropLast_cons_cons, List.forall_mem_cons] at h
    exact ⟨hfirst first next rest rfl, h.2⟩

/-- A fragment before another one does not end with a backslash. -/
theorem getLast?_ne_of_mem_dropLast_split (s : Text) : ∀ part ∈ (split s).dropLast, part.getLast? ≠ some '\\' := by
  fun_induction split s with
  | case1 => simp
  | case2 s ih =>
    refine forall_mem_dropLast_modifyHead ih fun first next rest hs hl => ?_
    cases first with
    | nil => cases hl
    | cons d first => exact ih (d :: first) (by rw [hs]; exact List.mem_cons_self) (by simpa using hl)
  | case3 s ih =>
    rw [List.dropLast_cons_of_ne_nil (split_ne_nil s), List.forall_mem_cons]
    exact ⟨by simp, ih⟩
  | case4 c s hback hcomma ih =>
    refine forall_mem_dropLast_modifyHead ih fun first next rest hs hl => ?_
    cases first with
    | nil =>
      -- the next fragment begins behind a comma, so the backslash would have been read with it
      have hjoin := intercalate_split s
      rw [hs, List.intercalate_cons_cons] at hjoin
      cases hl
      exact hback _ rfl hjoin.symm
    | cons d first => exact ih (d :: first) (by rw [hs]; exact List.mem_cons_self) (by simpa using hl)

/-- **Fragments are told by their backslashes**: texts with commas between them are the fragments of the joined text
exactly if they are escaped and none but the last ends with a backslash. -/
theorem split_eq_iff {s : Text} {parts : List Text} :
    split s = parts ↔ parts ≠ [] ∧ [','].intercalate parts = s ∧ (∀ part ∈ parts, Escaped part) ∧
      ∀ part ∈ parts.dropLast, part.getLast? ≠ some '\\' := by
  constructor
  · rintro rfl
    exact ⟨split_ne_nil s, intercalate_split s, fun _ => escaped_of_mem_split, getLast?_ne_of_mem_dropLast_split s⟩
  · rintro ⟨hne, rfl, hescaped, hlast⟩
    induction parts with
    | nil => exact absurd rfl hne
    | cons part parts ih =>
      have hpart := hescaped part List.mem_cons_self
      cases parts with
      | nil => rw [List.intercalate_singleton]; exact split_eq_singleton hpart
      | cons next parts =>
        rw [List.dropLast_cons_cons] at hlast
        have hsafe : Safe part := ⟨hpart, hlast part List.mem_cons_self⟩
        have ih := ih (List.cons_ne_nil _ _) (fun p hp => hescaped p (List.mem_cons_of_mem _ hp))
          fun p hp => hlast p (List.mem_cons_of_mem _ hp)
        rw [List.intercalate_cons_cons, List.append_assoc, List.singleton_append, split_append_comma hsafe, ih]

/-- **Safe texts that are joined with commas are told apart again.** -/
theorem split_intercalate {parts : List Text} (hne : parts ≠ []) (h : ∀ part ∈ parts, Safe part) :
    split ([','].intercalate parts) = parts :=
  split_eq_iff.mpr ⟨hne, rfl, fun part hp => (h part hp).escaped,
    fun part hp => (h part (List.dropLast_subset _ hp)).last⟩

/-! ## Pieces of escaped texts -/

theorem Escaped.trim {s : Text} (h : Escaped s) : Escaped (Text.trim s) := by
  have hblank : (s.takeWhile isBlank).getLast? ≠ some '\\' := by
    intro hl
    have hb := List.all_eq_true.mp List.all_takeWhile '\\' (List.mem_of_getLast? hl)
    exact absurd hb (by decide)
  rw [← trimStart_append s] at h
  have hstart : Escaped (trimStart s) := h.of_append_right hblank
  rw [← trimEnd_append (trimStart s)] at hstart
  exact hstart.of_append_left

/-- The two sides of a cut at a character other than a backslash. -/
theorem Escaped.of_cutAt? {p : Char → Bool} (hp : p '\\' = false) {s before after : Text} (h : Escaped s)
    (hcut : cutAt? p s = some (before, after)) : Escaped before ∧ Escaped after := by
  obtain ⟨_, c, hc, rfl⟩ := cutAt?_eq_some_iff.mp hcut
  refine h.of_append_cons ?_
  rintro rfl
  exact Bool.false_ne_true (hp.symm.trans hc)

/-- A text that is divided at characters other than a backslash, behind some text. -/
theorem Escaped.of_splitOnP {p : Char → Bool} (hp : p '\\' = false) {start s first : Text} {parts : List Text}
    (h : Escaped (start ++ s)) (hs : s.splitOnP p = first :: parts) :
    Escaped (start ++ first) ∧ ∀ part ∈ parts, Escaped part := by
  induction s generalizing start first parts with
  | nil =>
    rw [List.splitOnP_nil, List.cons.injEq] at hs
    obtain ⟨rfl, rfl⟩ := hs
    exact ⟨h, by simp⟩
  | cons c s ih =>
    obtain ⟨next, others, hnext⟩ := List.exists_cons_of_ne_nil (List.splitOnP_ne_nil p s)
    rw [List.splitOnP_cons_eq_if_modifyHead, hnext] at hs
    split at hs
    · next hc =>
      obtain ⟨rfl, rfl⟩ := List.cons.inj hs
      have hne : c ≠ '\\' := by
        rintro rfl
        exact Bool.false_ne_true (hp.symm.trans hc)
      obtain ⟨hstart, hrest⟩ := h.of_append_cons hne
      have hnil : Escaped ([] ++ s) := hrest
      rw [List.append_nil]
      exact ⟨hstart, List.forall_mem_cons.mpr (ih hnil hnext)⟩
    · rw [List.modifyHead_cons] at hs
      obtain ⟨rfl, rfl⟩ := List.cons.inj hs
      have hconcat : Escaped (start ++ [c] ++ s) := by simpa using h
      simpa using ih hconcat hnext

theorem Escaped.of_mem_words {s word : Text} (h : Escaped s) (hw : word ∈ words s) : Escaped word := by
  obtain ⟨first, parts, hs⟩ := List.exists_cons_of_ne_nil (List.splitOnP_ne_nil isBlank s)
  have hnil : Escaped ([] ++ s) := h
  obtain ⟨hfirst, hparts⟩ := Escaped.of_splitOnP (by decide) hnil hs
  have hm := (List.mem_filter.mp hw).1
  rw [hs] at hm
  rcases List.mem_cons.mp hm with rfl | hm
  · exact hfirst
  · exact hparts word hm

end Comma
end WindowRules

import WindowRules.Proofs.Encoding.Commas
import WindowRules.Proofs.Text.Words

/-!
# Encoded words

Encoding a value changes commas and the backslashes before them, and nothing else. So it goes on by itself behind every
other character (`Dialect.encode_append_cons`), the words of a value are encoded one by one (`Dialect.encode_spaced`),
and neither a word nor a blank comes into being (`Dialect.encode_eq_nil_iff`, `Dialect.not_isBlank_of_mem_encode`).
-/

namespace WindowRules

open Text

namespace Comma

/-- Two texts are unescaped on their own unless a backslash at the end of the first meets a comma. -/
theorem unescape_append {s t : Text} (h : s.getLast? = some '\\' → t.head? ≠ some ',') :
    unescape (s ++ t) = unescape s ++ unescape t := by
  fun_induction unescape s with
  | case1 => rfl
  | case2 s ih =>
    have ih := ih fun hl => h (by cases s <;> simp_all)
    simp only [List.cons_append, unescape, ih]
  | case3 c s hback ih =>
    have ih := ih fun hl => h (by cases s <;> simp_all)
    rw [List.cons_append, unescape_cons, ih, List.cons_append]
    intro hc
    cases s with
    | nil => exact h (by simp [hc])
    | cons d s =>
      intro hd
      simp only [List.cons_append, List.head?_cons, Option.some.injEq] at hd
      exact hback s hc (by rw [hd])

/-- Escaping brings in backslashes only. -/
theorem escape_subset (s : Text) : escape s ⊆ '\\' :: s := by
  fun_induction escape s <;> grind

@[simp] theorem getLast?_escape (s : Text) : (escape s).getLast? = s.getLast? := by
  fun_induction escape s <;> simp_all [List.getLast?_cons]

theorem unescape_subset (s : Text) : unescape s ⊆ s := by
  fun_induction unescape s <;> grind

/-- Escaping changes no character but commas and backslashes. -/
theorem exists_mem_escape_iff {p : Char → Prop} (hback : p '\\') (hcomma : p ',') {s : Text} :
    (∃ c ∈ escape s, p c) ↔ ∃ c ∈ s, p c := by
  fun_induction escape s <;> simp_all

theorem exists_mem_unescape_iff {p : Char → Prop} (hback : p '\\') (hcomma : p ',') {s : Text} :
    (∃ c ∈ unescape s, p c) ↔ ∃ c ∈ s, p c := by
  fun_induction unescape s <;> simp_all

end Comma

namespace Dialect

variable (dialect : Dialect)

@[simp] theorem encode_nil : dialect.encode [] = [] := by cases dialect <;> rfl

theorem encode_cons {c : Char} (hcomma : c ≠ ',') (hback : c ≠ '\\') (s : Text) :
    dialect.encode (c :: s) = c :: dialect.encode s := by
  cases dialect with
  | block => exact Comma.unescape_cons fun hc => absurd hc hback
  | inline => exact Comma.escape_cons hcomma fun hc => absurd hc hback

/-- Encoding begins anew at every character other than a comma. -/
theorem encode_append_cons {c : Char} (hcomma : c ≠ ',') (hback : c ≠ '\\') (s t : Text) :
    dialect.encode (s ++ c :: t) = dialect.encode s ++ c :: dialect.encode t := by
  have hhead : (c :: t).head? ≠ some ',' := fun he => hcomma (Option.some.inj he)
  rw [← dialect.encode_cons hcomma hback]
  cases dialect with
  | block => exact Comma.unescape_append fun _ => hhead
  | inline => exact Comma.escape_append fun _ => hhead

/-- **The words of a value are encoded one by one.** -/
theorem encode_spaced (parts : List Text) : dialect.encode (spaced parts) = spaced (parts.map dialect.encode) := by
  induction parts with
  | nil => exact dialect.encode_nil
  | cons part parts ih =>
    cases parts with
    | nil => simp [spaced]
    | cons next parts =>
      rw [List.map_cons, List.map_cons, spaced, spaced, List.intercalate_cons_cons, List.intercalate_cons_cons,
        List.append_assoc, List.append_assoc, List.singleton_append, List.singleton_append,
        dialect.encode_append_cons (by decide) (by decide), ← spaced, ← spaced, ih, List.map_cons]

/-- An encoded value has a character that is no blank exactly if the value has one. -/
theorem exists_not_isBlank_encode_iff {s : Text} :
    (∃ c ∈ dialect.encode s, isBlank c = false) ↔ ∃ c ∈ s, isBlank c = false := by
  cases dialect with
  | block => exact Comma.exists_mem_unescape_iff (by decide) (by decide)
  | inline => exact Comma.exists_mem_escape_iff (by decide) (by decide)

theorem encode_eq_nil_iff {s : Text} : dialect.encode s = [] ↔ s = [] := by
  have hmem : (∃ c ∈ dialect.encode s, True) ↔ ∃ c ∈ s, True := by
    cases dialect with
    | block => exact Comma.exists_mem_unescape_iff trivial trivial
    | inline => exact Comma.exists_mem_escape_iff trivial trivial
  simp only [and_true] at hmem
  rw [List.eq_nil_iff_forall_not_mem, List.eq_nil_iff_forall_not_mem, ← not_exists, ← not_exists, hmem]

/-- Encoding brings in no blank. -/
theorem not_isBlank_of_mem_encode {s : Text} (h : ∀ c ∈ s, isBlank c = false) :
    ∀ c ∈ dialect.encode s, isBlank c = false := by
  intro c hc
  cases dialect with
  | block => exact h c (Comma.unescape_subset s hc)
  | inline =>
    rcases List.mem_cons.mp (Comma.escape_subset s hc) with rfl | hc
    · decide
    · exact h c hc

theorem words_encode_spaced {parts : List Text} (hne : ∀ part ∈ parts, part ≠ [])
    (h : ∀ part ∈ parts, ∀ c ∈ part, isBlank c = false) :
    words (dialect.encode (spaced parts)) = parts.map dialect.encode := by
  rw [dialect.encode_spaced]
  apply words_spaced
  · exact List.forall_mem_map.mpr fun part hp he => hne part hp (dialect.encode_eq_nil_iff.mp he)
  · exact List.forall_mem_map.mpr fun part hp => dialect.not_isBlank_of_mem_encode (h part hp)

end Dialect
end WindowRules

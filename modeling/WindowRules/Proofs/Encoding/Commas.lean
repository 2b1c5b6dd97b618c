import WindowRules.Comma
import WindowRules.Dialect
import Mathlib.Data.List.Basic

/-!
# Commas written and read again

A text is escaped if every comma of it has its backslash (`Comma.Escaped`), that is if a backslash stands directly before
each (`escaped_iff`). So a piece of it that does not begin behind a backslash is escaped, too. A text is safe between
commas if it is escaped and does not end with a backslash (`Comma.Safe`).

Escaping forgets whether a comma had a backslash before, and unescaping too, so each undoes what the other one did up
to that (`unescape_escape`).
-/

namespace WindowRules
namespace Comma

/-! ## Escaping piece by piece -/

theorem escape_cons {c : Char} {s : Text} (hc : c ≠ ',') (h : c = '\\' → s.head? ≠ some ',') :
    escape (c :: s) = c :: escape s := by
  rw [escape.eq_def]
  split
  · next heq => cases heq
  · next rest heq => cases heq; exact absurd rfl (h rfl)
  · next heq => cases heq; exact absurd rfl hc
  · next heq => cases heq; rfl

/-- Two texts are escaped on their own unless a backslash at the end of the first meets a comma. -/
theorem escape_append {s t : Text} (h : s.getLast? = some '\\' → t.head? ≠ some ',') :
    escape (s ++ t) = escape s ++ escape t := by
  fun_induction escape s with
  | case1 => rfl
  | case2 s ih =>
    have ih := ih fun hl => h (by cases s <;> simp_all)
    simp only [List.cons_append, escape, ih]
  | case3 s ih =>
    have ih := ih fun hl => h (by cases s <;> simp_all)
    simp only [List.cons_append, escape, ih]
  | case4 c s hback hcomma ih =>
    have ih := ih fun hl => h (by cases s <;> simp_all)
    rw [List.cons_append, escape_cons hcomma, ih, List.cons_append]
    intro hc
    cases s with
    | nil => exact h (by simp [hc])
    | cons d s =>
      intro hd
      simp only [List.cons_append, List.head?_cons, Option.some.injEq] at hd
      exact hback s hc (by rw [hd])

theorem escape_eq_self_of_not_mem {s : Text} (h : ',' ∉ s) : escape s = s := by
  induction s with
  | nil => rfl
  | cons c s ih =>
    have hc : c ≠ ',' := fun e => h (e ▸ List.mem_cons_self)
    have hs : ',' ∉ s := fun hm => h (List.mem_cons_of_mem _ hm)
    rw [escape_cons hc, ih hs]
    exact fun _ hd => hs (List.mem_of_head? hd)

theorem unescape_cons {c : Char} {s : Text} (h : c = '\\' → s.head? ≠ some ',') :
    unescape (c :: s) = c :: unescape s := by
  rw [unescape.eq_def]
  split
  · next heq => cases heq
  · next rest heq => cases heq; exact absurd rfl (h rfl)
  · next heq => cases heq; rfl

/-- **Unescaping leaves a text alone exactly if no comma of it has a backslash directly before it.** -/
theorem unescape_eq_self_iff {s : Text} : unescape s = s ↔ ¬['\\', ','] <:+: s := by
  fun_induction unescape s with
  | case1 => simp
  | case2 s ih =>
    have hpair : ['\\', ','] <:+: '\\' :: ',' :: s := (List.prefix_append ['\\', ','] s).isInfix
    simp [hpair]
  | case3 c s hback ih =>
    have hfirst : ¬['\\', ','] <+: c :: s := by
      rintro ⟨rest, he⟩
      cases he
      exact hback rest rfl rfl
    rw [List.infix_cons_iff, not_or, ← ih, List.cons.injEq]
    simp [hfirst]

theorem unescape_eq_self_of_not_mem {s : Text} (h : '\\' ∉ s) : unescape s = s :=
  unescape_eq_self_iff.mpr fun hpair => h (hpair.subset List.mem_cons_self)

/-! ## Escaped texts -/

/-- Every comma has a backslash directly before it. -/
def Escaped (s : Text) : Prop := escape s = s

instance (s : Text) : Decidable (Escaped s) := inferInstanceAs (Decidable (escape s = s))

theorem Escaped.head?_ne {s : Text} (h : Escaped s) : s.head? ≠ some ',' := by
  intro hs
  cases s with
  | nil => cases hs
  | cons c s =>
    cases hs
    rw [Escaped, escape] at h
    cases h

theorem escaped_cons_iff {c : Char} {s : Text} (hc : c ≠ ',') (h : c = '\\' → s.head? ≠ some ',') :
    Escaped (c :: s) ↔ Escaped s := by
  rw [Escaped, escape_cons hc h, List.cons.injEq, Escaped]
  exact and_iff_right rfl

/-- **A text is escaped exactly if a backslash stands directly before each of its commas.** -/
theorem escaped_iff {s : Text} :
    Escaped s ↔ ∀ before after, s = before ++ ',' :: after → before.getLast? = some '\\' := by
  unfold Escaped
  fun_induction escape s with
  | case1 => simp
  | case2 s ih =>
    rw [List.cons.injEq, List.cons.injEq, and_iff_right rfl, and_iff_right rfl, ih]
    constructor <;> intro h before after he
    · rcases before with _ | ⟨c, _ | ⟨d, before⟩⟩
      · cases he
      · cases he
        rfl
      · cases he
        rw [List.getLast?_cons, List.getLast?_cons, h before after rfl]
        rfl
    · have hb := h ('\\' :: ',' :: before) after (by rw [he]; rfl)
      cases before with
      | nil => cases hb
      | cons c before => simpa using hb
  | case3 s ih =>
    refine iff_of_false (fun h => by cases h) fun h => ?_
    cases h [] s rfl
  | case4 c s hback hcomma ih =>
    rw [List.cons.injEq, and_iff_right rfl, ih]
    constructor <;> intro h before after he
    · cases before with
      | nil => cases he; exact absurd rfl hcomma
      | cons d before =>
        cases he
        rw [List.getLast?_cons, h before after rfl]
        rfl
    · have hb := h (c :: before) after (by rw [he]; rfl)
      cases before with
      | nil => cases hb; exact absurd he (hback after rfl)
      | cons d before => simpa using hb

theorem Escaped.of_append_left {s t : Text} (h : Escaped (s ++ t)) : Escaped s := by
  refine escaped_iff.mpr fun before after he => ?_
  exact escaped_iff.mp h before (after ++ t) (by rw [he, List.append_assoc, List.cons_append])

/-- The last character of two texts is the last one of the second, or of the first. -/
theorem getLast?_append_eq_some {s t : Text} {c : Char} (h : (s ++ t).getLast? = some c) :
    t.getLast? = some c ∨ s.getLast? = some c := by
  rw [List.getLast?_append, Option.or_eq_some_iff] at h
  exact h.imp_right And.right

/-- What does not begin behind a backslash is escaped on its own. -/
theorem Escaped.of_append_right {s t : Text} (h : Escaped (s ++ t)) (hs : s.getLast? ≠ some '\\') : Escaped t := by
  refine escaped_iff.mpr fun before after he => ?_
  have hlast := escaped_iff.mp h (s ++ before) after (by rw [he, List.append_assoc])
  exact (getLast?_append_eq_some hlast).resolve_right hs

theorem Escaped.append {s t : Text} (hs : Escaped s) (ht : Escaped t) : Escaped (s ++ t) := by
  rw [Escaped, escape_append fun _ => ht.head?_ne, hs, ht]

/-- Both sides of a place where no backslash stands are escaped. -/
theorem escaped_append_iff {s t : Text} (hs : s.getLast? ≠ some '\\') : Escaped (s ++ t) ↔ Escaped s ∧ Escaped t :=
  ⟨fun h => ⟨h.of_append_left, h.of_append_right hs⟩, fun h => h.1.append h.2⟩

/-- Both sides of a character other than a backslash. -/
theorem Escaped.of_append_cons {s t : Text} {c : Char} (h : Escaped (s ++ c :: t)) (hc : c ≠ '\\') :
    Escaped s ∧ Escaped t := by
  have hlast : (s ++ [c]).getLast? ≠ some '\\' := by simpa using hc
  exact ⟨h.of_append_left, Escaped.of_append_right (s := s ++ [c]) (by simpa using h) hlast⟩

/-- A text is escaped around a character that is neither mark. -/
theorem escaped_append_cons_iff {s t : Text} {c : Char} (hcomma : c ≠ ',') (hc : c ≠ '\\') :
    Escaped (s ++ c :: t) ↔ Escaped s ∧ Escaped t :=
  ⟨fun h => h.of_append_cons hc, fun h => h.1.append ((escaped_cons_iff hcomma fun e => absurd e hc).mpr h.2)⟩

theorem escaped_nil : Escaped [] := rfl

/-! ## Safe texts -/

/-- Every comma has a backslash directly before it, and the last character is no backslash. -/
structure Safe (s : Text) : Prop where
  escaped : escape s = s
  last : s.getLast? ≠ some '\\'

instance (s : Text) : Decidable (Safe s) :=
  decidable_of_iff (escape s = s ∧ s.getLast? ≠ some '\\') ⟨fun ⟨escaped, last⟩ => ⟨escaped, last⟩,
    fun h => ⟨h.escaped, h.last⟩⟩

theorem Safe.of_not_mem {s : Text} (h : ',' ∉ s) (hl : s.getLast? ≠ some '\\') : Safe s :=
  ⟨escape_eq_self_of_not_mem h, hl⟩

theorem Safe.append {s t : Text} (hs : Safe s) (ht : Safe t) : Safe (s ++ t) where
  escaped := Escaped.append hs.escaped ht.escaped
  last := fun hl => (getLast?_append_eq_some hl).elim ht.last hs.last

/-- Text without commas, then a space, then a safe text. -/
theorem Safe.spaced {s t : Text} (hs : ',' ∉ s) (ht : Safe t) : Safe (s ++ ' ' :: t) := by
  have h : Safe (s ++ [' ']) := Safe.of_not_mem (by simpa using hs) (by simp)
  simpa using h.append ht

/-- Behind a space a text is escaped on its own. -/
theorem Safe.escape_value {s t : Text} (h : Safe (s ++ ' ' :: t)) : escape t = t :=
  (Escaped.of_append_cons h.escaped (by decide)).2

/-! ## Both ways of writing a comma -/

theorem head?_ne_comma {c : Char} {s : Text} (h : ∀ rest, c = '\\' → s = ',' :: rest → False) :
    c = '\\' → s.head? ≠ some ',' := by
  intro hc hd
  cases s with
  | nil => cases hd
  | cons d s => cases hd; exact h s hc rfl

theorem head?_escape_ne {s : Text} (h : s.head? ≠ some ',') : (escape s).head? ≠ some ',' := by
  fun_induction escape s with
  | case1 => exact h
  | case2 => simp
  | case3 => simp
  | case4 => simpa using h

/-- Escaping is done once. -/
theorem escaped_escape (s : Text) : Escaped (escape s) := by
  fun_induction escape s with
  | case1 => rfl
  | case2 s ih => rw [Escaped, escape, ih]
  | case3 s ih => rw [Escaped, escape, ih]
  | case4 c s hback hcomma ih =>
    exact (escaped_cons_iff hcomma fun hc => head?_escape_ne (head?_ne_comma hback hc)).mpr ih

/-- Unescaping undoes escaping, except that a backslash before a comma is lost. -/
theorem unescape_escape (s : Text) : unescape (escape s) = unescape s := by
  fun_induction escape s with
  | case1 => rfl
  | case2 s ih => simp only [unescape, ih]
  | case3 s ih =>
    have h : unescape (',' :: s) = ',' :: unescape s := by rw [unescape]; simp
    rw [unescape, ih, h]
  | case4 c s hback hcomma ih =>
    have hhead := head?_ne_comma hback
    rw [unescape_cons fun hc => head?_escape_ne (hhead hc), unescape_cons hhead, ih]

/-- Escaping undoes unescaping, except that a bare comma gets its backslash, unless one backslash is dropped and another
one takes its place. -/
theorem escape_unescape {s : Text} (h : unescape (unescape s) = unescape s) : escape (unescape s) = escape s := by
  fun_induction unescape s with
  | case1 => rfl
  | case2 s ih =>
    rw [unescape_cons fun hc => by cases hc] at h
    have ih := ih (List.cons.inj h).2
    rw [escape, escape, ih]
  | case3 c s hback ih =>
    have hhead : c = '\\' → (unescape s).head? ≠ some ',' := by
      refine head?_ne_comma fun rest hc hu => ?_
      rw [hc, hu, unescape] at h
      cases h
    rw [unescape_cons hhead] at h
    have ih := ih (List.cons.inj h).2
    by_cases hcomma : c = ','
    · rw [hcomma, escape, escape, ih]
    · rw [escape_cons hcomma hhead, escape_cons hcomma (head?_ne_comma hback), ih]

end Comma

/-- What is kept for a line and has its commas bare otherwise is kept for a block as it was. -/
theorem Dialect.encode_encode {s : Text} (h : Comma.unescape s = s) :
    Dialect.block.encode (Dialect.inline.encode s) = s := (Comma.unescape_escape s).trans h

end WindowRules

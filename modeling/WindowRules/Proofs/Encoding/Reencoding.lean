import WindowRules.Proofs.Encoding.Commas

/-!
# Values that are encoded again

A value is encoded anew at every conversion. What was written for a line can be encoded again as if it had not been,
for either dialect. What was written for a block has lost one backslash before each of its commas, and where two stood
there the other one is now taken for that of the comma.

* `Comma.pair_infix_unescape_iff` — unescaping leaves a backslash before a comma exactly where there were two.
* `Dialect.encode_encode_eq_iff` — so the last dialect alone decides unless the first one is that of blocks and a comma
  of the value has two backslashes before it.
* `Comma.escape_eq_mark_unescape` — escaping is unescaping and then marking every comma. So both dialects forget the
  same of a value (`Dialect.encodings_forget_alike`): marking forgets nothing, since `unescape` undoes it.
-/

namespace WindowRules

namespace Comma

theorem head?_unescape_eq_comma_iff {s : Text} :
    (unescape s).head? = some ',' ↔ s.head? = some ',' ∨ ['\\', ','] <+: s := by
  fun_cases unescape s with
  | case1 => simp
  | case2 s => simp [List.prefix_cons_iff]
  | case3 c s hback =>
    have hpair : ¬['\\', ','] <+: c :: s := by
      rintro ⟨rest, he⟩
      cases he
      exact hback rest rfl rfl
    rw [or_iff_left hpair, List.head?_cons, List.head?_cons]

/-- **Unescaping leaves a backslash before a comma exactly where two stood before it.** -/
theorem pair_infix_unescape_iff {s : Text} : ['\\', ','] <:+: unescape s ↔ ['\\', '\\', ','] <:+: s := by
  fun_induction unescape s with
  | case1 => simp
  | case2 s ih => simp [List.infix_cons_iff, ih]
  | case3 c s hback ih =>
    have hhead := head?_ne_comma hback
    rw [List.infix_cons_iff, List.infix_cons_iff, ih, List.cons_prefix_cons, List.cons_prefix_cons]
    refine or_congr_left (and_congr_right fun hc => ?_)
    -- the comma that follows now was one behind a backslash
    have hcomma : (unescape s).head? = some ',' ↔ ['\\', ','] <+: s := by
      rw [head?_unescape_eq_comma_iff, or_iff_right (hhead hc.symm)]
    rw [← hcomma, List.head?_eq_some_iff]
    exact exists_congr fun rest => eq_comm

theorem unescape_unescape_eq_iff {s : Text} : unescape (unescape s) = unescape s ↔ ¬['\\', '\\', ','] <:+: s := by
  rw [unescape_eq_self_iff, pair_infix_unescape_iff]

/-- Escaping undoes unescaping if unescaping is done once. -/
theorem escape_unescape_eq_iff {s : Text} : escape (unescape s) = escape s ↔ ¬['\\', '\\', ','] <:+: s := by
  rw [← unescape_unescape_eq_iff]
  refine ⟨fun h => ?_, escape_unescape⟩
  have hunescape := congrArg unescape h
  rwa [unescape_escape, unescape_escape] at hunescape

end Comma

namespace Dialect

/-- **When an encoding depends on the last dialect only.** Encoding a value first for lines makes no difference. Encoding
it first for blocks makes none exactly if no comma of the value has two backslashes directly before it. -/
theorem encode_encode_eq_iff (last first : Dialect) (value : Text) :
    last.encode (first.encode value) = last.encode value ↔ first = .inline ∨ ¬['\\', '\\', ','] <:+: value := by
  cases first with
  | inline =>
    refine iff_of_true ?_ (Or.inl rfl)
    cases last with
    | inline => exact Comma.escaped_escape value
    | block => exact Comma.unescape_escape value
  | block =>
    rw [or_iff_right (by decide : Dialect.block ≠ .inline)]
    cases last with
    | inline => exact Comma.escape_unescape_eq_iff
    | block => exact Comma.unescape_unescape_eq_iff

/-- Of two backslashes before a comma a block takes one, and the second time the other one. -/
theorem not_encode_encode :
    (¬∀ (last first : Dialect) (value : Text), last.encode (first.encode value) = last.encode value) ∧
      block.encode (block.encode "a\\\\,b".toList) = "a,b".toList ∧ block.encode "a\\\\,b".toList = "a\\,b".toList ∧
      inline.encode (block.encode "a\\\\,b".toList) = "a\\,b".toList ∧
      inline.encode "a\\\\,b".toList = "a\\\\,b".toList := by
  refine ⟨fun h => ?_, by decide, by decide, by decide, by decide⟩
  exact absurd (h block block "a\\\\,b".toList) (by decide)

end Dialect

/-! ## What both dialects forget of a value -/

namespace Comma

/-- The text with one backslash put in front of every comma. -/
def mark (s : Text) : Text := s.flatMap fun c => if c = ',' then ['\\', ','] else [c]

@[simp] theorem mark_nil : mark [] = [] := rfl

@[simp] theorem mark_comma (s : Text) : mark (',' :: s) = '\\' :: ',' :: mark s := rfl

theorem mark_cons {c : Char} (hcomma : c ≠ ',') (s : Text) : mark (c :: s) = c :: mark s := by
  simp [mark, hcomma]

theorem head?_mark_ne (s : Text) : (mark s).head? ≠ some ',' := by
  cases s with
  | nil => simp
  | cons c s =>
    by_cases hcomma : c = ','
    · simp [hcomma]
    · simpa [mark_cons hcomma] using hcomma

/-- Every mark is taken off again, however many backslashes stand before it. -/
theorem unescape_mark (s : Text) : unescape (mark s) = s := by
  induction s with
  | nil => rfl
  | cons c s ih =>
    by_cases hcomma : c = ','
    · rw [hcomma, mark_comma, unescape, ih]
    · rw [mark_cons hcomma, unescape_cons fun _ => head?_mark_ne s, ih]

/-- **Escaping is unescaping and then marking every comma.** -/
theorem escape_eq_mark_unescape (s : Text) : escape s = mark (unescape s) := by
  fun_induction escape s with
  | case1 => rfl
  | case2 s ih => rw [unescape, mark_comma, ih]
  | case3 s ih => rw [unescape_cons (fun hc => by cases hc), mark_comma, ih]
  | case4 c s hback hcomma ih => rw [unescape_cons (head?_ne_comma hback), mark_cons hcomma, ih]

end Comma

namespace Dialect

/-- **Both dialects forget the same of a value.** What is written for a line is what is written for a block with one
backslash put in front of every comma. So two values are written alike for blocks exactly if they are written alike for
lines; and a value comes back with its commas bare exactly if none of them had a backslash. -/
theorem encodings_forget_alike (value other : Text) :
    Comma.escape value = Comma.mark (Comma.unescape value) ∧
      (block.encode value = block.encode other ↔ inline.encode value = inline.encode other) ∧
      (Comma.unescape (Comma.escape value) = value ↔ ¬['\\', ','] <:+: value) := by
  refine ⟨Comma.escape_eq_mark_unescape value, ?_, ?_⟩
  · simp only [encode]
    rw [Comma.escape_eq_mark_unescape value, Comma.escape_eq_mark_unescape other]
    constructor
    · exact congrArg Comma.mark
    · intro h
      have hunescape := congrArg Comma.unescape h
      rwa [Comma.unescape_mark, Comma.unescape_mark] at hunescape
  · rw [Comma.unescape_escape]
    exact Comma.unescape_eq_self_iff

end Dialect
end WindowRules

import WindowRules.Text.Blank

/-!
# Cutting texts

A text is cut at its first character of a class (`cutAt?`), or relieved of a given opening or closing
(`stripPrefix?`, `stripSuffix?`), or cut behind a number of bytes (`takeBytes?`). Each of the four is pinned down by the
equation between the text and its pieces (`cutAt?_eq_some_iff`, `stripPrefix?_eq_some_iff`, `stripSuffix?_eq_some_iff`,
`takeBytes?_eq_some_iff`).
-/

namespace WindowRules
namespace Text

/-- What stands before and after the first character of class `p`, if there is one. -/
def cutAt? (p : Char → Bool) : Text → Option (Text × Text)
  | [] => none
  | c :: s => if p c then some ([], s) else (cutAt? p s).map fun (before, after) => (c :: before, after)

/-- The rest of a text after the opening `start`, if the text begins so. -/
def stripPrefix? (start s : Text) : Option Text := if start.isPrefixOf s then some (s.drop start.length) else none

/-- The text before its last character `last`, if the text ends so. -/
def stripSuffix? (last : Char) (s : Text) : Option Text := if s.getLast? = some last then some s.dropLast else none

/-- The number of bytes that the text takes in UTF-8. -/
def byteLength : Text → Nat
  | [] => 0
  | c :: s => c.utf8Size + byteLength s

/-- The characters in the first `count` bytes of the text, if a character ends there. -/
def takeBytes? : Nat → Text → Option Text
  | 0, _ => some []
  | _ + 1, [] => none
  | count + 1, c :: s =>
    if c.utf8Size ≤ count + 1 then (takeBytes? (count + 1 - c.utf8Size) s).map (c :: ·) else none

/-- Two pieces come from a cut exactly if a character of the class stands between them and none in the first. -/
theorem cutAt?_eq_some_iff {p : Char → Bool} {s before after : Text} :
    cutAt? p s = some (before, after) ↔ (∀ c ∈ before, p c = false) ∧ ∃ c, p c ∧ s = before ++ c :: after := by
  induction s generalizing before with
  | nil => simp [cutAt?]
  | cons c s ih =>
    by_cases hc : p c
    · simp only [cutAt?, hc, if_true, Option.some.injEq, Prod.mk.injEq]
      constructor
      · rintro ⟨rfl, rfl⟩; exact ⟨by simp, c, hc, rfl⟩
      · rintro ⟨hb, d, _, he⟩
        cases before with
        | nil => simp at he; exact ⟨rfl, he.2⟩
        | cons b bs =>
          simp only [List.cons_append, List.cons.injEq] at he
          have := hb b List.mem_cons_self
          rw [← he.1, hc] at this; cases this
    · simp only [cutAt?, hc, Bool.false_eq_true, if_false, Option.map_eq_some_iff, Prod.mk.injEq, Prod.exists]
      constructor
      · rintro ⟨a, b, h, rfl, rfl⟩
        obtain ⟨hb, d, hd, rfl⟩ := ih.mp h
        exact ⟨by simpa [hc] using hb, d, hd, rfl⟩
      · rintro ⟨hb, d, hd, he⟩
        cases before with
        | nil => simp at he; rw [he.1] at hc; exact absurd hd hc
        | cons b bs =>
          simp only [List.cons_append, List.cons.injEq] at he
          obtain ⟨rfl, he⟩ := he
          exact ⟨bs, after, ih.mpr ⟨fun x hx => hb x (List.mem_cons_of_mem _ hx), d, hd, he⟩, rfl, rfl⟩

/-- A text cannot be cut exactly if no character of it is of the class. -/
theorem cutAt?_eq_none_iff {p : Char → Bool} {s : Text} : cutAt? p s = none ↔ ∀ c ∈ s, p c = false := by
  induction s with
  | nil => simp [cutAt?]
  | cons c s ih => by_cases hc : p c <;> simp [cutAt?, hc, ih]

/-- A rest comes from an opening exactly if the two together are the text. -/
theorem stripPrefix?_eq_some_iff {start s rest : Text} : stripPrefix? start s = some rest ↔ s = start ++ rest := by
  unfold stripPrefix?
  constructor
  · intro h
    split at h
    · next hp =>
      obtain ⟨t, rfl⟩ : start <+: s := by simpa using hp
      simp at h; rw [h]
    · cases h
  · rintro rfl; simp

/-- What precedes a closing character is found exactly if the two together are the text. -/
theorem stripSuffix?_eq_some_iff {last : Char} {s rest : Text} :
    stripSuffix? last s = some rest ↔ s = rest ++ [last] := by
  unfold stripSuffix?
  constructor
  · intro h
    split at h
    · next hl =>
      obtain ⟨t, rfl⟩ := List.getLast?_eq_some_iff.mp hl
      simp at h; rw [h]
    · cases h
  · rintro rfl; simp

@[simp] theorem byteLength_nil : byteLength [] = 0 := rfl

@[simp] theorem byteLength_cons (c : Char) (s : Text) : byteLength (c :: s) = c.utf8Size + byteLength s := rfl

@[simp] theorem byteLength_append (s t : Text) : byteLength (s ++ t) = byteLength s + byteLength t := by
  induction s with
  | nil => simp
  | cons c s ih => simp [ih, Nat.add_assoc]

/-- Some characters are the first bytes exactly if the text begins with them and they take as many bytes. -/
theorem takeBytes?_eq_some_iff {count : Nat} {s taken : Text} :
    takeBytes? count s = some taken ↔ byteLength taken = count ∧ ∃ rest, s = taken ++ rest := by
  fun_induction takeBytes? count s generalizing taken with
  | case1 s =>
    constructor
    · rintro ⟨⟩; exact ⟨rfl, s, rfl⟩
    · rintro ⟨hlength, -⟩
      cases taken with
      | nil => rfl
      | cons c taken => have := c.utf8Size_pos; simp at hlength; omega
  | case2 count =>
    constructor
    · intro h; cases h
    · rintro ⟨hlength, rest, he⟩
      rw [(List.append_eq_nil_iff.mp he.symm).1] at hlength
      cases hlength
  | case3 count c s hfits ih =>
    rw [Option.map_eq_some_iff]
    constructor
    · rintro ⟨taken, htaken, rfl⟩
      obtain ⟨hlength, rest, rfl⟩ := ih.mp htaken
      exact ⟨by rw [byteLength_cons]; omega, rest, rfl⟩
    · rintro ⟨hlength, rest, he⟩
      cases taken with
      | nil => cases hlength
      | cons first taken =>
        obtain ⟨rfl, rfl⟩ := List.cons.inj he
        rw [byteLength_cons] at hlength
        exact ⟨taken, ih.mpr ⟨by omega, rest, rfl⟩, rfl⟩
  | case4 count c s hlong =>
    constructor
    · intro h; cases h
    · rintro ⟨hlength, rest, he⟩
      cases taken with
      | nil => cases hlength
      | cons first taken =>
        obtain ⟨rfl, rfl⟩ := List.cons.inj he
        rw [byteLength_cons] at hlength
        omega

end Text
end WindowRules

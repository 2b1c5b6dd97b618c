import WindowRules.Text.Blank

/-!
# Commas in values

A rule on one line separates its fragments with commas, so a comma of a value is written there behind a backslash
(`escape`); elsewhere it stands bare (`unescape`). A comma directly behind a backslash never separates, however many
backslashes come before that one (`split`).

Splitting loses nothing: joined with commas the fragments are the text again (`intercalate_split`), and there is always
at least one of them (`split_ne_nil`).
-/

namespace WindowRules
namespace Comma

/-- Puts a backslash before every comma that has none. -/
def escape : Text → Text
  | [] => []
  | '\\' :: ',' :: s => '\\' :: ',' :: escape s
  | ',' :: s => '\\' :: ',' :: escape s
  | c :: s => c :: escape s

/-- Drops the backslash directly before every comma. -/
def unescape : Text → Text
  | [] => []
  | '\\' :: ',' :: s => ',' :: unescape s
  | c :: s => c :: unescape s

/-- The fragments between the commas that have no backslash directly before them. -/
def split : Text → List Text
  | [] => [[]]
  | '\\' :: ',' :: s => (split s).modifyHead ('\\' :: ',' :: ·)
  | ',' :: s => [] :: split s
  | c :: s => (split s).modifyHead (c :: ·)

/-- There is always a first fragment. -/
theorem split_ne_nil (s : Text) : split s ≠ [] := by
  fun_induction split s <;> simp_all

/-- Putting characters in front of the first of several texts puts them in front of the joined text. -/
theorem intercalate_modifyHead (sep start : Text) {parts : List Text} (h : parts ≠ []) :
    sep.intercalate (parts.modifyHead (start ++ ·)) = start ++ sep.intercalate parts := by
  cases parts with
  | nil => exact absurd rfl h
  | cons p ps => cases ps <;> simp [List.intercalate, List.intersperse]

/-- **Splitting loses nothing**: joined with commas, the fragments are the text. -/
theorem intercalate_split (s : Text) : [','].intercalate (split s) = s := by
  fun_induction split s with
  | case1 => rfl
  | case2 s ih => simpa [ih] using intercalate_modifyHead [','] ['\\', ','] (split_ne_nil s)
  | case3 s ih =>
    rcases h : split s with _ | ⟨p, ps⟩
    · exact absurd h (split_ne_nil s)
    · rw [h] at ih; simp [List.intercalate, List.intersperse] at ih ⊢; exact ih
  | case4 c s _ _ ih => simpa [ih] using intercalate_modifyHead [','] [c] (split_ne_nil s)

end Comma
end WindowRules

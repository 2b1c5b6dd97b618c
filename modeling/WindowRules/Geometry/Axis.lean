import WindowRules.Decimal.Numeral
import WindowRules.Decimal.Shortest

/-!
# Axes and shares

Sizes and positions are expressions over the sizes of the monitor and of the window and the place of the cursor, each
along one axis (`Axis`). The first of several numbers is meant along the horizontal axis and all others along the
vertical one (`Axis.distribute`). A percentage is a share of the monitor (`Axis.share?`).
-/

namespace WindowRules

/-- The direction along which a number is meant. -/
inductive Axis where
  /-- From left to right. -/
  | horizontal
  /-- From top to bottom. -/
  | vertical
deriving DecidableEq, Repr

namespace Axis

/-- The variable that holds the size of the monitor. -/
def monitor : Axis → Text
  | horizontal => "monitor_w".toList
  | vertical => "monitor_h".toList

/-- The variable that holds the size of the window. -/
def window : Axis → Text
  | horizontal => "window_w".toList
  | vertical => "window_h".toList

/-- The variable that holds the place of the cursor. -/
def cursor : Axis → Text
  | horizontal => "cursor_x".toList
  | vertical => "cursor_y".toList

/-- Applies a rule along the horizontal axis to the first text and along the vertical axis to the others. -/
def distribute {α : Type} (rule : Axis → Text → α) : List Text → List α
  | [] => []
  | first :: others => rule horizontal first :: others.map (rule vertical)

/-- There is one result for each text. -/
@[simp] theorem length_distribute {α : Type} (rule : Axis → Text → α) (texts : List Text) :
    (distribute rule texts).length = texts.length := by cases texts <;> simp [distribute]

/-- The hundredth part of the number at the start of the text, after blanks; no number gives NaN. -/
def hundredth (s : Text) : Float := Numeral.leading s / 100.0

/-- The expression for a percentage: a share of the monitor along the axis. Text without a percent sign at its end is no
percentage. -/
def share? (axis : Axis) (s : Text) : Option Text :=
  (Text.stripSuffix? '%' s).map fun number =>
    '(' :: axis.monitor ++ '*' :: Decimal.text (hundredth number) ++ [')']

/-- Exactly the texts that end with a percent sign are percentages. -/
theorem share?_eq_none_iff (axis : Axis) (s : Text) : axis.share? s = none ↔ ∀ rest, s ≠ rest ++ ['%'] := by
  rw [share?, Option.map_eq_none_iff, Option.eq_none_iff_forall_ne_some]
  exact forall_congr' fun rest => not_congr Text.stripSuffix?_eq_some_iff

/-- A percentage is written as its share, and any other text as it stands. -/
def shareOrSame (axis : Axis) (s : Text) : Text := (axis.share? s).getD s

end Axis
end WindowRules

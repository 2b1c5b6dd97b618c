import WindowRules.Dialect
import WindowRules.Geometry.Axis

/-!
# Positions

The arguments of a move are the coordinates of a window, among which two modifiers may stand anywhere: `cursor` counts
the coordinates from the cursor, `onscreen` keeps the window on the monitor. A coordinate is a difference of numbers,
percentages and the size of the window, and becomes one parenthesised expression (`Position.read`). A coordinate that is
one already is left alone (`isGroup`), so that what has been read once can be read again.
-/

namespace WindowRules
namespace Position

/-! ## Parenthesised groups -/

/-- Whether the last character of the text, and none before it, closes the outermost of `depth` open groups. -/
def closesAtEnd : Nat → Text → Bool
  | _, [] => false
  | depth, c :: s =>
    if c = '(' then closesAtEnd (depth + 1) s
    else if c = ')' then if depth ≤ 1 then s.isEmpty else closesAtEnd (depth - 1) s
    else closesAtEnd depth s

/-- Whether the whole text is one group in parentheses. -/
def isGroup : Text → Bool
  | '(' :: s => closesAtEnd 1 s
  | _ => false

/-! ## Modifiers -/

/-- The modifier that counts coordinates from the cursor. -/
def cursorWord : Text := "cursor".toList

/-- The modifier that keeps the window on the monitor. -/
def onscreenWord : Text := "onscreen".toList

/-- The modifiers among the arguments of a move. -/
structure Modifiers where
  /-- The coordinates count from the cursor. -/
  cursor : Bool
  /-- The window stays on the monitor. -/
  onscreen : Bool
deriving DecidableEq, Repr

/-- The modifiers among the arguments, wherever they stand. -/
def Modifiers.of (arguments : List Text) : Modifiers := ⟨arguments.contains cursorWord, arguments.contains onscreenWord⟩

/-- The arguments that are no modifiers. -/
def coordinates (arguments : List Text) : List Text := arguments.filter fun s => s != cursorWord && s != onscreenWord

/-! ## Expressions -/

/-- One operand of a difference: the size of the window, a share of the monitor or a literal. -/
def operand (axis : Axis) (s : Text) : Text :=
  let s := Text.trim s
  if s = ['w'] then axis.window else axis.shareOrSame s

/-- The expression for a coordinate on its own. -/
def difference (axis : Axis) (s : Text) : Text := ['-'].intercalate ((s.splitOn '-').map (operand axis))

/-- The expression that keeps a window with the given coordinate on the monitor. -/
def clamped (dialect : Dialect) (axis : Axis) (s : Text) : Text :=
  "min(max(".toList ++ s ++ dialect.separator ++ "0)".toList ++ dialect.separator ++ axis.monitor ++ '-' :: axis.window
    ++ [')']

/-- The expression for a coordinate that counts from the cursor. -/
def fromCursor (axis : Axis) (s : Text) : Text := axis.cursor ++ "+(".toList ++ s ++ [')']

/-- The expression for a coordinate under the modifiers. -/
def coordinate (dialect : Dialect) (modifiers : Modifiers) (axis : Axis) (s : Text) : Text :=
  let s := Text.trim s
  if !modifiers.cursor && !modifiers.onscreen && isGroup s then s
  else
    let s := difference axis s
    let s := if modifiers.onscreen then clamped dialect axis s else s
    let s := if modifiers.cursor then fromCursor axis s else s
    '(' :: s ++ [')']

/-- Reads the arguments of a move: the expressions for the coordinates. -/
def read (dialect : Dialect) (arguments : List Text) : List Text :=
  Axis.distribute (coordinate dialect (Modifiers.of arguments)) (coordinates arguments)

/-- There is one expression for each argument that is no modifier. -/
theorem length_read (dialect : Dialect) (arguments : List Text) :
    (read dialect arguments).length = (coordinates arguments).length := by simp [read]

end Position
end WindowRules

import WindowRules.Geometry.Axis

/-!
# Sizes

The arguments of a size are numbers and percentages, of which one may be marked as the least or the greatest size
allowed (`Bound`). The mark goes over to the key of the flag, and the percentages become shares of the monitor
(`Size.read`).
-/

namespace WindowRules

/-- How a size binds the window. -/
inductive Bound where
  /-- The window has the size. -/
  | exact
  /-- The window is at least as large. -/
  | least
  /-- The window is at most as large. -/
  | greatest
deriving DecidableEq, Repr

/-- The key of the flag that holds a size with the given bound. -/
def Bound.key : Bound → Text
  | .exact => "size".toList
  | .least => "size_min".toList
  | .greatest => "size_max".toList

/-- The arguments of a size flag in the form of expressions. -/
structure Size where
  /-- How the size binds the window. -/
  bound : Bound
  /-- The sizes along the axes. -/
  values : List Text
deriving DecidableEq, Repr

namespace Size

/-- The bound that the first character of an argument marks, if it marks one, and the argument without the mark. -/
def mark : Text → Option Bound × Text
  | '>' :: s => (some .least, s)
  | '<' :: s => (some .greatest, s)
  | s => (none, s)

/-- Reads the arguments of a size. Where the marks differ, the last one counts. -/
def read (arguments : List Text) : Size :=
  let marked := arguments.map fun argument => mark (Text.trim argument)
  ⟨((marked.filterMap Prod.fst).getLast?).getD .exact, Axis.distribute Axis.shareOrSame (marked.map Prod.snd)⟩

/-- There is one value for each argument. -/
theorem length_values_read (arguments : List Text) : (read arguments).values.length = arguments.length := by
  simp [read]

end Size
end WindowRules

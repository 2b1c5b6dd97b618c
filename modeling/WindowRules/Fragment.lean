import WindowRules.Geometry.Position
import WindowRules.Geometry.Size
import WindowRules.Keys
import WindowRules.Rule

/-!
# Fragments

A rule on one line is made of fragments. A fragment of a window rule is a predicate (`$name`), a marked condition
(`match:key value`), a selector (`key:value`, the colon before any blank) or a flag (`key arguments`), and gives one or
two items (`Fragment.read`). The arguments of a size and of a move become expressions on the way.

Every fragment gives at least one item (`toList_ne_nil`), and only one that is empty or starts with the mark of a
condition can be malformed.
-/

namespace WindowRules
namespace Fragment

/-- What one fragment gives. -/
inductive Reading where
  /-- One item. -/
  | single (item : Item)
  /-- The two items of a selector that packs two values. -/
  | pair (first second : Item)
deriving DecidableEq, Repr

/-- The items of a reading in order. -/
def Reading.toList : Reading → List Item
  | single item => [item]
  | pair first second => [first, second]

/-- A fragment never vanishes. -/
theorem Reading.toList_ne_nil (reading : Reading) : reading.toList ≠ [] := by
  cases reading <;> simp [toList]

/-- The mark in front of a condition. -/
def conditionMark : Text := "match:".toList

/-- A flag with the given value, or with the default of its key if the value is empty. -/
def flag (dialect : Dialect) (key value : Text) : Item :=
  if value = [] then .flag key (Keys.defaultValue key) else .flag key (dialect.encode value)

/-- Reads a flag whose arguments are taken as they stand. -/
def plainFlag (dialect : Dialect) (s : Text) : Item :=
  flag dialect (Keys.flagKey ((Text.words s).headD [])) (Text.spaced (Text.words s).tail)

/-- Reads a flag of a window: the arguments of a size and of a move become expressions. -/
def windowFlag (dialect : Dialect) (s : Text) : Item :=
  let key := Keys.flagKey ((Text.words s).headD [])
  let arguments := (Text.words s).tail
  if key = "size".toList then
    let size := Size.read arguments
    flag dialect size.bound.key (Text.spaced size.values)
  else if key = "move".toList then flag dialect key (Text.spaced (Position.read dialect arguments))
  else flag dialect key (Text.spaced arguments)

/-- Reads a selector in the older form. A key for two values takes the first two words, as they stand. -/
def selector (dialect : Dialect) (key value : Text) : Reading :=
  match Keys.selectorKey key with
  | .single key => .single (.selector key (dialect.encode value))
  | .pair first second =>
    let half (n : Nat) := (Text.words value)[n]?.getD Keys.missingHalf
    .pair (.selector first (half 0)) (.selector second (half 1))

/-- Reads what follows the mark of a condition: a key and a value behind a blank, or a predicate. -/
def condition (dialect : Dialect) (fragment s : Text) : Item :=
  match Text.cutAt? Text.isBlank s with
  | some (key, value) => if key = [] then .malformed fragment else .selector key (dialect.encode (Text.trim value))
  | none => if s = [] then .malformed fragment else .predicate s

/-- Reads a fragment of a window rule. -/
def read (dialect : Dialect) (fragment : Text) : Reading :=
  let s := Text.trim fragment
  if s = [] then .single (.malformed s)
  else if s.head? = some '$' then .single (.predicate s)
  else match Text.stripPrefix? conditionMark s with
    | some rest => .single (condition dialect s rest)
    | none =>
      match Text.cutAt? (· == ':') s with
      | some (key, value) =>
        if key.any Text.isBlank then .single (windowFlag dialect s) else selector dialect key (Text.trim value)
      | none => .single (windowFlag dialect s)

end Fragment
end WindowRules

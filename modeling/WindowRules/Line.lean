import WindowRules.Fragment

/-!
# Rules on one line

A line holds a rule if it has an equals sign and the text before the first one begins with the keyword of a rule
(`Line.read?`). The text after it is split into fragments at its commas (`Line.parts?`).

The fragments of a window rule are read one by one, and empty ones are passed over. In a layer rule an empty fragment is
malformed. A layer rule is in the newer form if one of its fragments carries the mark of a condition: then that
fragment tells a namespace, and the others are flags. Otherwise the first fragment is a flag and the others are
namespaces.
-/

namespace WindowRules
namespace Line

/-- The text before the first equals sign, and the fragments after it. -/
def parts? (line : Text) : Option (Text × List Text) :=
  (Text.cutAt? (· == '=') line).map fun (head, rest) => (head, Comma.split rest)

/-- Whether a line holds nothing: it is blank or a comment. -/
def isSilent (line : Text) : Bool := Text.trim line == [] || (Text.trim line).head? == some '#'

/-- The selector for the layers of a namespace. -/
def namespaceSelector (dialect : Dialect) (name : Text) : Item := .selector (dialect.encode name) Keys.enabled

/-- Reads a fragment of a layer rule in the newer form: a namespace behind the mark of a condition, or a flag. -/
def newerLayerItem (dialect : Dialect) (fragment : Text) : Item :=
  if fragment = [] then .malformed fragment
  else match Text.stripPrefix? Fragment.conditionMark fragment with
    | none => Fragment.plainFlag dialect fragment
    | some rest =>
      match Text.cutAt? Text.isBlank rest with
      | none => .malformed fragment
      | some (_, name) =>
        if Text.trim name = [] then .malformed fragment else namespaceSelector dialect (Text.trim name)

/-- Reads the fragments of a layer rule in the older form: a flag and its namespaces. -/
def olderLayerItems (dialect : Dialect) : List Text → List Item
  | [] => []
  | effect :: names =>
    (if effect = [] then .malformed effect else Fragment.plainFlag dialect effect) ::
      names.map fun name => if name = [] then .malformed name else namespaceSelector dialect name

/-- The items of a rule, read from its trimmed fragments. -/
def items (dialect : Dialect) (subject : Subject) (fragments : List Text) : List Item :=
  match subject with
  | .window => (fragments.filter (· ≠ [])).flatMap fun fragment => (Fragment.read dialect fragment).toList
  | .layer =>
    if fragments.any Fragment.conditionMark.isPrefixOf then fragments.map (newerLayerItem dialect)
    else olderLayerItems dialect fragments

/-- Reads the rule on a line, if the line holds one. -/
def read? (dialect : Dialect) (line : Text) : Option Rule := do
  let (head, fragments) ← parts? line
  let subject ← Subject.ofKeyword? (Text.trim head)
  return ⟨subject, items dialect subject (fragments.map Text.trim)⟩

/-- A line can be divided exactly if it has an equals sign. -/
theorem parts?_isSome_iff (line : Text) : (parts? line).isSome ↔ '=' ∈ line := by
  rw [parts?, Option.isSome_map, ← Option.ne_none_iff_isSome, ne_eq, Text.cutAt?_eq_none_iff]
  simp

end Line
end WindowRules

import WindowRules.Comma
import WindowRules.Problem
import WindowRules.Text.Lowercase

/-!
# Dialects

A rule is written in one of two ways: as a named block of several lines, or anonymously on one line. The dialect
decides how a comma is written in a value (`Dialect.encode`) and between the arguments of an expression
(`Dialect.separator`).
-/

namespace WindowRules

/-- The way a rule is written. -/
inductive Dialect where
  /-- A block with a name and one item on each line. -/
  | block
  /-- One line without a name, the items separated by commas. -/
  | inline
deriving DecidableEq, Repr

namespace Dialect

/-- The name of a dialect. -/
def name : Dialect → Text
  | block => "block".toList
  | inline => "inline".toList

/-- The dialect with the given name, whatever the case of its letters and the blanks around it. -/
def named (name : Text) : Except Problem Dialect :=
  let key := Text.lowerAscii (Text.trim name)
  if key = "block".toList ∨ key = "named".toList then .ok block
  else if key = "inline".toList ∨ key = "anonymous".toList then .ok inline
  else .error (.unknownDialect name)

/-- The value as the dialect writes it: with bare commas in a block and with escaped ones on a line. -/
def encode : Dialect → Text → Text
  | block => Comma.unescape
  | inline => Comma.escape

/-- What separates the arguments inside an expression: a comma as the dialect writes it. -/
def separator : Dialect → Text
  | block => [',']
  | inline => ['\\', ',']

/-- The separator is the written form of a comma. -/
theorem encode_comma (dialect : Dialect) : dialect.encode [','] = dialect.separator := by
  cases dialect <;> rfl

/-- Every dialect has the name it tells. -/
theorem named_name (dialect : Dialect) : named dialect.name = .ok dialect := by
  cases dialect <;> rfl

end Dialect
end WindowRules

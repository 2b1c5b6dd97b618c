import WindowRules.Text.Blank

/-!
# Problems

What can be wrong with a configuration text or with the name of a dialect (`Problem`), and how it is told
(`Problem.message`). Several problems are told together, each under its number; a single one stands for itself
(`Problem.combine`).
-/

namespace WindowRules

/-- A problem, with the one-based number of the line where it lies. -/
inductive Problem where
  /-- An entry of a block does not have the shape of an entry; `column` is the one-based place of the first character
  that does not fit. -/
  | unparsable (line column : Nat) (explanation : Text)
  /-- A fragment or an entry has the right shape and still gives no item. -/
  | malformed (line : Nat) (fragment : Text)
  /-- A block is opened and never closed. -/
  | unterminated (line : Nat)
  /-- No dialect has the name. -/
  | unknownDialect (name : Text)
  /-- Several problems told as one. -/
  | several (problems : List Problem)

namespace Problem

/-- One problem for a list of them: a single one stands for itself. -/
def combine : List Problem → Problem
  | [problem] => problem
  | problems => several problems

/-- The decimal digits of a number. -/
def digits (n : Nat) : Text := Nat.toDigits 10 n

mutual
/-- The wording of a problem. -/
def message : Problem → Text
  | unparsable line column explanation =>
    "Parse error at line ".toList ++ digits line ++ ", column ".toList ++ digits column ++ ": ".toList ++ explanation
  | malformed line fragment =>
    "Malformed rule fragment at line ".toList ++ digits line ++ ": '".toList ++ fragment ++ "'".toList
  | unterminated line => "Rule block opened at line ".toList ++ digits line ++ " is never closed".toList
  | unknownDialect name => "Unknown dialect '".toList ++ name ++ "': expected 'block' or 'inline'".toList
  | several problems => "Multiple errors occurred:\n".toList ++ enumeration 1 problems

/-- The wordings of several problems, each on a line of its own behind its number. -/
def enumeration : Nat → List Problem → Text
  | _, [] => []
  | number, problem :: problems =>
    "  ".toList ++ digits number ++ ". ".toList ++ message problem ++ "\n".toList ++ enumeration (number + 1) problems
end

/-- A problem alone is told without a number. -/
@[simp] theorem combine_singleton (problem : Problem) : combine [problem] = problem := rfl

end Problem
end WindowRules

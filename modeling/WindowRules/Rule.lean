import WindowRules.Item
import WindowRules.Text.Cut
import WindowRules.Text.Order

/-!
# Rules

A rule is about windows or about layers (`Subject`) and consists of items. Which windows it matches is told by its
signature: the sorted list of its selectors and predicates, whatever its flags and the order of its items (`Signature`).
-/

namespace WindowRules

/-- What a rule is about. -/
inductive Subject where
  /-- Ordinary windows. -/
  | window
  /-- Surfaces in layers, such as bars and launchers. -/
  | layer
deriving DecidableEq, Repr

namespace Subject

/-- The keyword that opens a rule about the subject. -/
def keyword : Subject → Text
  | window => "windowrule".toList
  | layer => "layerrule".toList

/-- The subject whose keyword the text begins with; what follows the keyword is not looked at. -/
def ofKeyword? (text : Text) : Option Subject :=
  if window.keyword.isPrefixOf text then some window
  else if layer.keyword.isPrefixOf text then some layer
  else none

/-- Every keyword names its subject, with any ending. -/
theorem ofKeyword?_append (subject : Subject) (ending : Text) :
    ofKeyword? (subject.keyword ++ ending) = some subject := by
  cases subject <;> rfl

end Subject

/-- The conditions of a rule in a form that does not depend on their order. -/
structure Signature where
  /-- The written form, by which signatures are compared. -/
  text : Text
deriving DecidableEq, Repr

namespace Signature

/-- The condition as a part of a signature. -/
def part (item : Item) : Text := item.key ++ ':' :: item.value

/-- The signature of a list of items: the parts of its selectors and predicates in the order of texts. -/
def of (items : List Item) : Signature := ⟨['|'].intercalate (Text.sort ((items.filter Item.isMatcher).map part))⟩

end Signature

/-- A rule about windows or layers. -/
structure Rule where
  /-- What the rule is about. -/
  subject : Subject
  /-- The pieces of the rule. -/
  items : List Item
deriving DecidableEq, Repr

namespace Rule

/-- The signature of the items of the rule. -/
def signature (rule : Rule) : Signature := Signature.of rule.items

/-- The effects of the rule. -/
def flags (rule : Rule) : List Item := rule.items.filter Item.isFlag

/-- The value of the first flag with the given key. -/
def flag? (rule : Rule) (key : Text) : Option Text := (rule.flags.find? (·.key == key)).map Item.value

/-- The pieces that are no items. -/
def malformed (rule : Rule) : List Item := rule.items.filter Item.isMalformed

/-- The rule with its items in the written order. -/
def sorted (rule : Rule) : Rule := { rule with items := Item.byRole rule.items }

/-- A signature looks at the conditions only. -/
theorem signature_eq_of_filter_eq {rule other : Rule}
    (h : rule.items.filter Item.isMatcher = other.items.filter Item.isMatcher) :
    rule.signature = other.signature := by simp only [signature, Signature.of, h]

end Rule
end WindowRules

import WindowRules.Fragment

/-!
# Written rules

A rule is written as a block with a name and one item on each line, or on one line without a name (`Rule.write`). Its
items come in the written order and malformed ones are left out. Names are numbered through for each subject
(`Counters`), and a number is used up whether the dialect shows the name or not.
-/

namespace WindowRules

/-- The numbers of the next rules. -/
structure Counters where
  /-- The number of the next window rule. -/
  window : Nat := 1
  /-- The number of the next layer rule. -/
  layer : Nat := 1
deriving DecidableEq, Repr

namespace Counters

/-- The number of the next rule about a subject. -/
def get (counters : Counters) : Subject → Nat
  | .window => counters.window
  | .layer => counters.layer

/-- Uses up the number of the next rule about a subject. -/
def advance (counters : Counters) : Subject → Counters
  | .window => { counters with window := counters.window + 1 }
  | .layer => { counters with layer := counters.layer + 1 }

/-- The name of the next rule about a subject. -/
def name (counters : Counters) (subject : Subject) : Text :=
  subject.keyword ++ '-' :: Nat.toDigits 10 (counters.get subject)

end Counters

namespace Item

/-- The condition for the namespace of a layer. -/
def namespaceKey : Text := "namespace".toList

/-- The key under which an item is written in a rule about the given subject. -/
def writtenKey (subject : Subject) (item : Item) : Text :=
  match item.role, subject with
  | .flag, _ => item.key
  | .selector, .layer => Fragment.conditionMark ++ namespaceKey
  | _, _ => Fragment.conditionMark ++ item.key

/-- The value with which an item is written; a predicate has none, and a layer is told by its namespace. -/
def writtenValue? (subject : Subject) (item : Item) : Option Text :=
  match item.role, subject with
  | .predicate, _ => none
  | .selector, .layer => some item.key
  | _, _ => some item.value

/-- The line of an item in a block. -/
def blockLine (subject : Subject) (item : Item) : Text :=
  ' ' :: ' ' :: item.writtenKey subject ++
    match item.writtenValue? subject with
    | none => []
    | some value => ' ' :: '=' :: ' ' :: value

/-- The fragment of an item on a line. A predicate that starts with a dollar sign needs no mark. -/
def inlineFragment (subject : Subject) (item : Item) : Text :=
  match item.writtenValue? subject with
  | none => if item.key.head? = some '$' then item.key else item.writtenKey subject
  | some value => item.writtenKey subject ++ ' ' :: value

end Item

namespace Rule

/-- The items that are written, in the written order. -/
def writtenItems (rule : Rule) : List Item := Item.byRole (rule.items.filter (!·.isMalformed))

/-- The lines of the rule as a block with the given name. -/
def blockLines (rule : Rule) (name : Text) : List Text :=
  (rule.subject.keyword ++ [' ', '{']) :: ("  name = ".toList ++ name) ::
    rule.writtenItems.map (Item.blockLine rule.subject) ++ [['}'], []]

/-- The text of the rule as a block with the given name, which ends its last line. -/
def blockText (rule : Rule) (name : Text) : Text := ['\n'].intercalate (rule.blockLines name)

/-- The text of the rule on one line. -/
def inlineText (rule : Rule) : Text :=
  rule.subject.keyword ++ " = ".toList ++
    [',', ' '].intercalate (rule.writtenItems.map (Item.inlineFragment rule.subject))

/-- The text of the rule in the dialect, if its number is the next one. -/
def write (rule : Rule) (dialect : Dialect) (counters : Counters) : Text :=
  match dialect with
  | .block => rule.blockText (counters.name rule.subject)
  | .inline => rule.inlineText

/-- The texts of rules that follow each other, and the numbers after them. -/
def writeAll (dialect : Dialect) (counters : Counters) : List Rule → List Text × Counters
  | [] => ([], counters)
  | rule :: rules =>
    let (texts, final) := writeAll dialect (counters.advance rule.subject) rules
    (rule.write dialect counters :: texts, final)

end Rule
end WindowRules

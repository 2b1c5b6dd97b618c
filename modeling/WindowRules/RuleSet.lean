import WindowRules.Rule

/-!
# Rule sets

Rules with one signature match the same windows, so their effects can live in one rule. A rule set keeps one rule for
each signature, in the order in which the signatures came (`RuleSet.insert`). In it a later flag takes the place of an
earlier one with its key, and a condition is kept once (`Item.add`); malformed items are left out, and the items stand
in the written order.

Only the entry of its signature is touched when a rule comes in (`get?_insert_of_ne`).
-/

namespace WindowRules

namespace Item

/-- Puts a flag in the place of the first flag with its key, or at the end if there is none. -/
def setFlag (item : Item) : List Item → List Item
  | [] => [item]
  | head :: tail => if head.role = .flag ∧ head.key = item.key then item :: tail else head :: setFlag item tail

/-- Puts a condition at the end, unless it is there. -/
def addCondition (item : Item) (items : List Item) : List Item := if item ∈ items then items else items ++ [item]

/-- Adds an item to a merged rule. -/
def add (items : List Item) (item : Item) : List Item :=
  match item.role with
  | .flag => setFlag item items
  | _ => addCondition item items

end Item

namespace Rule

/-- A rule without items. -/
def empty (subject : Subject) : Rule := ⟨subject, []⟩

/-- The rule with the items of another one added, in the written order. -/
def absorb (rule other : Rule) : Rule :=
  Rule.sorted { rule with items := (other.items.filter (!·.isMalformed)).foldl Item.add rule.items }

end Rule

/-- Merged rules with their signatures, in the order in which the signatures came. -/
structure RuleSet where
  /-- The signature of the rules that were put in, and what they were merged into. -/
  entries : List (Signature × Rule)
deriving DecidableEq, Repr

namespace RuleSet

/-- No rules. -/
def empty : RuleSet := ⟨[]⟩

/-- The merged rules in order. -/
def rules (set : RuleSet) : List Rule := set.entries.map Prod.snd

/-- The rule into which the rules with the given signature were merged. -/
def get? (set : RuleSet) (signature : Signature) : Option Rule := set.entries.lookup signature

/-- Merges a rule into the entry of its signature, which is made at the end if there is none. The entry keeps the
subject of the rule it was made for. -/
def insertEntry (signature : Signature) (rule : Rule) : List (Signature × Rule) → List (Signature × Rule)
  | [] => [(signature, (Rule.empty rule.subject).absorb rule)]
  | entry :: entries =>
    if entry.1 = signature then (entry.1, entry.2.absorb rule) :: entries
    else entry :: insertEntry signature rule entries

/-- Merges a rule into the set. -/
def insert (set : RuleSet) (rule : Rule) : RuleSet := ⟨insertEntry rule.signature rule set.entries⟩

/-- Merges rules in order. -/
def ofRules (rules : List Rule) : RuleSet := rules.foldl insert empty

/-- A rule that comes in puts its signature behind the others, unless it is there. -/
theorem map_fst_insertEntry (signature : Signature) (rule : Rule) (entries : List (Signature × Rule)) :
    (insertEntry signature rule entries).map Prod.fst =
      if signature ∈ entries.map Prod.fst then entries.map Prod.fst else entries.map Prod.fst ++ [signature] := by
  induction entries with
  | nil => rfl
  | cons entry entries ih =>
    by_cases h : entry.1 = signature
    · simp [insertEntry, h]
    · rw [insertEntry, if_neg h, List.map_cons, ih, List.map_cons]
      by_cases hm : signature ∈ entries.map Prod.fst
      · rw [if_pos hm, if_pos (List.mem_cons_of_mem _ hm)]
      · rw [if_neg hm, if_neg (by simpa using ⟨fun e => h e.symm, by simpa using hm⟩), List.cons_append]

/-- A rule with a new signature becomes the last entry. -/
theorem insertEntry_of_not_mem {signature : Signature} {entries : List (Signature × Rule)}
    (h : signature ∉ entries.map Prod.fst) (rule : Rule) :
    insertEntry signature rule entries = entries ++ [(signature, (Rule.empty rule.subject).absorb rule)] := by
  induction entries with
  | nil => rfl
  | cons entry entries ih =>
    have hhead : entry.1 ≠ signature := fun e => h (e ▸ List.mem_cons_self)
    have htail : signature ∉ entries.map Prod.fst := fun hm => h (List.mem_cons_of_mem _ hm)
    rw [insertEntry, if_neg hhead, ih htail, List.cons_append]

/-- A set that rules are merged into has an entry for the signature of each. -/
theorem get?_insert_self (set : RuleSet) (rule : Rule) :
    (set.insert rule).get? rule.signature =
      some (((set.get? rule.signature).getD (Rule.empty rule.subject)).absorb rule) := by
  obtain ⟨entries⟩ := set
  simp only [insert, get?]
  induction entries with
  | nil => simp [insertEntry]
  | cons entry entries ih =>
    obtain ⟨signature, merged⟩ := entry
    by_cases h : signature = rule.signature
    · simp [insertEntry, h]
    · have hb : (rule.signature == signature) = false := by simpa using fun he => h he.symm
      simpa [insertEntry, List.lookup_cons, h, hb] using ih

/-- The entries of other signatures stay as they are. -/
theorem get?_insert_of_ne (set : RuleSet) (rule : Rule) {signature : Signature} (h : signature ≠ rule.signature) :
    (set.insert rule).get? signature = set.get? signature := by
  obtain ⟨entries⟩ := set
  simp only [insert, get?]
  have hb : (signature == rule.signature) = false := by simpa using h
  induction entries with
  | nil => simp [insertEntry, List.lookup_cons, hb]
  | cons entry entries ih =>
    obtain ⟨other, merged⟩ := entry
    by_cases ho : other = rule.signature
    · simp [insertEntry, List.lookup_cons, ho, hb]
    · by_cases hs : signature = other <;> simp [insertEntry, List.lookup_cons, ho, hs, ih]

end RuleSet

end WindowRules

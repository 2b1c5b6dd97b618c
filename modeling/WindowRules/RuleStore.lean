import WindowRules.RuleSet

/-!
# Rule stores

A rule set as a list is searched from its first entry to its last. A store keeps the merged rules in slots instead, in
the order in which their signatures came, and an index leads from a signature to the slot of its rule. A rule that comes
in is absorbed by the rule in the slot of its signature; a signature without a slot gets one behind the others, with a
rule that has no items yet (`RuleStore.insert`).

No two entries of the index have one signature, and together they lead to each slot once (`signatures_nodup`,
`slots_told`). So the index never leads past the slots (`lt_of_slot?`), and a rule is found without a search among them
(`get?`). A store holds what the list of entries holds: `RuleStore.Refines`.
-/

namespace WindowRules

/-- Merged rules in slots, with an index from signatures to slots. -/
structure RuleStore where
  /-- The merged rules, in the order in which their signatures came. -/
  slots : List Rule
  /-- The slot of each signature; the order of the entries does not matter. -/
  index : List (Signature × Nat)
  /-- Each signature has one entry. -/
  signatures_nodup : (index.map Prod.fst).Nodup
  /-- Each slot has one entry. -/
  slots_told : (index.map Prod.snd).Perm (List.range slots.length)

namespace RuleStore

/-- No rules. -/
def empty : RuleStore := ⟨[], [], .nil, .nil⟩

/-- The slot of a signature. -/
def slot? (store : RuleStore) (signature : Signature) : Option Nat := store.index.lookup signature

/-- A slot that the index leads to is there. -/
theorem lt_of_slot? {store : RuleStore} {signature : Signature} {slot : Nat} (h : store.slot? signature = some slot) :
    slot < store.slots.length := by
  obtain ⟨before, after, hindex, _⟩ := List.lookup_eq_some_iff.mp h
  have hmem : slot ∈ store.index.map Prod.snd := by simp [hindex]
  exact List.mem_range.mp (store.slots_told.mem_iff.mp hmem)

/-- The rule into which the rules with the given signature were merged. -/
def get? (store : RuleStore) (signature : Signature) : Option Rule :=
  match h : store.slot? signature with
  | some slot =>
    have := lt_of_slot? h
    some store.slots[slot]
  | none => none

/-- The store with a slot at the end for a signature that has none. -/
def push (store : RuleStore) (signature : Signature) (subject : Subject) (hnew : store.slot? signature = none) :
    RuleStore where
  slots := store.slots ++ [Rule.empty subject]
  index := (signature, store.slots.length) :: store.index
  signatures_nodup := by
    refine List.nodup_cons.mpr ⟨fun hmem => ?_, store.signatures_nodup⟩
    obtain ⟨entry, hentry, rfl⟩ := List.mem_map.mp hmem
    simpa using List.lookup_eq_none_iff.mp hnew entry hentry
  slots_told := by
    rw [List.length_append, List.length_singleton, List.range_succ]
    exact (store.slots_told.cons _).trans (List.perm_append_singleton _ _).symm

/-- The new slot is there. -/
theorem length_lt_push {store : RuleStore} {signature : Signature} (subject : Subject)
    (hnew : store.slot? signature = none) : store.slots.length < (store.push signature subject hnew).slots.length := by
  simp [push]

/-- The store with another rule absorbed by the rule in a slot. -/
def absorbAt (store : RuleStore) (slot : Nat) (h : slot < store.slots.length) (rule : Rule) : RuleStore where
  slots := store.slots.set slot (store.slots[slot].absorb rule)
  index := store.index
  signatures_nodup := store.signatures_nodup
  slots_told := by simpa using store.slots_told

/-- Merges a rule into the slot of its signature, which is made at the end if there is none. The slot keeps the subject
of the rule it was made for. -/
def insert (store : RuleStore) (rule : Rule) : RuleStore :=
  match h : store.slot? rule.signature with
  | some slot => store.absorbAt slot (lt_of_slot? h) rule
  | none => (store.push rule.signature rule.subject h).absorbAt store.slots.length (length_lt_push _ h) rule

/-- Merges rules in order. -/
def ofRules (rules : List Rule) : RuleStore := rules.foldl insert empty

/-- A rule that is looked up is the one in the slot of its signature. -/
theorem get?_eq_bind (store : RuleStore) (signature : Signature) :
    store.get? signature = (store.slot? signature).bind (store.slots[·]?) := by
  unfold get?
  split
  · next slot h => simp [h, lt_of_slot? h]
  · next h => simp [h]

/-- A rule whose signature has a slot is absorbed there, and the index stays as it is. -/
theorem insert_of_some {store : RuleStore} {rule : Rule} {slot : Nat} (h : store.slot? rule.signature = some slot) :
    store.insert rule = store.absorbAt slot (lt_of_slot? h) rule := by
  unfold insert
  split
  · next other hother =>
    obtain rfl : other = slot := Option.some.inj (hother.symm.trans h)
    rfl
  · next hnone => simp [h] at hnone

/-- A rule with a new signature is absorbed by the rule in a new slot. -/
theorem insert_of_none {store : RuleStore} {rule : Rule} (h : store.slot? rule.signature = none) :
    store.insert rule =
      (store.push rule.signature rule.subject h).absorbAt store.slots.length (length_lt_push _ h) rule := by
  unfold insert
  split
  · next slot hsome => simp [h] at hsome
  · rfl

end RuleStore

/-- Merges the rules that have the same signature. -/
def merge (rules : List Rule) : List Rule := (RuleStore.ofRules rules).slots

end WindowRules

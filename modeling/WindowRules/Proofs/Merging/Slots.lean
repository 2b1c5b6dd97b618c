import WindowRules.RuleStore
import Mathlib.Data.List.Basic

/-!
# A store refines a set

The store that rules are merged into and the set they are merged into hold the same: the slots are the rules of the set
in order, and the index leads from a signature to the place of its entry (`RuleStore.Refines`). An insertion keeps this
(`Refines.insert`). Proof: if the signature has an entry, then the slot at its place absorbs the rule
(`map_snd_insertEntry_of_some`) and no place changes; else both get the rule at the end (`insertEntry_of_not_mem`), and
only the place of the new signature is added (`idxOf?_concat`).

So rules are looked up alike (`Refines.get?_eq`), and the merged rules are those of the set (`merge_eq_rules`).
-/

namespace WindowRules

namespace RuleSet

/-- A signature that comes last has the place behind the others, and the places of the others do not change. -/
theorem idxOf?_concat {signatures : List Signature} {last : Signature} (hnew : last ∉ signatures)
    (signature : Signature) :
    (signatures ++ [last]).idxOf? signature =
      if signature = last then some signatures.length else signatures.idxOf? signature := by
  have happend : (signatures ++ [last]).idxOf? signature =
      (signatures.idxOf? signature).or (([last].idxOf? signature).map (· + signatures.length)) := List.findIdx?_append
  rw [happend, List.idxOf?_singleton]
  by_cases h : signature = last
  · subst h
    simp [List.idxOf?_eq_none_iff.mpr hnew]
  · simp [h, Ne.symm h]

/-- A rule whose signature has an entry is absorbed at the place of that entry. -/
theorem map_snd_insertEntry_of_some {signature : Signature} {entries : List (Signature × Rule)} {slot : Nat}
    (h : (entries.map Prod.fst).idxOf? signature = some slot) (hslot : slot < (entries.map Prod.snd).length)
    (rule : Rule) :
    (insertEntry signature rule entries).map Prod.snd =
      (entries.map Prod.snd).set slot ((entries.map Prod.snd)[slot].absorb rule) := by
  induction entries generalizing slot with
  | nil => simp at hslot
  | cons entry entries ih =>
    rw [List.map_cons, List.idxOf?_cons] at h
    by_cases he : entry.1 = signature
    · obtain rfl : 0 = slot := by simpa [he] using h
      simp [insertEntry, he]
    · obtain ⟨slot, htail, rfl⟩ := Option.map_eq_some_iff.mp (by simpa [he] using h)
      have hrest := ih htail (by simpa using hslot)
      simp only [insertEntry, if_neg he, List.map_cons, hrest, List.set_cons_succ, List.getElem_cons_succ]

/-- A rule is found at the place of its signature. -/
theorem lookup_eq_bind (entries : List (Signature × Rule)) (signature : Signature) :
    entries.lookup signature =
      ((entries.map Prod.fst).idxOf? signature).bind ((entries.map Prod.snd)[·]?) := by
  induction entries with
  | nil => rfl
  | cons entry entries ih =>
    obtain ⟨first, rule⟩ := entry
    rw [List.map_cons, List.idxOf?_cons, List.lookup_cons]
    by_cases h : signature = first
    · simp [h]
    · have hb : (signature == first) = false := beq_eq_false_iff_ne.mpr h
      have hb' : (first == signature) = false := beq_eq_false_iff_ne.mpr (Ne.symm h)
      simp only [hb, hb', Bool.false_eq_true, if_false, Option.bind_map, ih]
      rfl

end RuleSet

namespace RuleStore

/-- The store holds the rules of the set in order, and its index tells the places of the entries. -/
structure Refines (store : RuleStore) (set : RuleSet) : Prop where
  /-- The slots are the merged rules. -/
  slots : store.slots = set.rules
  /-- The slot of a signature is the place of its entry. -/
  places : ∀ signature, store.slot? signature = (set.entries.map Prod.fst).idxOf? signature

variable {store : RuleStore} {set : RuleSet}

/-- Nothing is in an empty store, and nothing in an empty set. -/
theorem refines_empty : empty.Refines .empty := ⟨rfl, fun _ => rfl⟩

/-- A rule whose signature has an entry is absorbed at its place in both. -/
theorem Refines.insert_of_some (h : store.Refines set) {rule : Rule} {slot : Nat}
    (hs : store.slot? rule.signature = some slot) : (store.insert rule).Refines (set.insert rule) := by
  have hplace : (set.entries.map Prod.fst).idxOf? rule.signature = some slot := (h.places _).symm.trans hs
  have hold : rule.signature ∈ set.entries.map Prod.fst := by
    by_contra hnot
    rw [List.idxOf?_eq_none_iff.mpr hnot] at hplace
    cases hplace
  rw [RuleStore.insert_of_some hs]
  constructor
  · have hslot := lt_of_slot? hs
    simp only [h.slots, RuleSet.rules] at hslot
    simp only [absorbAt, h.slots, RuleSet.rules, RuleSet.insert]
    exact (RuleSet.map_snd_insertEntry_of_some hplace hslot rule).symm
  · intro signature
    simp only [RuleSet.insert, RuleSet.map_fst_insertEntry, if_pos hold]
    exact h.places signature

/-- A rule with a new signature comes behind the others in both. -/
theorem Refines.insert_of_none (h : store.Refines set) {rule : Rule} (hs : store.slot? rule.signature = none) :
    (store.insert rule).Refines (set.insert rule) := by
  have hnew : rule.signature ∉ set.entries.map Prod.fst :=
    List.idxOf?_eq_none_iff.mp ((h.places _).symm.trans hs)
  rw [RuleStore.insert_of_none hs]
  constructor
  · simp [absorbAt, push, RuleSet.insert, RuleSet.rules, RuleSet.insertEntry_of_not_mem hnew, h.slots]
  · intro signature
    simp only [RuleSet.insert, RuleSet.map_fst_insertEntry, if_neg hnew, RuleSet.idxOf?_concat hnew]
    rw [← h.places signature]
    by_cases he : signature = rule.signature
    · simp [slot?, absorbAt, push, he, h.slots, RuleSet.rules]
    · have hb : (signature == rule.signature) = false := beq_eq_false_iff_ne.mpr he
      simp [slot?, absorbAt, push, List.lookup_cons, he, hb]

/-- **One step**: a rule that is merged into both keeps the store a refinement of the set. -/
theorem Refines.insert (h : store.Refines set) (rule : Rule) : (store.insert rule).Refines (set.insert rule) := by
  cases hs : store.slot? rule.signature with
  | some slot => exact h.insert_of_some hs
  | none => exact h.insert_of_none hs

/-- **A whole run**: rules that are merged into both one by one. -/
theorem refines_ofRules (rules : List Rule) : (ofRules rules).Refines (RuleSet.ofRules rules) := by
  suffices hrun : ∀ {store : RuleStore} {set : RuleSet}, store.Refines set →
      (rules.foldl RuleStore.insert store).Refines (rules.foldl RuleSet.insert set) from hrun refines_empty
  induction rules with
  | nil => exact fun h => h
  | cons rule rules ih => exact fun h => ih (h.insert rule)

/-- A rule is looked up in the store as in the set. -/
theorem Refines.get?_eq (h : store.Refines set) (signature : Signature) : store.get? signature = set.get? signature := by
  rw [get?_eq_bind, h.places, h.slots, RuleSet.get?, RuleSet.lookup_eq_bind, RuleSet.rules]

end RuleStore

/-- The merged rules are those of the set. -/
theorem merge_eq_rules (rules : List Rule) : merge rules = (RuleSet.ofRules rules).rules :=
  (RuleStore.refines_ofRules rules).slots

/-- Rules that make the same set are merged into the same rules. -/
theorem merge_eq_merge {rules others : List Rule} (h : RuleSet.ofRules rules = RuleSet.ofRules others) :
    merge rules = merge others := by
  rw [merge_eq_rules, merge_eq_rules, h]

end WindowRules

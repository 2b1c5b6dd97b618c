import WindowRules.Proofs.Encoding.Kept
import WindowRules.Proofs.Merging.Grouping
import Mathlib.Data.List.Nodup

/-!
# Merging what has been merged

The items of a merged rule are grouped (`Item.Grouped`): they are well-formed and in the written order, and no flag key
and no condition comes twice. Grouping leaves such items alone (`groupItems_of_grouped`), so rules that have grouped
items and different signatures are the entries of their set as they stand (`entries_of_nodup`). Malformed items make no
difference (`ofRules_map_tidied`).
-/

namespace WindowRules

namespace Item

/-- The items are well-formed and in the written order, and no flag key and no condition comes twice. -/
structure Grouped (items : List Item) : Prop where
  wellFormed : ∀ item ∈ items, item.isMalformed = false
  ordered : byRole items = items
  flags : ((withRole .flag items).map Item.key).Nodup
  selectors : (withRole .selector items).Nodup
  predicates : (withRole .predicate items).Nodup

theorem eraseDups_of_nodup {α : Type} [BEq α] [LawfulBEq α] {items : List α} (h : items.Nodup) :
    items.eraseDups = items := by
  induction items with
  | nil => rfl
  | cons item items ih =>
    obtain ⟨hnot, h⟩ := List.nodup_cons.mp h
    have hkeep : items.filter (fun other => !other == item) = items := by
      refine List.filter_eq_self.mpr fun other ho => ?_
      have hne : other ≠ item := fun e => hnot (e ▸ ho)
      simpa using hne
    rw [List.eraseDups_cons, hkeep, ih h]

/-- Among flags with different keys each is the last one with its key. -/
theorem filter_key_of_nodup {flags : List Item} (h : (flags.map Item.key).Nodup) {flag : Item} (hf : flag ∈ flags) :
    flags.filter (·.key == flag.key) = [flag] := by
  induction flags with
  | nil => cases hf
  | cons head flags ih =>
    obtain ⟨hnot, h⟩ := List.nodup_cons.mp h
    rcases List.mem_cons.mp hf with rfl | hf
    · have hrest : flags.filter (·.key == flag.key) = [] := by
        refine List.filter_eq_nil_iff.mpr fun other ho he => hnot ?_
        have hkey : other.key = flag.key := by simpa using he
        exact List.mem_map.mpr ⟨other, ho, hkey⟩
      rw [List.filter_cons_of_pos (by simp), hrest]
    · have hne : head.key ≠ flag.key := fun e => hnot (e ▸ List.mem_map_of_mem hf)
      rw [List.filter_cons_of_neg (by simpa using hne), ih h hf]

theorem lastFlags_of_nodup {flags : List Item} (h : (flags.map Item.key).Nodup) : lastFlags flags = flags := by
  rw [lastFlags, eraseDups_of_nodup h, List.filterMap_map]
  refine (List.filterMap_congr fun flag hf => ?_).trans List.filterMap_some
  rw [Function.comp_apply, filter_key_of_nodup h hf]
  rfl

/-- **Grouping leaves grouped items alone.** -/
theorem groupItems_of_grouped {items : List Item} (h : Grouped items) : groupItems items = items := by
  rw [groupItems_eq, lastFlags_of_nodup h.flags, eraseDups_of_nodup h.selectors, eraseDups_of_nodup h.predicates]
  exact h.ordered

/-- Items that are found for different keys have different keys. -/
theorem nodup_map_key_filterMap {last : Text → Option Item} {keys : List Text} (hkeys : keys.Nodup)
    (hlast : ∀ key item, last key = some item → item.key = key) : ((keys.filterMap last).map Item.key).Nodup := by
  induction keys with
  | nil => exact List.nodup_nil
  | cons key keys ih =>
    obtain ⟨hnot, hkeys⟩ := List.nodup_cons.mp hkeys
    cases hl : last key with
    | none =>
      rw [List.filterMap_cons_none hl]
      exact ih hkeys
    | some item =>
      rw [List.filterMap_cons_some hl, List.map_cons, List.nodup_cons]
      refine ⟨fun hm => hnot ?_, ih hkeys⟩
      obtain ⟨other, ho, he⟩ := List.mem_map.mp hm
      obtain ⟨k, hk, hfound⟩ := List.mem_filterMap.mp ho
      rw [hlast key item hl, hlast k other hfound] at he
      exact he ▸ hk

/-- Grouped items are grouped. -/
theorem grouped_groupItems {items : List Item} (h : ∀ item ∈ items, item.isMalformed = false) :
    Grouped (groupItems items) where
  wellFormed := fun item hi => h item (mem_of_mem_groupItems hi)
  ordered := by
    rw [byRole, withRole_flag_groupItems, withRole_groupItems (by decide), withRole_groupItems (by decide),
      groupItems_eq]
  flags := by
    rw [withRole_flag_groupItems]
    exact nodup_map_key_filterMap (nodup_eraseDups _) fun key item hl => (getLast?_key hl).2
  selectors := by
    rw [withRole_groupItems (by decide)]
    exact nodup_eraseDups _
  predicates := by
    rw [withRole_groupItems (by decide)]
    exact nodup_eraseDups _

end Item

/-- The well-formed items of grouped items are all of them. -/
theorem Rule.wellFormed_of_grouped {rule : Rule} (h : Item.Grouped rule.items) : rule.wellFormed = rule.items :=
  List.filter_eq_self.mpr fun item hi => by simp [h.wellFormed item hi]

/-- Grouped items are written as they stand. -/
theorem Rule.writtenItems_of_grouped {rule : Rule} (h : Item.Grouped rule.items) : rule.writtenItems = rule.items := by
  rw [Rule.writtenItems, ← Rule.wellFormed, Rule.wellFormed_of_grouped h, h.ordered]

/-- The entry of a signature is the group of the rules with that signature. -/
theorem RuleSet.group?_of_mem_entries {rules : List Rule} {signature : Signature} {merged : Rule}
    (h : (signature, merged) ∈ (RuleSet.ofRules rules).entries) : Rule.group? rules signature = some merged := by
  rw [RuleSet.entries_ofRules] at h
  obtain ⟨other, _, hgroup⟩ := List.mem_filterMap.mp h
  obtain ⟨found, hfound, hpair⟩ := Option.map_eq_some_iff.mp hgroup
  cases hpair
  exact hfound

/-- A group of rules has grouped items. -/
theorem Rule.grouped_group {rules : List Rule} {signature : Signature} {merged : Rule}
    (h : group? rules signature = some merged) : Item.Grouped merged.items := by
  obtain ⟨first, _, rfl⟩ := Option.map_eq_some_iff.mp h
  exact Item.grouped_groupItems fun item => isMalformed_of_mem_itemsUnder

theorem grouped_of_mem_merge {rules : List Rule} {rule : Rule} (h : rule ∈ merge rules) : Item.Grouped rule.items := by
  obtain ⟨_, _, hgroup⟩ := Rule.exists_of_mem_merge h
  exact Rule.grouped_group hgroup

/-- A rule with grouped items is absorbed by a rule without items as it stands. -/
theorem Rule.absorb_empty {rule : Rule} (h : Item.Grouped rule.items) :
    (Rule.empty rule.subject).absorb rule = rule := by
  have habsorb := Rule.absorb_groupItems rule.subject [] rule
  rw [List.nil_append, Rule.wellFormed_of_grouped h, Item.groupItems_of_grouped h] at habsorb
  exact habsorb

/-- Rules with grouped items and different signatures are the entries of their set. -/
theorem RuleSet.entries_of_nodup {rules : List Rule} (hgrouped : ∀ rule ∈ rules, Item.Grouped rule.items)
    (hsignatures : (rules.map Rule.signature).Nodup) :
    (RuleSet.ofRules rules).entries = rules.map fun rule => (rule.signature, rule) := by
  induction rules using List.reverseRecOn with
  | nil => rfl
  | append_singleton rules rule ih =>
    rw [List.map_append, List.map_singleton, List.nodup_append] at hsignatures
    obtain ⟨hinit, _, hdisjoint⟩ := hsignatures
    have hrules := ih (fun r hr => hgrouped r (List.mem_append_left _ hr)) hinit
    have hfst : (RuleSet.ofRules rules).entries.map Prod.fst = rules.map Rule.signature := by
      rw [hrules, List.map_map]
      rfl
    have hnew : rule.signature ∉ (RuleSet.ofRules rules).entries.map Prod.fst := by
      rw [hfst]
      exact fun hm => hdisjoint _ hm _ (List.mem_singleton_self _) rfl
    have hlast := Rule.absorb_empty (hgrouped rule (List.mem_append_right _ (List.mem_singleton_self _)))
    rw [RuleSet.ofRules_concat, RuleSet.insert, RuleSet.insertEntry_of_not_mem hnew, hlast, hrules]
    simp

/-! ## Malformed items -/

namespace Rule

/-- The rule without its malformed items. -/
def tidied (rule : Rule) : Rule := ⟨rule.subject, rule.wellFormed⟩

@[simp] theorem wellFormed_tidied (rule : Rule) : rule.tidied.wellFormed = rule.wellFormed := by
  simp [tidied, wellFormed]

@[simp] theorem signature_tidied (rule : Rule) : rule.tidied.signature = rule.signature := by
  refine signature_eq_of_filter_eq ?_
  rw [tidied, wellFormed, List.filter_filter]
  refine List.filter_congr fun item _ => ?_
  cases hform : item.isMalformed <;> simp [Item.isMatcher, hform]

theorem absorb_tidied (rule other : Rule) : rule.absorb other.tidied = rule.absorb other := by
  have h := other.wellFormed_tidied
  rw [wellFormed, wellFormed] at h
  rw [absorb, absorb, h]

end Rule

/-- Malformed items do not come into a set. -/
theorem RuleSet.ofRules_map_tidied (rules : List Rule) : ofRules (rules.map Rule.tidied) = ofRules rules := by
  have hentry : ∀ (signature : Signature) (rule : Rule) (entries : List (Signature × Rule)),
      insertEntry signature rule.tidied entries = insertEntry signature rule entries := by
    intro signature rule entries
    induction entries with
    | nil => rw [insertEntry, insertEntry, Rule.absorb_tidied]; rfl
    | cons entry entries ih => rw [insertEntry, insertEntry, Rule.absorb_tidied, ih]
  rw [ofRules, ofRules, List.foldl_map]
  congr 1
  funext set rule
  rw [insert, insert, Rule.signature_tidied, hentry]

end WindowRules

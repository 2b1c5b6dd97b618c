import WindowRules.Proofs.Merging.Slots
import Mathlib.Data.List.Induction

/-!
# Merging is grouping by signature

Rules come into a set one by one, and each time the entry of their signature is changed in place and sorted again. In
the end the set is the same as if the rules had been grouped at once (`groups`): there is one entry for each signature,
in the order in which the signatures came, and its items are read off all well-formed items of the rules with that
signature (`groupItems`).

* `byRole_foldl_add` — adding items to grouped items and sorting gives the grouped items of both together. Proof: the
  items of a role are only changed by items of that role (`withRole_add`), and on the items of one role an addition
  is one step of the grouping (`setFlag_lastFlags`, `addCondition_eraseDups`).
* `entries_ofRules` — the entries of a set are the groups. Proof: by induction from the last rule, which is absorbed
  by the entry of its signature (`get?_insert_self`) and leaves the others alone (`get?_insert_of_ne`).
-/

namespace WindowRules

/-! ## Erasing repetitions -/

/-- Repetitions are erased from a list with one more item. -/
theorem eraseDups_concat {α : Type} [BEq α] [LawfulBEq α] (items : List α) (item : α) :
    (items ++ [item]).eraseDups = if item ∈ items then items.eraseDups else items.eraseDups ++ [item] := by
  rw [List.eraseDups_append]
  by_cases h : item ∈ items
  · simp [h, List.removeAll]
  · simp [h, List.removeAll, List.eraseDups_cons]

/-- What is left when repetitions are erased has none. -/
theorem nodup_eraseDups {α : Type} [BEq α] [LawfulBEq α] (items : List α) : items.eraseDups.Nodup := by
  induction h : items.length using Nat.strongRecOn generalizing items with
  | _ n ih =>
    cases items with
    | nil => simp
    | cons item items =>
      rw [List.eraseDups_cons, List.nodup_cons]
      refine ⟨by simp [List.mem_eraseDups], ih _ ?_ _ rfl⟩
      have := List.length_filter_le (fun b => !b == item) items
      simp only [List.length_cons] at h
      omega

/-! ## Groups -/

namespace Item

/-- For each key the last flag with it, in the order in which the keys came. -/
def lastFlags (flags : List Item) : List Item :=
  (flags.map Item.key).eraseDups.filterMap fun key => (flags.filter (·.key == key)).getLast?

/-- The items of a group: the last flag for each key, then the selectors and the predicates without repetitions. -/
def groupItems (items : List Item) : List Item :=
  lastFlags (items.filter (·.role = .flag)) ++ (items.filter (·.role = .selector)).eraseDups ++
    (items.filter (·.role = .predicate)).eraseDups

end Item

namespace Rule

/-- The items of the rule that are not malformed. -/
def wellFormed (rule : Rule) : List Item := rule.items.filter (!·.isMalformed)

/-- The well-formed items of all rules with the given signature, in order. -/
def itemsUnder (signature : Signature) (rules : List Rule) : List Item :=
  (rules.filter (·.signature == signature)).flatMap wellFormed

/-- The rule that stands for all rules with the given signature; its subject is that of the first one. -/
def group? (rules : List Rule) (signature : Signature) : Option Rule :=
  (rules.find? (·.signature == signature)).map fun first =>
    ⟨first.subject, Item.groupItems (itemsUnder signature rules)⟩

/-- The signatures of the rules in the order in which they came, each with the rule that stands for it. -/
def groups (rules : List Rule) : List (Signature × Rule) :=
  (rules.map signature).eraseDups.filterMap fun signature => (group? rules signature).map (signature, ·)

theorem isMalformed_of_mem_itemsUnder {signature : Signature} {rules : List Rule} {item : Item}
    (h : item ∈ itemsUnder signature rules) : item.isMalformed = false := by
  obtain ⟨rule, _, hr⟩ := List.mem_flatMap.mp h
  simpa using (List.mem_filter.mp hr).2

end Rule

/-! ## The items of one role -/

namespace Item

/-- Without items there is nothing to group. -/
@[simp] theorem groupItems_nil : groupItems [] = [] := rfl

/-- The parts of a group come from the parts that are sorted. -/
theorem groupItems_eq (items : List Item) :
    groupItems items =
      lastFlags (withRole .flag items) ++ (withRole .selector items).eraseDups ++
        (withRole .predicate items).eraseDups := rfl

/-- A flag is set among the flags. -/
theorem withRole_setFlag {item : Item} (hr : item.role = .flag) (items : List Item) :
    withRole .flag (setFlag item items) = setFlag item (withRole .flag items) := by
  induction items with
  | nil => simp [setFlag, withRole, hr]
  | cons head tail ih =>
    by_cases hh : head.role = .flag
    · by_cases hk : head.key = item.key
      · simp [setFlag, withRole, hh, hk, hr]
      · simpa [setFlag, withRole, hh, hk] using ih
    · simpa [setFlag, withRole, hh] using ih

/-- A flag that is set leaves the other items alone. -/
theorem withRole_setFlag_of_ne {item : Item} {role : Role} (hr : item.role = .flag) (hne : role ≠ .flag)
    (items : List Item) : withRole role (setFlag item items) = withRole role items := by
  induction items with
  | nil => simp [setFlag, withRole, hr, hne.symm]
  | cons head tail ih =>
    by_cases hh : head.role = .flag ∧ head.key = item.key
    · simp [setFlag, withRole, hh, hr, hne.symm]
    · simp only [setFlag, hh, if_false]
      by_cases hrole : head.role = role
      · simpa [withRole, hrole] using ih
      · simpa [withRole, hrole] using ih

/-- A condition is added among the items of its role. -/
theorem withRole_addCondition (item : Item) (items : List Item) :
    withRole item.role (addCondition item items) = addCondition item (withRole item.role items) := by
  have hm : item ∈ withRole item.role items ↔ item ∈ items := by simp [withRole]
  unfold addCondition
  by_cases h : item ∈ items
  · simp [h, hm]
  · rw [if_neg h, if_neg (mt hm.mp h), withRole_append]
    simp [withRole]

/-- A condition that is added leaves the items of other roles alone. -/
theorem withRole_addCondition_of_ne {item : Item} {role : Role} (hne : item.role ≠ role) (items : List Item) :
    withRole role (addCondition item items) = withRole role items := by
  unfold addCondition
  split
  · rfl
  · simp [withRole, hne]

/-- An item that is added changes the items of its own role only, and these as if they were alone. -/
theorem withRole_add (role : Role) (items : List Item) (item : Item) :
    withRole role (add items item) =
      if item.role = role then add (withRole role items) item else withRole role items := by
  unfold add
  by_cases h : item.role = role
  · subst h
    rw [if_pos rfl]
    cases hr : item.role with
    | flag => exact withRole_setFlag hr items
    | selector => simpa [hr] using withRole_addCondition item items
    | predicate => simpa [hr] using withRole_addCondition item items
  · rw [if_neg h]
    cases hr : item.role with
    | flag => exact withRole_setFlag_of_ne hr (fun e => h (hr.trans e.symm)) items
    | selector => exact withRole_addCondition_of_ne h items
    | predicate => exact withRole_addCondition_of_ne h items

/-- Items that are added one after another change each role on its own. -/
theorem withRole_foldl_add (role : Role) (items others : List Item) :
    withRole role (others.foldl add items) = (withRole role others).foldl add (withRole role items) := by
  induction others generalizing items with
  | nil => rfl
  | cons item others ih =>
    rw [List.foldl_cons, ih, withRole_add]
    by_cases h : item.role = role <;> simp [withRole, h]

/-! ## One step of the grouping -/

/-- The last of the items with a key has that key. -/
theorem getLast?_key {flags : List Item} {key : Text} {flag : Item}
    (h : (flags.filter (·.key == key)).getLast? = some flag) : flag ∈ flags ∧ flag.key = key := by
  simpa using List.mem_filter.mp (List.mem_of_getLast? h)

/-- Setting a flag in a list with one flag for each of some keys. -/
theorem setFlag_filterMap {flag : Item} {last : Text → Option Item} {keys : List Text} (hk : keys.Nodup)
    (hlast : ∀ key ∈ keys, ∃ item, last key = some item ∧ item.key = key ∧ item.role = .flag) :
    setFlag flag (keys.filterMap last) =
      if flag.key ∈ keys then keys.filterMap fun key => if key = flag.key then some flag else last key
      else keys.filterMap last ++ [flag] := by
  induction keys with
  | nil => rfl
  | cons key keys ih =>
    obtain ⟨hnot, hk⟩ := List.nodup_cons.mp hk
    obtain ⟨item, hi, hkey, hrole⟩ := hlast key List.mem_cons_self
    have ih := ih hk fun k hm => hlast k (List.mem_cons_of_mem _ hm)
    by_cases he : key = flag.key
    · -- the other keys are different, so nothing else changes
      have hrest : (keys.filterMap fun k => if k = flag.key then some flag else last k) = keys.filterMap last :=
        List.filterMap_congr fun k hm => if_neg fun e => hnot (by rw [he, ← e]; exact hm)
      rw [if_pos (by simp [he]), List.filterMap_cons_some hi, List.filterMap_cons, if_pos he, hrest]
      simp [setFlag, hrole, hkey, he]
    · have hset : ∀ items, setFlag flag (item :: items) = item :: setFlag flag items := fun items => by
        simp [setFlag, hkey, he]
      rw [List.filterMap_cons_some hi, hset, ih]
      by_cases hm : flag.key ∈ keys
      · rw [if_pos hm, if_pos (List.mem_cons_of_mem _ hm)]
        simp [he, hi]
      · rw [if_neg hm, if_neg (by simpa using ⟨fun e => he e.symm, hm⟩), List.cons_append]

/-- Setting a flag makes it the last one with its key. -/
theorem setFlag_lastFlags {flags : List Item} {flag : Item} (h : ∀ item ∈ flags, item.role = .flag) :
    setFlag flag (lastFlags flags) = lastFlags (flags ++ [flag]) := by
  have hlast : ∀ key ∈ (flags.map Item.key).eraseDups, ∃ item,
      (flags.filter (·.key == key)).getLast? = some item ∧ item.key = key ∧ item.role = .flag := by
    intro key hkey
    obtain ⟨item, hi, rfl⟩ := List.mem_map.mp (List.mem_eraseDups.mp hkey)
    have hne : flags.filter (·.key == item.key) ≠ [] := List.ne_nil_of_mem (List.mem_filter.mpr ⟨hi, by simp⟩)
    obtain ⟨last, hl⟩ := Option.isSome_iff_exists.mp (List.getLast?_isSome.mpr hne)
    obtain ⟨hm, hk⟩ := getLast?_key hl
    exact ⟨last, hl, hk, h last hm⟩
  have hstep : ∀ key, ((flags ++ [flag]).filter (·.key == key)).getLast? =
      if key = flag.key then some flag else (flags.filter (·.key == key)).getLast? := by
    intro key
    by_cases he : key = flag.key
    · simp [he]
    · simp [he, Ne.symm he]
  have hkeys := eraseDups_concat (flags.map Item.key) flag.key
  rw [lastFlags, setFlag_filterMap (nodup_eraseDups _) hlast, lastFlags, List.map_append, List.map_singleton, hkeys,
    List.filterMap_congr fun key _ => hstep key]
  simp only [List.mem_eraseDups]
  split
  · rfl
  · next hnot =>
    have hsame : (flags.map Item.key).eraseDups.filterMap (fun key =>
        if key = flag.key then some flag else (flags.filter (·.key == key)).getLast?) =
        (flags.map Item.key).eraseDups.filterMap fun key => (flags.filter (·.key == key)).getLast? :=
      List.filterMap_congr fun key hm => if_neg fun e => hnot (by rw [← e]; exact List.mem_eraseDups.mp hm)
    rw [List.filterMap_append, hsame]
    simp

/-- Adding a condition is erasing its repetition. -/
theorem addCondition_eraseDups (items : List Item) (item : Item) :
    addCondition item items.eraseDups = (items ++ [item]).eraseDups := by
  simp [addCondition, eraseDups_concat, List.mem_eraseDups]

/-- Flags that are added one after another. -/
theorem foldl_add_lastFlags {flags others : List Item} (hf : ∀ item ∈ flags, item.role = .flag)
    (ho : ∀ item ∈ others, item.role = .flag) : others.foldl add (lastFlags flags) = lastFlags (flags ++ others) := by
  induction others generalizing flags with
  | nil => simp
  | cons item others ih =>
    have hitem := ho item List.mem_cons_self
    have hadd : add (lastFlags flags) item = lastFlags (flags ++ [item]) := by
      simp only [add, hitem]; exact setFlag_lastFlags hf
    rw [List.foldl_cons, hadd, ih (by simpa [or_imp, forall_and, hitem] using hf)
      fun other hm => ho other (List.mem_cons_of_mem _ hm), List.append_assoc, List.singleton_append]

/-- Conditions that are added one after another. -/
theorem foldl_add_eraseDups {role : Role} (hrole : role ≠ .flag) {items others : List Item}
    (ho : ∀ item ∈ others, item.role = role) : others.foldl add items.eraseDups = (items ++ others).eraseDups := by
  induction others generalizing items with
  | nil => simp
  | cons item others ih =>
    have hadd : add items.eraseDups item = (items ++ [item]).eraseDups := by
      rw [← addCondition_eraseDups]
      cases hr : item.role with
      | flag => exact absurd (ho item List.mem_cons_self ▸ hr) hrole
      | selector => simp [add, hr]
      | predicate => simp [add, hr]
    rw [List.foldl_cons, hadd, ih fun other hm => ho other (List.mem_cons_of_mem _ hm), List.append_assoc,
      List.singleton_append]

/-! ## Grouped items -/

/-- The last flags are flags of the list. -/
theorem mem_of_mem_lastFlags {flags : List Item} {item : Item} (h : item ∈ lastFlags flags) : item ∈ flags := by
  obtain ⟨key, _, hk⟩ := List.mem_filterMap.mp h
  exact (getLast?_key hk).1

/-- Grouping makes up no items. -/
theorem mem_of_mem_groupItems {items : List Item} {item : Item} (h : item ∈ groupItems items) : item ∈ items := by
  rw [groupItems_eq, List.mem_append, List.mem_append, List.mem_eraseDups, List.mem_eraseDups] at h
  rcases h with (h | h) | h
  · exact (List.mem_filter.mp (mem_of_mem_lastFlags h)).1
  · exact (List.mem_filter.mp h).1
  · exact (List.mem_filter.mp h).1

/-- The flags among grouped items. -/
theorem withRole_flag_groupItems (items : List Item) :
    withRole .flag (groupItems items) = lastFlags (withRole .flag items) := by
  rw [groupItems_eq, withRole_append, withRole_append,
    withRole_eq_self fun item hi => role_of_mem_withRole (mem_of_mem_lastFlags hi),
    withRole_eq_nil (fun item hi => role_of_mem_withRole (List.mem_eraseDups.mp hi)) (by decide),
    withRole_eq_nil (fun item hi => role_of_mem_withRole (List.mem_eraseDups.mp hi)) (by decide)]
  simp

/-- The conditions of a role among grouped items. -/
theorem withRole_groupItems {role : Role} (hrole : role ≠ .flag) (items : List Item) :
    withRole role (groupItems items) = (withRole role items).eraseDups := by
  have hflags : withRole role (lastFlags (withRole .flag items)) = [] :=
    withRole_eq_nil (fun item hi => role_of_mem_withRole (mem_of_mem_lastFlags hi)) hrole.symm
  have hself : ∀ r, withRole r (withRole r items).eraseDups = (withRole r items).eraseDups := fun r =>
    withRole_eq_self fun item hi => role_of_mem_withRole (List.mem_eraseDups.mp hi)
  have hother : ∀ r, r ≠ role → withRole role (withRole r items).eraseDups = [] := fun r hr =>
    withRole_eq_nil (fun item hi => role_of_mem_withRole (List.mem_eraseDups.mp hi)) hr
  rw [groupItems_eq, withRole_append, withRole_append, hflags]
  cases role with
  | flag => exact absurd rfl hrole
  | selector => rw [hself, hother _ (by decide)]; simp
  | predicate => rw [hself, hother _ (by decide)]; simp

/-- **Adding to a group**: items that are added to grouped items and sorted are grouped with them. -/
theorem byRole_foldl_add (items others : List Item) :
    byRole (others.foldl add (groupItems items)) = groupItems (items ++ others) := by
  have hflag : withRole .flag (others.foldl add (groupItems items)) = lastFlags (withRole .flag (items ++ others)) := by
    rw [withRole_foldl_add, withRole_flag_groupItems, withRole_append,
      foldl_add_lastFlags (fun item => role_of_mem_withRole) fun item => role_of_mem_withRole]
  have hcondition : ∀ role, role ≠ .flag →
      withRole role (others.foldl add (groupItems items)) = (withRole role (items ++ others)).eraseDups := by
    intro role hrole
    rw [withRole_foldl_add, withRole_groupItems hrole, withRole_append,
      foldl_add_eraseDups hrole fun item => role_of_mem_withRole]
  rw [byRole, hflag, hcondition _ (by decide), hcondition _ (by decide), groupItems_eq]

end Item

/-! ## Groups grow rule by rule -/

namespace Rule

/-- The items under the signature of a rule that comes last end with the items of that rule. -/
theorem itemsUnder_concat_self (rules : List Rule) (rule : Rule) :
    itemsUnder rule.signature (rules ++ [rule]) = itemsUnder rule.signature rules ++ rule.wellFormed := by
  simp [itemsUnder]

/-- The items under other signatures do not change. -/
theorem itemsUnder_concat_of_ne (rules : List Rule) {rule : Rule} {signature : Signature}
    (h : signature ≠ rule.signature) : itemsUnder signature (rules ++ [rule]) = itemsUnder signature rules := by
  simp [itemsUnder, h.symm]

/-- No rule has items under a signature that none has. -/
theorem itemsUnder_eq_nil {rules : List Rule} {signature : Signature}
    (h : rules.find? (·.signature == signature) = none) : itemsUnder signature rules = [] := by
  have hf : rules.filter (·.signature == signature) = [] :=
    List.filter_eq_nil_iff.mpr fun rule hr => List.find?_eq_none.mp h rule hr
  simp [itemsUnder, hf]

/-- A rule with grouped items that absorbs another one has the items of both in one group. -/
theorem absorb_groupItems (subject : Subject) (items : List Item) (rule : Rule) :
    (⟨subject, Item.groupItems items⟩ : Rule).absorb rule =
      ⟨subject, Item.groupItems (items ++ rule.wellFormed)⟩ :=
  congrArg (Rule.mk subject) (Item.byRole_foldl_add items rule.wellFormed)

/-- A rule that comes last is absorbed by the group of its signature. -/
theorem group?_concat_self (rules : List Rule) (rule : Rule) :
    group? (rules ++ [rule]) rule.signature =
      some (((group? rules rule.signature).getD (Rule.empty rule.subject)).absorb rule) := by
  rw [group?, group?, itemsUnder_concat_self, List.find?_append]
  cases hf : rules.find? (·.signature == rule.signature) with
  | none =>
    have h := absorb_groupItems rule.subject [] rule
    rw [Item.groupItems_nil, List.nil_append] at h
    simp [itemsUnder_eq_nil hf, Rule.empty, h]
  | some first => simpa using (absorb_groupItems first.subject (itemsUnder rule.signature rules) rule).symm

/-- The groups of other signatures do not change. -/
theorem group?_concat_of_ne (rules : List Rule) {rule : Rule} {signature : Signature}
    (h : signature ≠ rule.signature) : group? (rules ++ [rule]) signature = group? rules signature := by
  simp [group?, itemsUnder_concat_of_ne rules h, List.find?_append, h.symm]

/-- There is a group for exactly the signatures of the rules. -/
theorem group?_isSome_iff (rules : List Rule) (signature : Signature) :
    (group? rules signature).isSome ↔ ∃ rule ∈ rules, rule.signature = signature := by
  simp [group?]

end Rule

/-! ## A set of rules -/

namespace RuleSet

/-- Rules that are merged one after another: the last one comes in last. -/
theorem ofRules_concat (rules : List Rule) (rule : Rule) : ofRules (rules ++ [rule]) = (ofRules rules).insert rule := by
  simp [ofRules]

/-- The signatures of the entries are those of the rules, in the order in which they came. -/
theorem map_fst_entries_ofRules (rules : List Rule) :
    (ofRules rules).entries.map Prod.fst = (rules.map Rule.signature).eraseDups := by
  induction rules using List.reverseRecOn with
  | nil => rfl
  | append_singleton rules rule ih =>
    rw [ofRules_concat, insert, map_fst_insertEntry, ih, List.map_append, List.map_singleton, eraseDups_concat]
    simp only [List.mem_eraseDups]

/-- The entry of a signature is its group. -/
theorem get?_ofRules (rules : List Rule) (signature : Signature) :
    (ofRules rules).get? signature = Rule.group? rules signature := by
  induction rules using List.reverseRecOn with
  | nil => rfl
  | append_singleton rules rule ih =>
    rw [ofRules_concat]
    by_cases h : signature = rule.signature
    · subst h
      rw [get?_insert_self, ih, Rule.group?_concat_self]
    · rw [get?_insert_of_ne _ _ h, ih, Rule.group?_concat_of_ne _ h]

/-- Entries with different signatures can be read off their signatures. -/
theorem filterMap_lookup {entries : List (Signature × Rule)} (h : (entries.map Prod.fst).Nodup) :
    (entries.map Prod.fst).filterMap (fun signature => (entries.lookup signature).map (signature, ·)) = entries := by
  induction entries with
  | nil => rfl
  | cons entry entries ih =>
    obtain ⟨first, rule⟩ := entry
    obtain ⟨hnot, h⟩ := List.nodup_cons.mp h
    have htail : (entries.map Prod.fst).filterMap
        (fun signature => (((first, rule) :: entries).lookup signature).map (signature, ·)) = entries := by
      refine Eq.trans (List.filterMap_congr fun signature hm => ?_) (ih h)
      have hne : (signature == first) = false := beq_eq_false_iff_ne.mpr fun e => hnot (e ▸ hm)
      simp [List.lookup_cons, hne]
    rw [List.map_cons, List.filterMap_cons, htail]
    simp only [List.lookup_cons_self, Option.map_some]

/-- **The entries of a set are the groups of its rules.** -/
theorem entries_ofRules (rules : List Rule) : (ofRules rules).entries = Rule.groups rules := by
  have hnodup : ((ofRules rules).entries.map Prod.fst).Nodup := by
    rw [map_fst_entries_ofRules]; exact nodup_eraseDups _
  rw [← filterMap_lookup hnodup, map_fst_entries_ofRules, Rule.groups]
  exact List.filterMap_congr fun signature _ => congrArg _ (get?_ofRules rules signature)

end RuleSet

/-- The merged rules are the groups of the signatures. -/
theorem merge_eq_filterMap_group? (rules : List Rule) :
    merge rules = (rules.map Rule.signature).eraseDups.filterMap (Rule.group? rules) := by
  rw [merge_eq_rules, RuleSet.rules, RuleSet.entries_ofRules, Rule.groups, List.map_filterMap]
  refine List.filterMap_congr fun signature _ => ?_
  rw [Option.map_map]
  exact Option.map_id'

namespace Rule

/-- Each rule has a group. -/
theorem exists_group {rules : List Rule} {rule : Rule} (h : rule ∈ rules) :
    ∃ merged, group? rules rule.signature = some merged :=
  Option.isSome_iff_exists.mp ((group?_isSome_iff rules rule.signature).mpr ⟨rule, h, rfl⟩)

theorem mem_merge_of_group {rules : List Rule} {rule merged : Rule} (hr : rule ∈ rules)
    (h : group? rules rule.signature = some merged) : merged ∈ merge rules := by
  rw [merge_eq_filterMap_group?]
  exact List.mem_filterMap.mpr ⟨rule.signature, List.mem_eraseDups.mpr (List.mem_map_of_mem hr), h⟩

/-- A merged rule is the group of some rule. -/
theorem exists_of_mem_merge {rules : List Rule} {merged : Rule} (h : merged ∈ merge rules) :
    ∃ rule ∈ rules, group? rules rule.signature = some merged := by
  rw [merge_eq_filterMap_group?] at h
  obtain ⟨signature, hs, hm⟩ := List.mem_filterMap.mp h
  obtain ⟨rule, hr, rfl⟩ := List.mem_map.mp (List.mem_eraseDups.mp hs)
  exact ⟨rule, hr, hm⟩

/-- The items of a group are items of the rules in it. -/
theorem exists_of_mem_group {rules : List Rule} {signature : Signature} {merged : Rule}
    (h : group? rules signature = some merged) {item : Item} (hi : item ∈ merged.items) :
    ∃ rule ∈ rules, rule.signature = signature ∧ item ∈ rule.wellFormed := by
  obtain ⟨first, _, rfl⟩ := Option.map_eq_some_iff.mp h
  obtain ⟨rule, hr, hir⟩ := List.mem_flatMap.mp (Item.mem_of_mem_groupItems hi)
  obtain ⟨hr, hs⟩ := List.mem_filter.mp hr
  exact ⟨rule, hr, by simpa using hs, hir⟩

end Rule

/-- **Merging is grouping.** Rules that come into an empty set one by one are grouped by signature: there is one entry
for each signature, in the order in which the signatures came, and it is the rule that stands for all rules with that
signature. The slots of a store hold the same rules, and its index leads from each signature to its rule. -/
theorem ofRules_is_grouping (rules : List Rule) :
    (RuleSet.ofRules rules).entries = Rule.groups rules ∧
      (RuleSet.ofRules rules).entries.map Prod.fst = (rules.map Rule.signature).eraseDups ∧
      (∀ signature, (RuleSet.ofRules rules).get? signature = Rule.group? rules signature) ∧
      (∀ signature, ((RuleSet.ofRules rules).get? signature).isSome ↔ ∃ rule ∈ rules, rule.signature = signature) ∧
      merge rules = (Rule.groups rules).map Prod.snd ∧
      (RuleStore.ofRules rules).Refines (RuleSet.ofRules rules) ∧
      (∀ signature, (RuleStore.ofRules rules).get? signature = Rule.group? rules signature) := by
  have hentries := RuleSet.entries_ofRules rules
  have hrefines := RuleStore.refines_ofRules rules
  refine ⟨hentries, RuleSet.map_fst_entries_ofRules rules, RuleSet.get?_ofRules rules, fun signature => ?_, ?_,
    hrefines, fun signature => ?_⟩
  · rw [RuleSet.get?_ofRules]; exact Rule.group?_isSome_iff rules signature
  · rw [merge_eq_rules, RuleSet.rules, hentries]
  · rw [hrefines.get?_eq, RuleSet.get?_ofRules]

end WindowRules

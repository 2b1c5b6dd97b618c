import WindowRules.Proofs.Merging.Collisions
import WindowRules.Proofs.Merging.Fixed

/-!
# Merging in both dialects

Rules that are told by their signatures (`Told`) have merged rules with these signatures, so merging them a second time
changes nothing (`ofRules_merge`). If the signatures tell them as another dialect keeps them, too, then it does not
matter whether the rules are merged before or after they are kept for it (`merge_map_encoded_of_told`). Proof: rules of one
signature stay together, each group comes where its first rule came, and what a dialect keeps of different items is
different, so the same items are repetitions.
-/

namespace WindowRules

/-- Rules that share their signature, as the dialect keeps them, have the same subject and the same conditions. -/
def Told (dialect : Dialect) (rules : List Rule) : Prop :=
  ∀ rule ∈ rules, ∀ other ∈ rules, (rule.encoded dialect).signature = (other.encoded dialect).signature →
    rule.subject = other.subject ∧ rule.conditions.Perm other.conditions

instance (dialect : Dialect) (rules : List Rule) : Decidable (Told dialect rules) :=
  inferInstanceAs (Decidable (∀ rule ∈ rules, ∀ other ∈ rules,
    (rule.encoded dialect).signature = (other.encoded dialect).signature →
      rule.subject = other.subject ∧ rule.conditions.Perm other.conditions))

/-- The conditions that a dialect keeps are those of the rule as it keeps them. -/
theorem Rule.conditions_encoded (dialect : Dialect) (rule : Rule) :
    (rule.encoded dialect).conditions = rule.conditions.map (Item.encoded dialect rule.subject) := by
  simp [conditions, encoded, List.filter_map, Function.comp_def]

theorem Rule.signature_encoded_of_perm (dialect : Dialect) {rule other : Rule} (hsubject : rule.subject = other.subject)
    (h : rule.conditions.Perm other.conditions) : (rule.encoded dialect).signature = (other.encoded dialect).signature := by
  refine signature_eq_of_perm ?_
  rw [conditions_encoded, conditions_encoded, hsubject]
  exact h.map _

/-! ## Merging twice -/

section Twice

variable {rules : List Rule} (hnodup : ∀ rule ∈ rules, rule.conditions.Nodup)
  (hsame : ∀ rule ∈ rules, ∀ other ∈ rules, rule.signature = other.signature → rule.conditions.Perm other.conditions)

include hnodup hsame

/-- A group of rules with the same conditions has the signature of these rules. -/
theorem Rule.signature_group {signature : Signature} {merged : Rule} (h : group? rules signature = some merged) :
    merged.signature = signature := by
  obtain ⟨rule, hr, hs⟩ := (group?_isSome_iff rules signature).mp (by rw [h]; rfl)
  have hperm : merged.conditions.Perm rule.conditions := by
    refine (List.perm_ext_iff_of_nodup (nodup_conditions_group h) (hnodup rule hr)).mpr fun item => ?_
    rw [mem_conditions_group h]
    constructor
    · rintro ⟨other, ho, hos, hi⟩
      exact (hsame other ho rule hr (hos.trans hs.symm)).mem_iff.mp hi
    · exact fun hi => ⟨rule, hr, hs, hi⟩
  exact (signature_eq_of_perm hperm).trans hs

/-- **Merging twice is merging once**, with the same signatures. -/
theorem RuleSet.ofRules_merge : ofRules (merge rules) = ofRules rules := by
  have hentries : (ofRules rules).entries = (merge rules).map fun rule => (rule.signature, rule) := by
    rw [merge_eq_rules, RuleSet.rules, List.map_map]
    refine (List.map_id _).symm.trans (List.map_congr_left fun entry he => ?_)
    exact Prod.ext (Rule.signature_group hnodup hsame (group?_of_mem_entries he)).symm rfl
  have hfirst : (merge rules).map Rule.signature = (ofRules rules).entries.map Prod.fst := by
    rw [hentries, List.map_map]
    rfl
  have hdifferent : ((merge rules).map Rule.signature).Nodup := by
    rw [hfirst, map_fst_entries_ofRules]
    exact nodup_eraseDups _
  have hagain := entries_of_nodup (fun rule => grouped_of_mem_merge) hdifferent
  exact congrArg RuleSet.mk (hagain.trans hentries.symm)

end Twice

/-! ## Merging and keeping -/

theorem eraseDups_map_of_injOn {α β : Type} [BEq α] [LawfulBEq α] [BEq β] [LawfulBEq β] {f : α → β} {items : List α}
    (h : ∀ item ∈ items, ∀ other ∈ items, f item = f other → item = other) :
    (items.map f).eraseDups = items.eraseDups.map f := by
  induction items using List.reverseRecOn with
  | nil => rfl
  | append_singleton items item ih =>
    have hinit := ih fun i hi o ho => h i (List.mem_append_left _ hi) o (List.mem_append_left _ ho)
    have hmem : f item ∈ items.map f ↔ item ∈ items := by
      refine ⟨fun hm => ?_, List.mem_map_of_mem⟩
      obtain ⟨other, ho, he⟩ := List.mem_map.mp hm
      rwa [← h other (List.mem_append_left _ ho) item (List.mem_append_right _ (List.mem_singleton_self _)) he]
    rw [List.map_append, List.map_singleton, eraseDups_concat, eraseDups_concat, hinit]
    by_cases hi : item ∈ items
    · rw [if_pos (hmem.mpr hi), if_pos hi]
    · rw [if_neg (mt hmem.mp hi), if_neg hi, List.map_append, List.map_singleton]

/-- Two keys that agree on which items are alike have their first occurrences at the same items. -/
theorem exists_eraseDups_map {α β γ : Type} [BEq β] [LawfulBEq β] [BEq γ] [LawfulBEq γ] {f : α → β} {g : α → γ}
    {items : List α} (h : ∀ item ∈ items, ∀ other ∈ items, f item = f other ↔ g item = g other) :
    ∃ firsts, firsts ⊆ items ∧ (items.map f).eraseDups = firsts.map f ∧ (items.map g).eraseDups = firsts.map g := by
  induction items using List.reverseRecOn with
  | nil => exact ⟨[], List.Subset.refl _, rfl, rfl⟩
  | append_singleton items item ih =>
    obtain ⟨firsts, hsub, hf, hg⟩ := ih fun i hi o ho => h i (List.mem_append_left _ hi) o (List.mem_append_left _ ho)
    have hmem : f item ∈ items.map f ↔ g item ∈ items.map g := by
      have hlike := fun o ho => h o (List.mem_append_left _ ho) item (List.mem_append_right _ (List.mem_singleton_self _))
      constructor <;> intro hm <;> obtain ⟨other, ho, he⟩ := List.mem_map.mp hm
      · exact List.mem_map.mpr ⟨other, ho, (hlike other ho).mp he⟩
      · exact List.mem_map.mpr ⟨other, ho, (hlike other ho).mpr he⟩
    simp only [List.map_append, List.map_singleton, eraseDups_concat, hf, hg]
    by_cases hi : g item ∈ items.map g
    · exact ⟨firsts, fun o ho => List.mem_append_left _ (hsub ho), by rw [if_pos (hmem.mpr hi)], by rw [if_pos hi]⟩
    · refine ⟨firsts ++ [item], ?_, ?_, ?_⟩
      · exact List.append_subset.mpr ⟨fun o ho => List.mem_append_left _ (hsub ho), List.subset_append_right _ _⟩
      · rw [if_neg (mt hmem.mp hi), List.map_append, List.map_singleton]
      · rw [if_neg hi, List.map_append, List.map_singleton]

namespace Item

/-- The last flags are found by their keys, which every dialect keeps as they are. -/
theorem lastFlags_map_encoded (dialect : Dialect) (subject : Subject) {flags : List Item}
    (h : ∀ flag ∈ flags, flag.role = .flag) :
    lastFlags (flags.map (encoded dialect subject)) = (lastFlags flags).map (encoded dialect subject) := by
  have hkey : ∀ flag ∈ flags, (flag.encoded dialect subject).key = flag.key := fun flag hf =>
    encoded_key_of_flag dialect subject (h flag hf)
  have hkeys : (flags.map (encoded dialect subject)).map Item.key = flags.map Item.key := by
    rw [List.map_map]
    exact List.map_congr_left hkey
  rw [lastFlags, lastFlags, hkeys, List.map_filterMap]
  refine List.filterMap_congr fun key _ => ?_
  have hfilter : flags.filter ((·.key == key) ∘ encoded dialect subject) = flags.filter (·.key == key) :=
    List.filter_congr fun flag hf => by rw [Function.comp_apply, hkey flag hf]
  rw [List.filter_map, hfilter, List.getLast?_map]

/-- Items are grouped before or after a dialect keeps them, if it keeps different ones apart. -/
theorem groupItems_map_encoded {dialect : Dialect} {subject : Subject} {items : List Item}
    (h : ∀ item ∈ items, ∀ other ∈ items, item.encoded dialect subject = other.encoded dialect subject → item = other) :
    groupItems (items.map (encoded dialect subject)) = (groupItems items).map (encoded dialect subject) := by
  have hrole : ∀ role, (withRole role (items.map (encoded dialect subject))).eraseDups =
      (withRole role items).eraseDups.map (encoded dialect subject) := by
    intro role
    rw [withRole_map_encoded]
    exact eraseDups_map_of_injOn fun item hi other ho => h item (List.mem_filter.mp hi).1 other (List.mem_filter.mp ho).1
  rw [groupItems_eq, hrole, hrole, withRole_map_encoded, lastFlags_map_encoded _ _ fun flag => role_of_mem_withRole,
    groupItems_eq, List.map_append, List.map_append]

end Item

section Encoded

variable {dialect : Dialect} {rules : List Rule} (hbare : ∀ rule ∈ rules, rule.Bare)
  (hlike : ∀ rule ∈ rules, ∀ other ∈ rules,
    (rule.encoded dialect).signature = (other.encoded dialect).signature ↔ rule.signature = other.signature)
  (hsubject : ∀ rule ∈ rules, ∀ other ∈ rules, rule.signature = other.signature → rule.subject = other.subject)

include hlike in
/-- The same rules have the signature of a rule in both dialects. -/
theorem Rule.filter_signature_encoded {rule : Rule} (hr : rule ∈ rules) :
    rules.filter ((·.signature == (rule.encoded dialect).signature) ∘ Rule.encoded dialect) =
      rules.filter (·.signature == rule.signature) := by
  refine List.filter_congr fun other ho => ?_
  rw [Function.comp_apply, Bool.eq_iff_iff, beq_iff_eq, beq_iff_eq]
  exact hlike other ho rule hr

include hlike hsubject in
/-- The items under a signature are kept one by one. -/
theorem Rule.itemsUnder_map_encoded {rule : Rule} (hr : rule ∈ rules) :
    itemsUnder (rule.encoded dialect).signature (rules.map (Rule.encoded dialect)) =
      (itemsUnder rule.signature rules).map (Item.encoded dialect rule.subject) := by
  rw [itemsUnder, List.filter_map, filter_signature_encoded hlike hr, List.flatMap_map, itemsUnder, List.map_flatMap]
  refine List.flatMap_congr fun other ho => ?_
  obtain ⟨ho, hs⟩ := List.mem_filter.mp ho
  have hsame : other.subject = rule.subject := hsubject other ho rule hr (by simpa using hs)
  simp [wellFormed, Rule.encoded, List.filter_map, Function.comp_def, hsame]

include hbare hlike hsubject in
theorem Rule.group?_map_encoded {rule : Rule} (hr : rule ∈ rules) :
    group? (rules.map (Rule.encoded dialect)) (rule.encoded dialect).signature =
      (group? rules rule.signature).map (Rule.encoded dialect) := by
  have hfind : rules.find? ((·.signature == (rule.encoded dialect).signature) ∘ Rule.encoded dialect) =
      rules.find? (·.signature == rule.signature) := by
    rw [← List.head?_filter, filter_signature_encoded hlike hr, List.head?_filter]
  have hinjective : ∀ item ∈ itemsUnder rule.signature rules, ∀ other ∈ itemsUnder rule.signature rules,
      item.encoded dialect rule.subject = other.encoded dialect rule.subject → item = other := by
    have hself : ∀ item ∈ itemsUnder rule.signature rules,
        (item.encoded dialect rule.subject).encoded .block rule.subject = item := by
      intro item hi
      obtain ⟨other, ho, hi⟩ := List.mem_flatMap.mp hi
      obtain ⟨ho, hs⟩ := List.mem_filter.mp ho
      rw [← hsubject other ho rule hr (by simpa using hs)]
      exact Item.encoded_block_encoded (hbare other ho item (List.mem_filter.mp hi).1) dialect
    intro item hi other ho he
    rw [← hself item hi, he, hself other ho]
  rw [group?, group?, List.find?_map, hfind, itemsUnder_map_encoded hlike hsubject hr,
    Item.groupItems_map_encoded hinjective]
  cases hf : rules.find? (·.signature == rule.signature) with
  | none => rfl
  | some first =>
    have hsame : first.subject = rule.subject :=
      hsubject first (List.mem_of_find?_eq_some hf) rule hr (by simpa using List.find?_some hf)
    simp [Rule.encoded, hsame]

include hbare hlike hsubject in
/-- Rules may be merged before or after a dialect keeps them, if they have the same signature in both dialects. -/
theorem merge_map_encoded : merge (rules.map (Rule.encoded dialect)) = (merge rules).map (Rule.encoded dialect) := by
  obtain ⟨firsts, hsub, hencoded, hkept⟩ := exists_eraseDups_map hlike
  rw [merge_eq_filterMap_group?, List.map_map, merge_eq_filterMap_group?, hkept, List.filterMap_map, List.map_filterMap]
  have hfirsts : (rules.map (Rule.signature ∘ Rule.encoded dialect)).eraseDups =
      firsts.map fun rule => (rule.encoded dialect).signature := hencoded
  rw [hfirsts, List.filterMap_map]
  exact List.filterMap_congr fun rule hr => Rule.group?_map_encoded hbare hlike hsubject (hsub hr)

end Encoded

section Told

variable {rules : List Rule} (hbare : ∀ rule ∈ rules, rule.Bare) (htold : ∀ dialect, Told dialect rules)

include hbare htold

theorem same_of_told : ∀ rule ∈ rules, ∀ other ∈ rules, rule.signature = other.signature →
    rule.subject = other.subject ∧ rule.conditions.Perm other.conditions := by
  intro rule hr other ho hs
  refine htold .block rule hr other ho ?_
  rw [(hbare rule hr).encoded_block, (hbare other ho).encoded_block, hs]

/-- **Rules that are told in both dialects may be merged before or after a dialect keeps them.** -/
theorem merge_map_encoded_of_told (dialect : Dialect) :
    merge (rules.map (Rule.encoded dialect)) = (merge rules).map (Rule.encoded dialect) := by
  have hsame := same_of_told hbare htold
  refine merge_map_encoded hbare (fun rule hr other ho => ?_) fun rule hr other ho hs => (hsame rule hr other ho hs).1
  constructor
  · exact fun hs => Rule.signature_eq_of_perm (htold dialect rule hr other ho hs).2
  · intro hs
    obtain ⟨hsubject, hperm⟩ := hsame rule hr other ho hs
    exact Rule.signature_encoded_of_perm dialect hsubject hperm

end Told

end WindowRules

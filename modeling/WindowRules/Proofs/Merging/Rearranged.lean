import WindowRules.Proofs.Merging.Collisions
import Mathlib.Data.List.Forall2

/-!
# Merging does not look at the order of conditions

A rule is rearranged (`Rule.Rearranged`) if it has the same flags in the same order and the same conditions in any
order. Where the flags stand among the conditions makes no difference, and malformed items may come or go. The signature
of a rule is the same then, and rules that are rearranged one by one are merged into rearranged rules
(`merge_rearranged`).

* `Rule.flags_group` — the flags of a group are the last ones among the flags of its rules, taken rule by rule. So they
  are read off the flags alone.
* `Rule.Rearranged.rel_group?` — the groups of one signature are rearranged. Proof: the same places hold a rule of the
  group; the flags are those of `flags_group`, and the conditions are those of the rules, each once.
-/

namespace WindowRules

namespace Rule

/-- Both rules are about the same subject and have the same flags in the same order and the same conditions, each as
often, in any order. -/
structure Rearranged (rule other : Rule) : Prop where
  subject : rule.subject = other.subject
  flags : rule.flags = other.flags
  conditions : rule.conditions.Perm other.conditions

instance (rule other : Rule) : Decidable (Rearranged rule other) :=
  decidable_of_iff (rule.subject = other.subject ∧ rule.flags = other.flags ∧ rule.conditions.Perm other.conditions)
    ⟨fun ⟨subject, flags, conditions⟩ => ⟨subject, flags, conditions⟩, fun h => ⟨h.subject, h.flags, h.conditions⟩⟩

end Rule

/-! ## Flags of a group -/

/-- Among well-formed items that are grouped the flags are the last ones for their keys. -/
theorem Item.filter_isFlag_groupItems {items : List Item} (h : ∀ item ∈ items, item.isMalformed = false) :
    (groupItems items).filter isFlag = lastFlags (withRole .flag items) := by
  rw [← withRole_flag_groupItems]
  refine List.filter_congr fun item hi => ?_
  simp [isFlag, h item (mem_of_mem_groupItems hi)]

namespace Rule

theorem withRole_flag_wellFormed (rule : Rule) : Item.withRole .flag rule.wellFormed = rule.flags := by
  rw [Item.withRole, wellFormed, flags, List.filter_filter]
  exact List.filter_congr fun item _ => Bool.and_comm _ _

/-- **The flags of a group** are the last ones among the flags of its rules, rule by rule. -/
theorem flags_group {rules : List Rule} {signature : Signature} {merged : Rule}
    (h : group? rules signature = some merged) :
    merged.flags = Item.lastFlags ((rules.filter (·.signature == signature)).flatMap flags) := by
  obtain ⟨first, _, rfl⟩ := Option.map_eq_some_iff.mp h
  have hflags : Item.withRole .flag (itemsUnder signature rules) =
      (rules.filter (·.signature == signature)).flatMap flags := by
    rw [itemsUnder, Item.withRole, List.filter_flatMap]
    exact List.flatMap_congr fun rule _ => withRole_flag_wellFormed rule
  rw [← hflags, ← Item.filter_isFlag_groupItems fun item => isMalformed_of_mem_itemsUnder, flags]

/-! ## Rearranged rules -/

namespace Rearranged

/-- A rearranged rule has the same signature. -/
theorem signature_eq {rule other : Rule} (h : Rearranged rule other) : rule.signature = other.signature :=
  signature_eq_of_perm h.conditions

section Lists

variable {rules others : List Rule} (h : List.Forall₂ Rearranged rules others)

include h

theorem map_signature_eq : rules.map signature = others.map signature := by
  induction h with
  | nil => rfl
  | cons hrule _ ih => rw [List.map_cons, List.map_cons, hrule.signature_eq, ih]

theorem flatMap_flags_eq : rules.flatMap Rule.flags = others.flatMap Rule.flags := by
  induction h with
  | nil => rfl
  | cons hrule _ ih => rw [List.flatMap_cons, List.flatMap_cons, hrule.flags, ih]

/-- The rules with a signature stand at the same places. -/
theorem filter_signature (signature : Signature) :
    List.Forall₂ Rearranged (rules.filter (·.signature == signature)) (others.filter (·.signature == signature)) :=
  List.rel_filter (fun rule other hrule => by simp only [hrule.signature_eq]) h

/-- Each condition of a rule is one of its counterpart. -/
theorem exists_condition_iff (item : Item) :
    (∃ rule ∈ rules, item ∈ rule.conditions) ↔ ∃ other ∈ others, item ∈ other.conditions := by
  induction h with
  | nil => rfl
  | cons hrule _ ih =>
    simp only [List.exists_mem_cons_iff, hrule.conditions.mem_iff, ih]

/-- The first rules with a signature, if there are any, are about the same subject. -/
theorem map_subject_find? (signature : Signature) :
    (rules.find? (·.signature == signature)).map Rule.subject =
      (others.find? (·.signature == signature)).map Rule.subject := by
  have hfilter := filter_signature h signature
  rw [← List.head?_filter, ← List.head?_filter]
  generalize rules.filter (·.signature == signature) = these at hfilter ⊢
  generalize others.filter (·.signature == signature) = those at hfilter ⊢
  cases hfilter with
  | nil => rfl
  | cons hrule _ => exact congrArg some hrule.subject

/-- **The groups of one signature are rearranged.** -/
theorem rel_group? (signature : Signature) :
    Option.Rel Rearranged (group? rules signature) (group? others signature) := by
  have hfilter := filter_signature h signature
  have hsubject := map_subject_find? h signature
  cases hrule : group? rules signature with
  | none =>
    have hnone : group? others signature = none := by
      simp only [group?, Option.map_eq_none_iff] at hrule ⊢
      simpa [hrule] using hsubject.symm
    rw [hnone]
    exact .none
  | some merged =>
    cases hother : group? others signature with
    | none =>
      simp only [group?, Option.map_eq_none_iff] at hother
      obtain ⟨first, hfirst, _⟩ := Option.map_eq_some_iff.mp hrule
      simp [hfirst, hother] at hsubject
    | some other =>
      refine .some ⟨?_, ?_, ?_⟩
      · obtain ⟨first, hfirst, rfl⟩ := Option.map_eq_some_iff.mp hrule
        obtain ⟨first', hfirst', rfl⟩ := Option.map_eq_some_iff.mp hother
        simpa [hfirst, hfirst'] using hsubject
      · rw [flags_group hrule, flags_group hother, flatMap_flags_eq hfilter]
      · refine (List.perm_ext_iff_of_nodup (nodup_conditions_group hrule) (nodup_conditions_group hother)).mpr ?_
        intro item
        rw [mem_conditions_group hrule, mem_conditions_group hother]
        simpa [and_assoc] using exists_condition_iff hfilter item

end Lists

end Rearranged
end Rule

/-! ## Merging -/

/-- **Rearranged rules are merged into rearranged rules.** If each rule of a list is a rearrangement of its counterpart,
it has the same signature, and as many merged rules come out on both sides, each a rearrangement of its counterpart. -/
theorem merge_rearranged {rules others : List Rule} (h : List.Forall₂ Rule.Rearranged rules others) :
    List.Forall₂ (fun rule other => rule.signature = other.signature) rules others ∧
      (merge rules).length = (merge others).length ∧ List.Forall₂ Rule.Rearranged (merge rules) (merge others) := by
  have hmerge : List.Forall₂ Rule.Rearranged (merge rules) (merge others) := by
    rw [merge_eq_filterMap_group?, merge_eq_filterMap_group?, Rule.Rearranged.map_signature_eq h]
    refine List.rel_filterMap ?_ (List.forall₂_eq_eq_eq ▸ rfl)
    rintro signature _ rfl
    exact Rule.Rearranged.rel_group? h signature
  exact ⟨h.imp fun _ _ hrule => hrule.signature_eq, hmerge.length_eq, hmerge⟩

/-- Two rules that are merged, with a flag that is set twice and a repeated condition, and a rule for layers. -/
def orderedRules : List Rule :=
  [⟨.window, [.flag "float".toList "on".toList, .flag "opacity".toList "0.9".toList,
      .selector "class".toList "a".toList, .selector "class".toList "a".toList, .selector "title".toList "b".toList]⟩,
    ⟨.layer, [.flag "blur".toList "on".toList, .selector "namespace".toList "bar".toList]⟩,
    ⟨.window, [.flag "opacity".toList "0.5".toList, .flag "pin".toList "on".toList,
      .selector "class".toList "a".toList, .selector "title".toList "b".toList, .selector "class".toList "a".toList]⟩]

/-- The same rules with the conditions in other places and with pieces that are no items. -/
def shuffledRules : List Rule :=
  [⟨.window, [.selector "title".toList "b".toList, .flag "float".toList "on".toList,
      .selector "class".toList "a".toList, .malformed "match:".toList, .flag "opacity".toList "0.9".toList,
      .selector "class".toList "a".toList]⟩,
    ⟨.layer, [.malformed "?".toList, .selector "namespace".toList "bar".toList, .flag "blur".toList "on".toList]⟩,
    ⟨.window, [.selector "class".toList "a".toList, .selector "class".toList "a".toList,
      .flag "opacity".toList "0.5".toList, .selector "title".toList "b".toList, .flag "pin".toList "on".toList]⟩]

/-- The first and the last rule are merged into one with three flags, whose conditions stand in the order in which they
came. -/
theorem shuffledRules_merged_alike :
    List.Forall₂ Rule.Rearranged orderedRules shuffledRules ∧
      List.Forall₂ Rule.Rearranged (merge orderedRules) (merge shuffledRules) ∧
      merge shuffledRules =
        [⟨.window, [.flag "float".toList "on".toList, .flag "opacity".toList "0.5".toList,
            .flag "pin".toList "on".toList, .selector "title".toList "b".toList, .selector "class".toList "a".toList]⟩,
          ⟨.layer, [.flag "blur".toList "on".toList, .selector "namespace".toList "bar".toList]⟩] := by
  have h : List.Forall₂ Rule.Rearranged orderedRules shuffledRules := by decide +kernel
  exact ⟨h, (merge_rearranged h).2.2, by decide +kernel⟩

end WindowRules

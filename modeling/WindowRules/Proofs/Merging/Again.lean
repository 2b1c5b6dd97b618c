import WindowRules.Proofs.Merging.Encoded
import Mathlib.Data.List.Perm.Subperm

/-!
# Merging a second time

Rules are merged by the signatures they come with, and a merged rule keeps each condition once. So its own signature,
which is that of its conditions without repetitions (`Rule.united`), need not be the one under which its rules were
merged, and two merged rules can have the same signature.

* `merge_merge_eq_iff` — merging merged rules again leaves them as they are exactly if they have different signatures.
  Proof: merged rules are grouped, so with different signatures each is an entry of its own; and a set has no two
  entries with one signature.
* `merge_merge_of_told` — rules that are told by their signatures are settled when they have been merged twice. Proof:
  merged rules repeat no condition, so among them a signature stands for the same conditions.
-/

namespace WindowRules

/-- A list that is as long without its repetitions has none. -/
theorem nodup_of_length_eraseDups {α : Type} [BEq α] [LawfulBEq α] {items : List α}
    (h : items.eraseDups.length = items.length) : items.Nodup := by
  have hsub : items.eraseDups.Subperm items := (nodup_eraseDups items).subperm fun item hi => List.mem_eraseDups.mp hi
  exact (hsub.perm_of_length_le (Nat.le_of_eq h.symm)).nodup (nodup_eraseDups items)

namespace Rule

/-- The conditions of all rules with the given signature, each once. -/
def united (signature : Signature) (rules : List Rule) : List Item :=
  ((rules.filter (·.signature == signature)).flatMap conditions).eraseDups

theorem mem_united {signature : Signature} {rules : List Rule} {item : Item} :
    item ∈ united signature rules ↔ ∃ rule ∈ rules, rule.signature = signature ∧ item ∈ rule.conditions := by
  simp [united, and_assoc]

/-- A group has the signature of the united conditions of its rules. -/
theorem signature_group_united {rules : List Rule} {signature : Signature} {merged : Rule}
    (h : group? rules signature = some merged) : merged.signature = Signature.of (united signature rules) := by
  have hunited : (⟨merged.subject, united signature rules⟩ : Rule).conditions = united signature rules := by
    refine List.filter_eq_self.mpr fun item hi => ?_
    obtain ⟨rule, _, _, hm⟩ := mem_united.mp hi
    exact (List.mem_filter.mp hm).2
  have hperm : merged.conditions.Perm (⟨merged.subject, united signature rules⟩ : Rule).conditions := by
    rw [hunited]
    refine (List.perm_ext_iff_of_nodup (nodup_conditions_group h) (nodup_eraseDups _)).mpr fun item => ?_
    exact (mem_conditions_group h item).trans mem_united.symm
  exact signature_eq_of_perm hperm

/-- The signatures of the merged rules, in order. -/
theorem map_signature_merge (rules : List Rule) :
    (merge rules).map signature =
      (rules.map signature).eraseDups.map fun signature => Signature.of (united signature rules) := by
  rw [merge_eq_filterMap_group?, List.map_filterMap]
  refine (List.filterMap_congr fun signature hs => ?_).trans (congrFun List.filterMap_eq_map _)
  obtain ⟨rule, hr, rfl⟩ := List.mem_map.mp (List.mem_eraseDups.mp hs)
  obtain ⟨merged, hm⟩ := exists_group hr
  rw [hm, Option.map_some, signature_group_united hm]
  rfl

/-- Merged rules have different signatures exactly if rules of different signatures do not unite to the same one. -/
theorem nodup_map_signature_merge_iff (rules : List Rule) :
    ((merge rules).map signature).Nodup ↔ ∀ rule ∈ rules, ∀ other ∈ rules,
      Signature.of (united rule.signature rules) = Signature.of (united other.signature rules) →
        rule.signature = other.signature := by
  rw [map_signature_merge, List.nodup_map_iff_inj_on (nodup_eraseDups _)]
  simp only [List.mem_eraseDups, List.mem_map]
  constructor
  · intro h rule hr other ho
    exact h _ ⟨rule, hr, rfl⟩ _ ⟨other, ho, rfl⟩
  · rintro h _ ⟨rule, hr, rfl⟩ _ ⟨other, ho, rfl⟩
    exact h rule hr other ho

end Rule

/-- **Merged rules are left as they are exactly if they have different signatures.** -/
theorem merge_merge_eq_iff (rules : List Rule) :
    merge (merge rules) = merge rules ↔ ((merge rules).map Rule.signature).Nodup := by
  constructor
  · intro h
    have hlength := congrArg List.length h
    rw [merge_eq_rules (merge rules), RuleSet.rules, List.length_map, ← List.length_map Prod.fst,
      RuleSet.map_fst_entries_ofRules] at hlength
    exact nodup_of_length_eraseDups (hlength.trans (List.length_map _).symm)
  · intro h
    have hentries := RuleSet.entries_of_nodup (fun rule => grouped_of_mem_merge) h
    rw [merge_eq_rules (merge rules), RuleSet.rules, hentries, List.map_map]
    exact List.map_id _

/-! ## Rules that are told by their signatures -/

section Told

variable {rules : List Rule} (htold : ∀ rule ∈ rules, ∀ other ∈ rules, rule.AreTold other)

include htold

/-- A group has the conditions of each rule that went into it. -/
theorem Rule.mem_conditions_group_of_told {rule merged : Rule} (hr : rule ∈ rules)
    (h : group? rules rule.signature = some merged) (item : Item) :
    item ∈ merged.conditions ↔ item ∈ rule.conditions := by
  rw [mem_conditions_group h]
  constructor
  · rintro ⟨other, ho, hs, hi⟩
    exact ((signature_eq_iff_perm (htold other ho rule hr)).mp hs).mem_iff.mp hi
  · exact fun hi => ⟨rule, hr, rfl, hi⟩

/-- Merged rules are told by their signatures, too. -/
theorem areTold_of_mem_merge {merged another : Rule} (hm : merged ∈ merge rules) (ha : another ∈ merge rules) :
    merged.AreTold another := by
  obtain ⟨rule, hr, hrule⟩ := Rule.exists_of_mem_merge hm
  obtain ⟨other, ho, hother⟩ := Rule.exists_of_mem_merge ha
  have hsub : ∀ item ∈ merged.conditions ++ another.conditions, item ∈ rule.conditions ++ other.conditions := by
    intro item hi
    simpa only [List.mem_append, Rule.mem_conditions_group_of_told htold hr hrule,
      Rule.mem_conditions_group_of_told htold ho hother] using hi
  obtain ⟨hfits, hplain⟩ := htold rule hr other ho
  exact ⟨fun item hi => hfits item (hsub item hi),
    hplain.imp (fun h item hi => h item (hsub item hi)) fun h item hi => h item (hsub item hi)⟩

/-- Two groups have the same signature exactly if their rules have the same conditions, repeated or not. -/
theorem Rule.signature_united_eq_iff {rule other : Rule} (hr : rule ∈ rules) (ho : other ∈ rules) :
    Signature.of (united rule.signature rules) = Signature.of (united other.signature rules) ↔
      ∀ item, item ∈ rule.conditions ↔ item ∈ other.conditions := by
  obtain ⟨merged, hm⟩ := exists_group hr
  obtain ⟨another, ha⟩ := exists_group ho
  have htold' := areTold_of_mem_merge htold (mem_merge_of_group hr hm) (mem_merge_of_group ho ha)
  rw [← signature_group_united hm, ← signature_group_united ha, signature_eq_iff_perm htold',
    List.perm_ext_iff_of_nodup (nodup_conditions_group hm) (nodup_conditions_group ha)]
  simp only [mem_conditions_group_of_told htold hr hm, mem_conditions_group_of_told htold ho ha]

/-- **Rules that are told by their signatures are settled when they have been merged twice.** -/
theorem merge_merge_of_told : merge (merge (merge rules)) = merge (merge rules) := by
  have hnodup : ∀ merged ∈ merge rules, merged.conditions.Nodup := by
    intro merged hm
    obtain ⟨rule, _, hrule⟩ := Rule.exists_of_mem_merge hm
    exact Rule.nodup_conditions_group hrule
  have hsame : ∀ merged ∈ merge rules, ∀ another ∈ merge rules, merged.signature = another.signature →
      merged.conditions.Perm another.conditions := fun merged hm another ha =>
    (Rule.signature_eq_iff_perm (areTold_of_mem_merge htold hm ha)).mp
  exact merge_eq_merge (RuleSet.ofRules_merge hnodup hsame)

end Told

/-- **When merging again changes nothing.** Merged rules are left as they are by a second merge exactly if they have
different signatures. This is so exactly if no two rules of different signatures have the same signature once their
conditions are united with those of the rules they are merged with. For rules that are told by their signatures it means
that no two rules have the same conditions and repeat them differently; then, too, a third merge finds nothing to do. -/
theorem merged_again (rules : List Rule) :
    (merge (merge rules) = merge rules ↔ ((merge rules).map Rule.signature).Nodup) ∧
      (merge (merge rules) = merge rules ↔ ∀ rule ∈ rules, ∀ other ∈ rules,
        Signature.of (Rule.united rule.signature rules) = Signature.of (Rule.united other.signature rules) →
          rule.signature = other.signature) ∧
      ((∀ rule ∈ rules, ∀ other ∈ rules, rule.AreTold other) →
        (merge (merge rules) = merge rules ↔ ∀ rule ∈ rules, ∀ other ∈ rules,
          (∀ item, item ∈ rule.conditions ↔ item ∈ other.conditions) → rule.signature = other.signature) ∧
        merge (merge (merge rules)) = merge (merge rules)) := by
  have hunited := (merge_merge_eq_iff rules).trans (Rule.nodup_map_signature_merge_iff rules)
  refine ⟨merge_merge_eq_iff rules, hunited, fun htold => ⟨hunited.trans ?_, merge_merge_of_told htold⟩⟩
  constructor <;> intro h rule hr other ho hsame
  · exact h rule hr other ho ((Rule.signature_united_eq_iff htold hr ho).mpr hsame)
  · exact h rule hr other ho ((Rule.signature_united_eq_iff htold hr ho).mp hsame)

/-- Two rules with one condition, which the first one has twice, and a rule for layers. -/
def repeatedRules : List Rule :=
  [⟨.window, [.flag "float".toList "on".toList, .selector "class".toList "a".toList,
      .selector "class".toList "a".toList]⟩,
    ⟨.layer, [.flag "blur".toList "on".toList, .selector "bar".toList "on".toList]⟩,
    ⟨.window, [.flag "pin".toList "on".toList, .selector "class".toList "a".toList]⟩]

/-- The repetition keeps the first and the last rule apart once; the second merge finds them alike. -/
theorem repeatedRules_settled :
    (∀ rule ∈ repeatedRules, ∀ other ∈ repeatedRules, rule.AreTold other) ∧
      merge (merge (merge repeatedRules)) = merge (merge repeatedRules) ∧
      merge (merge repeatedRules) =
        [⟨.window, [.flag "float".toList "on".toList, .flag "pin".toList "on".toList,
            .selector "class".toList "a".toList]⟩,
          ⟨.layer, [.flag "blur".toList "on".toList, .selector "bar".toList "on".toList]⟩] := by
  have htold : ∀ rule ∈ repeatedRules, ∀ other ∈ repeatedRules, rule.AreTold other := by decide +kernel
  exact ⟨htold, ((merged_again repeatedRules).2.2 htold).2, by decide +kernel⟩

/-- Two lines that ask for one class, the first one twice: their rules are merged into two rules with the same signature,
and these into one. -/
theorem repeated_condition_merged_late :
    ∃ rule other, Line.read? .block "windowrule = float, class:a, class:a".toList = some rule ∧
      Line.read? .block "windowrule = pin, class:a".toList = some other ∧
      (merge [rule, other]).map Rule.signature = [⟨"class:a".toList⟩, ⟨"class:a".toList⟩] ∧
      merge (merge [rule, other]) ≠ merge [rule, other] :=
  ⟨⟨.window, [.flag "float".toList "on".toList, .selector "class".toList "a".toList,
      .selector "class".toList "a".toList]⟩,
    ⟨.window, [.flag "pin".toList "on".toList, .selector "class".toList "a".toList]⟩, by decide +kernel⟩

end WindowRules

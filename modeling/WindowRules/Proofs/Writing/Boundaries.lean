import WindowRules.Proofs.Reading.Escaped
import WindowRules.Proofs.Writing.Inline

/-!
# Where the items of a line end

A written line is divided into fragments at its bare commas. The items of a rule are kept apart if these fragments,
trimmed, are the texts of the items (`Rule.KeepsBoundaries`).

* `Rule.keepsBoundaries_iff` — the items of a merged rule are kept apart exactly if every comma inside the text of an
  item has its backslash and no such text but the last ends with one. Proof: fragments are told by their backslashes, and
  texts with commas between them are determined by what is left of them when they are trimmed.
* `boundaries_kept_iff` — what is read for lines has escaped values, so only keys can have bare commas, and these come
  from blocks.
-/

namespace WindowRules

open Text

/-- The line of the rule is divided where its items end. -/
def Rule.KeepsBoundaries (rule : Rule) : Prop :=
  (Line.parts? rule.inlineText).map (fun parts => parts.2.map trim) =
    some ((Item.byRole rule.items).map fun item => trim (item.inlineFragment rule.subject))

instance (rule : Rule) : Decidable rule.KeepsBoundaries :=
  inferInstanceAs (Decidable ((Line.parts? rule.inlineText).map (fun parts => parts.2.map trim) =
    some ((Item.byRole rule.items).map fun item => trim (item.inlineFragment rule.subject))))

/-! ## Texts that are joined with commas -/

/-- A text before a comma is determined by what is left of it when it is trimmed. -/
theorem append_comma_inj_of_trim {s t rest following : Text} (htrim : trim s = trim t)
    (h : s ++ ',' :: rest = t ++ ',' :: following) : s = t := by
  have hcount := congrArg (List.count ',') htrim
  rw [count_trim (by decide), count_trim (by decide)] at hcount
  -- a longer text would take in the comma behind the shorter one
  have hlonger : ∀ {s extra rest following : Text}, (s ++ extra).count ',' = s.count ',' →
      ',' :: rest = extra ++ ',' :: following → extra = [] := by
    intro s extra rest following hcount he
    cases extra with
    | nil => rfl
    | cons c extra =>
      obtain ⟨rfl, _⟩ := List.cons.inj he
      rw [List.count_append, List.count_cons_self] at hcount
      omega
  rcases List.append_eq_append_iff.mp h with ⟨extra, rfl, hrest⟩ | ⟨extra, rfl, hrest⟩
  · rw [hlonger hcount.symm hrest, List.append_nil]
  · rw [hlonger hcount hrest, List.append_nil]

/-- **Texts with commas between them are determined by what is left of them when they are trimmed.** -/
theorem intercalate_comma_inj_of_trim {parts others : List Text} (htrim : parts.map trim = others.map trim)
    (h : [','].intercalate parts = [','].intercalate others) : parts = others := by
  induction parts generalizing others with
  | nil => exact (List.map_eq_nil_iff.mp htrim.symm).symm
  | cons part parts ih =>
    cases others with
    | nil => cases htrim
    | cons other others =>
      obtain ⟨hpart, hparts⟩ := List.cons.inj htrim
      cases parts with
      | nil =>
        have hnone : others = [] := List.map_eq_nil_iff.mp hparts.symm
        rw [hnone, List.intercalate_singleton, List.intercalate_singleton] at h
        rw [h, hnone]
      | cons next parts =>
        cases others with
        | nil => cases hparts
        | cons following others =>
          simp only [List.intercalate_cons_cons, List.append_assoc, List.singleton_append] at h
          have hsame := append_comma_inj_of_trim hpart h
          rw [hsame] at h
          rw [hsame, ih hparts (List.cons.inj (List.append_cancel_left h)).2]

/-- Fragments are given back by the line up to the blanks around them exactly if they are given back as they are. -/
theorem map_trim_split_eq_iff {parts : List Text} :
    (Comma.split ([','].intercalate parts)).map trim = parts.map trim ↔ Comma.split ([','].intercalate parts) = parts :=
  ⟨fun h => intercalate_comma_inj_of_trim h (Comma.intercalate_split _), fun h => by rw [h]⟩

/-! ## Items that are kept apart -/

/-- **The items of a merged rule are kept apart** exactly if every comma in the text of an item has its backslash and no
text but the last one ends with a backslash. -/
theorem Rule.keepsBoundaries_iff {rule : Rule} (hgrouped : Item.Grouped rule.items) (hne : rule.items ≠ []) :
    rule.KeepsBoundaries ↔ (∀ item ∈ rule.items, Comma.Escaped (item.inlineFragment rule.subject)) ∧
      ∀ item ∈ rule.items.dropLast, (item.inlineFragment rule.subject).getLast? ≠ some '\\' := by
  have hfragments : rule.fragments = rule.items.map (Item.inlineFragment rule.subject) := by
    rw [fragments, writtenItems_of_grouped hgrouped]
  have hfragments_ne : rule.fragments ≠ [] := by simpa [hfragments] using hne
  have htrim : (rule.items.map fun item => trim (item.inlineFragment rule.subject)) =
      (rule.fragments.map (' ' :: ·)).map trim := by
    rw [hfragments, List.map_map, List.map_map]
    exact List.map_congr_left fun item _ => (trim_cons_blank (by decide) _).symm
  have hescaped : (∀ part ∈ rule.fragments.map (' ' :: ·), Comma.Escaped part) ↔
      ∀ item ∈ rule.items, Comma.Escaped (item.inlineFragment rule.subject) := by
    simp only [hfragments, List.forall_mem_map]
    exact forall₂_congr fun item _ => Comma.escaped_cons_iff (by decide) fun h => absurd h (by decide)
  have hlast : (∀ part ∈ (rule.fragments.map (' ' :: ·)).dropLast, part.getLast? ≠ some '\\') ↔
      ∀ item ∈ rule.items.dropLast, (item.inlineFragment rule.subject).getLast? ≠ some '\\' := by
    simp only [hfragments, ← List.map_dropLast, List.forall_mem_map]
    refine forall₂_congr fun item _ => ?_
    cases item.inlineFragment rule.subject <;> simp
  rw [KeepsBoundaries, parts?_inlineText, Option.map_some, Option.some.injEq, hgrouped.ordered, htrim,
    intercalate_comma_space hfragments_ne, map_trim_split_eq_iff, Comma.split_eq_iff, hescaped, hlast]
  simp [hfragments_ne]

namespace Item

/-- With an escaped value the text of an item is escaped exactly if its key is. -/
theorem escaped_inlineFragment_iff {item : Item} (hvalue : Comma.Escaped item.value) (subject : Subject) :
    Comma.Escaped (item.inlineFragment subject) ↔ Comma.Escaped item.key := by
  have hmark : ∀ s : Text, Comma.Escaped (Fragment.conditionMark ++ s) ↔ Comma.Escaped s := fun s => by
    rw [Comma.escaped_append_iff (by decide)]
    exact and_iff_right (by decide)
  have hspace : ∀ s t : Text, Comma.Escaped (s ++ ' ' :: t) ↔ Comma.Escaped s ∧ Comma.Escaped t := fun s t =>
    Comma.escaped_append_cons_iff (by decide) (by decide)
  have hnamespace : Comma.Escaped namespaceKey := by decide
  obtain ⟨key, value, role, isMalformed⟩ := item
  cases role with
  | flag => simp [inlineFragment, writtenKey, writtenValue?, hspace, hvalue]
  | selector => cases subject <;> simp [inlineFragment, writtenKey, writtenValue?, hspace, hmark, hvalue, hnamespace]
  | predicate =>
    simp only [inlineFragment, writtenKey, writtenValue?]
    split
    · rfl
    · exact hmark key

end Item

/-- **When the items of a line are kept apart.** What is read for lines has escaped values. So among merged rules in
which no item but the last is written with a backslash at its end, exactly those with escaped keys keep their items apart
on the line; a key that is not escaped is that of an item in a block. -/
theorem boundaries_kept_iff {options : Options} (hinline : options.dialect = .inline) {text : Text} {merged : Rule}
    (hmerged : merged ∈ merge (Document.read options text).rules) (hne : merged.items ≠ [])
    (hlast : ∀ item ∈ merged.items.dropLast, (item.inlineFragment merged.subject).getLast? ≠ some '\\') :
    (merged.KeepsBoundaries ↔ ∀ item ∈ merged.items, Comma.Escaped item.key) ∧
      (∀ item ∈ merged.items, Comma.Escaped item.value) ∧
      ∀ item ∈ merged.items, Comma.Escaped item.key ∨
        ∃ node ∈ (Document.read options text).nodes, node.content.isBlock = true ∧
          ∃ rule, node.content.rule? = some rule ∧ item ∈ rule.items := by
  have hsource : ∀ item ∈ merged.items, ∃ node ∈ (Document.read options text).nodes,
      ∃ rule, node.content.rule? = some rule ∧ item ∈ rule.items := by
    intro item hi
    obtain ⟨_, _, hgroup⟩ := Rule.exists_of_mem_merge hmerged
    obtain ⟨rule, hr, _, hir⟩ := Rule.exists_of_mem_group hgroup hi
    obtain ⟨node, hnode, hrule⟩ := List.mem_filterMap.mp hr
    exact ⟨node, hnode, rule, hrule, (List.mem_filter.mp hir).1⟩
  have hvalue : ∀ item ∈ merged.items, Comma.Escaped item.value := by
    intro item hi
    obtain ⟨node, hnode, rule, hrule, hir⟩ := hsource item hi
    exact (Document.escaped_of_mem_nodes hinline hnode hrule hir).1
  refine ⟨?_, hvalue, fun item hi => ?_⟩
  · rw [Rule.keepsBoundaries_iff (grouped_of_mem_merge hmerged) hne, and_iff_left hlast]
    exact forall₂_congr fun item hi => Item.escaped_inlineFragment_iff (hvalue item hi) merged.subject
  · obtain ⟨node, hnode, rule, hrule, hir⟩ := hsource item hi
    cases hblock : node.content.isBlock with
    | true => exact Or.inr ⟨node, hnode, hblock, rule, hrule, hir⟩
    | false => exact Or.inl ((Document.escaped_of_mem_nodes hinline hnode hrule hir).2 hblock)

/-- A line with commas in its values, and a block with the same condition. -/
def sharedCommas : Text :=
  "windowrule = move onscreen 10 10, class:a\\,b\nwindowrule \x7b\n  note = x, y\n  match:class = a,b\n\x7d".toList

/-- The rule that the line and the block are merged into. -/
def sharedCommasRule : Rule :=
  ⟨.window,
    [.flag "move".toList "(min(max(10\\,0)\\,monitor_w-window_w)) (min(max(10\\,0)\\,monitor_h-window_h))".toList,
      .flag "note".toList "x\\, y".toList, .selector "class".toList "a\\,b".toList]⟩

/-- All its commas are in values, so they have their backslashes, and three items are read from its line. -/
theorem sharedCommasRule_keepsBoundaries :
    sharedCommasRule ∈ merge (Document.read { dialect := .inline } sharedCommas).rules ∧
      (∀ item ∈ sharedCommasRule.items.dropLast,
        (item.inlineFragment sharedCommasRule.subject).getLast? ≠ some '\\') ∧
      sharedCommasRule.KeepsBoundaries := by
  have hmerged : sharedCommasRule ∈ merge (Document.read { dialect := .inline } sharedCommas).rules := by
    decide +kernel
  have hlast : ∀ item ∈ sharedCommasRule.items.dropLast,
      (item.inlineFragment sharedCommasRule.subject).getLast? ≠ some '\\' := by decide +kernel
  exact ⟨hmerged, hlast, (boundaries_kept_iff rfl hmerged (by decide) hlast).1.mpr (by decide +kernel)⟩

/-- Every merged rule with items keeps them apart on its line. -/
def Document.KeepsBoundaries (options : Options) : Prop :=
  ∀ text, ∀ merged ∈ merge (read options text).rules, merged.items ≠ [] → merged.KeepsBoundaries

/-- A key from a block is written with its bare comma, which divides the item in two; and a backslash at the end of a
value is taken for that of the comma behind it, which divides two items no more. -/
theorem not_keepsBoundaries :
    ¬Document.KeepsBoundaries { dialect := .inline } ∧
      (merge (Document.read { dialect := .inline } "windowrule \x7b\n  match:a,b = c\n\x7d".toList).rules).map
          (fun merged => decide merged.KeepsBoundaries) = [false] ∧
      (merge (Document.read { dialect := .inline } "windowrule = class:a\\ , $v".toList).rules).map
          (fun merged => decide merged.KeepsBoundaries) = [false] := by
  refine ⟨fun h => ?_, by decide +kernel, by decide +kernel⟩
  have hkept := h "windowrule \x7b\n  match:a,b = c\n\x7d".toList ⟨.window, [.selector "a,b".toList "c".toList]⟩
    (by decide +kernel) (by decide)
  exact absurd hkept (by decide +kernel)

end WindowRules

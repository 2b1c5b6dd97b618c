import WindowRules.Proofs.Geometry.Expressions
import WindowRules.Proofs.Reading.Fragments
import WindowRules.Proofs.Reading.Sound

/-!
# Items with a key and a value

An item that was read is complete if it has a key and, unless it is a predicate, more than blanks as its value
(`Item.Complete`). A fragment of a window rule is hollow if it is a selector without a key or without a value, or a size
of which nothing but marks is given (`Fragment.Hollow`). The items of a part of a text are complete exactly if none of
its fragments is hollow (`items_complete_iff`): a layer rule and a block have a complete item or a malformed one in each
place.

* `Fragment.complete_flag_iff` — a flag without a value has the default of its key; one with blanks alone has nothing.
* `Fragment.complete_read_iff` — a fragment gives incomplete items exactly if it is hollow. Proof: by the four ways to
  read it.
-/

namespace WindowRules

open Text

/-- The item has a key, and more than blanks as its value unless it is a predicate, which has none. -/
structure Item.Complete (item : Item) : Prop where
  key : item.key ≠ []
  value : if item.role = .predicate then item.value = [] else ∃ c ∈ item.value, isBlank c = false

/-- The fragment is a selector without a key, one without a value, or a size with several arguments that are all marks of
a bound. -/
inductive Fragment.Hollow : Text → Prop
  | noKey (value : Text) : Hollow (':' :: value)
  | noValue {key newer : Text} (isKey : IsSelectorKey key) (single : Keys.selectorKey key = .single newer) :
      Hollow (key ++ [':'])
  | noNumber {s word : Text} {arguments : List Text} (words : words s = word :: arguments)
      (size : Keys.flagKey word = "size".toList) (several : 2 ≤ arguments.length)
      (marks : ∀ argument ∈ arguments, argument = ['>'] ∨ argument = ['<']) : Hollow s

instance (item : Item) : Decidable item.Complete :=
  decidable_of_iff (item.key ≠ [] ∧
      if item.role = .predicate then item.value = [] else ∃ c ∈ item.value, isBlank c = false)
    ⟨fun ⟨key, value⟩ => ⟨key, value⟩, fun h => ⟨h.key, h.value⟩⟩

namespace Keys

theorem exists_not_isBlank_defaultValue (key : Text) : ∃ c ∈ defaultValue key, isBlank c = false := by
  rcases defaultValue_cases key with h | h <;> rw [h] <;> decide

theorem ne_nil_of_mem_keys {key : Text} (h : key ≠ []) : ∀ k ∈ (selectorKey key).keys, k ≠ [] := by
  intro k hk
  rcases isIdentifier_or_eq_of_mem_keys hk with hnewer | rfl
  · exact hnewer.ne_nil
  · exact h

end Keys

/-- A trimmed text that is not empty has more than blanks. -/
theorem Text.exists_not_isBlank_of_trim {s : Text} (hne : s ≠ []) (htrim : trim s = s) : ∃ c ∈ s, isBlank c = false := by
  cases s with
  | nil => exact absurd rfl hne
  | cons c s => exact ⟨c, List.mem_cons_self, (trim_eq_self_iff.mp htrim).1 c rfl⟩

namespace Item

theorem complete_predicate {key : Text} (h : key ≠ []) : (predicate key).Complete := ⟨h, rfl⟩

theorem complete_selector_iff {dialect : Dialect} {key value : Text} :
    (selector key (dialect.encode value)).Complete ↔ key ≠ [] ∧ ∃ c ∈ value, isBlank c = false :=
  ⟨fun h => ⟨h.key, dialect.exists_not_isBlank_encode_iff.mp h.value⟩,
    fun h => ⟨h.1, dialect.exists_not_isBlank_encode_iff.mpr h.2⟩⟩

end Item

namespace Fragment

/-- **A flag is complete** if it has a key and a value with more than blanks, or no value at all. -/
theorem complete_flag_iff {dialect : Dialect} {key value : Text} :
    (flag dialect key value).Complete ↔ key ≠ [] ∧ (value = [] ∨ ∃ c ∈ value, isBlank c = false) := by
  unfold flag
  split
  · next hnone => exact ⟨fun h => ⟨h.key, Or.inl hnone⟩, fun h => ⟨h.1, Keys.exists_not_isBlank_defaultValue key⟩⟩
  · next hsome =>
    rw [or_iff_right hsome]
    exact ⟨fun h => ⟨h.key, dialect.exists_not_isBlank_encode_iff.mp h.value⟩,
      fun h => ⟨h.1, dialect.exists_not_isBlank_encode_iff.mpr h.2⟩⟩

/-- Words are a value with more than blanks, or none. -/
theorem complete_flag_spaced {dialect : Dialect} {key : Text} {parts : List Text} (hkey : key ≠ [])
    (h : ∀ part ∈ parts, ∃ c ∈ part, isBlank c = false) : (flag dialect key (spaced parts)).Complete := by
  refine complete_flag_iff.mpr ⟨hkey, ?_⟩
  cases parts with
  | nil => exact Or.inl rfl
  | cons part parts => exact Or.inr (exists_not_isBlank_spaced_iff.mpr ⟨part, List.mem_cons_self, h part List.mem_cons_self⟩)

theorem exists_not_isBlank_of_isName {s : Text} (h : s.IsName) : ∃ c ∈ s, isBlank c = false :=
  exists_not_isBlank_of_trim h.ne_nil (trim_of_not_isBlank h.blank)

/-- A flag whose arguments are taken as they stand is complete. -/
theorem complete_plainFlag {s : Text} (hne : s ≠ []) (htrim : trim s = s) (dialect : Dialect) :
    (plainFlag dialect s).Complete := by
  obtain ⟨word, rest, -, hword, hblank, -, hwords⟩ := exists_words_eq_cons hne (trim_eq_self_iff.mp htrim).1
  rw [plainFlag, hwords, List.headD_cons, List.tail_cons]
  refine complete_flag_spaced (Keys.isName_flagKey ⟨hword, hblank⟩).ne_nil fun part hp => ?_
  exact exists_not_isBlank_of_isName (isName_of_mem_words hp)

/-- The flag of a size lacks its value exactly if its arguments are several and all of them marks. -/
theorem complete_size_iff {dialect : Dialect} {key : Text} (hkey : key ≠ []) {arguments : List Text}
    (h : ∀ argument ∈ arguments, argument.IsName) :
    (flag dialect key (spaced (Size.read arguments).values)).Complete ↔
      ¬(2 ≤ arguments.length ∧ ∀ argument ∈ arguments, argument = ['>'] ∨ argument = ['<']) := by
  have hlength := Size.length_values_read arguments
  rw [complete_flag_iff, and_iff_right hkey, exists_not_isBlank_spaced_iff, spaced_eq_nil_iff]
  by_cases hmarks : ∀ argument ∈ arguments, argument = ['>'] ∨ argument = ['<']
  · have hnil : ∀ value ∈ (Size.read arguments).values, value = [] := by
      rw [Size.values_read]
      intro value hv
      obtain ⟨axis, argument, ha, rfl⟩ := Axis.exists_of_mem_distribute hv
      exact (Size.value_eq_nil_iff (h argument ha)).mpr (hmarks argument ha)
    have hnone : ¬∃ value ∈ (Size.read arguments).values, ∃ c ∈ value, isBlank c = false := by
      rintro ⟨value, hv, c, hc, -⟩
      rw [hnil value hv] at hc
      cases hc
    rw [or_iff_left hnone, and_iff_left hmarks]
    rcases hvalues : (Size.read arguments).values with _ | ⟨first, _ | ⟨second, others⟩⟩
    · simp [← hlength, hvalues]
    · simp [← hlength, hvalues, hnil first (by simp [hvalues])]
    · simp [← hlength, hvalues]
  · refine iff_of_true (Or.inr ?_) fun hall => hmarks hall.2
    obtain ⟨argument, hargument⟩ := not_forall.mp hmarks
    obtain ⟨ha, hmark⟩ := Classical.not_imp.mp hargument
    obtain ⟨axis, hvalue⟩ : ∃ axis, Size.value axis argument ∈ (Size.read arguments).values := by
      rw [Size.values_read]
      exact Axis.exists_mem_distribute ha
    have hname := h argument ha
    refine ⟨_, hvalue, exists_not_isBlank_of_isName ⟨?_, ?_⟩⟩
    · exact fun he => hmark ((Size.value_eq_nil_iff hname).mp he)
    · exact Size.not_isBlank_value axis hname.blank

/-- **The flag of a window is complete** unless it is a size of which several marks and no number are given. -/
theorem complete_windowFlag_iff {s word : Text} {arguments : List Text} (h : words s = word :: arguments)
    {dialect : Dialect} : (windowFlag dialect s).Complete ↔ ¬(Keys.flagKey word = "size".toList ∧
      2 ≤ arguments.length ∧ ∀ argument ∈ arguments, argument = ['>'] ∨ argument = ['<']) := by
  have hnames : ∀ part ∈ words s, part.IsName := fun part => isName_of_mem_words
  rw [h] at hnames
  obtain ⟨hword, hnames⟩ := List.forall_mem_cons.mp hnames
  have hkey := (Keys.isName_flagKey hword).ne_nil
  by_cases hsize : Keys.flagKey word = "size".toList
  · have hbound : (Size.read arguments).bound.key ≠ [] := by
      cases (Size.read arguments).bound <;> decide
    rw [windowFlag_of_size h dialect hsize, complete_size_iff hbound hnames, and_iff_right hsize]
  · refine iff_of_true ?_ fun hall => hsize hall.1
    by_cases hmove : Keys.flagKey word = "move".toList
    · rw [windowFlag_of_move h dialect hmove]
      refine complete_flag_spaced (by decide) fun part hp => exists_not_isBlank_of_isName ?_
      exact Position.isName_of_mem_read dialect (fun s hs => (hnames s hs).blank) part hp
    · rw [windowFlag_of_plain h dialect hsize hmove]
      exact complete_flag_spaced hkey fun part hp => exists_not_isBlank_of_isName (hnames part hp)

/-- What ends a trimmed text has more than blanks. -/
theorem exists_not_isBlank_of_append {s value : Text} (hne : value ≠ [])
    (h : ∀ c ∈ (s ++ value).getLast?, isBlank c = false) : ∃ c ∈ trim value, isBlank c = false := by
  rw [List.getLast?_append_of_ne_nil _ hne] at h
  have hlast := h _ (List.getLast?_eq_some_getLast hne)
  exact ⟨_, mem_trim (List.getLast_mem hne) hlast, hlast⟩

/-- A marked condition that is no malformed item is complete. -/
theorem complete_condition {rest : Text} (htrim : trim (conditionMark ++ rest) = conditionMark ++ rest)
    {dialect : Dialect} (hform : (condition dialect (conditionMark ++ rest) rest).isMalformed = false) :
    (condition dialect (conditionMark ++ rest) rest).Complete := by
  have hlast := (trim_eq_self_iff.mp htrim).2
  unfold condition at hform ⊢
  cases hcut : cutAt? isBlank rest with
  | none =>
    simp only [hcut] at hform ⊢
    split at hform
    · cases hform
    · next hne =>
      rw [if_neg hne]
      exact Item.complete_predicate hne
  | some sides =>
    obtain ⟨key, value⟩ := sides
    simp only [hcut] at hform ⊢
    split at hform
    · cases hform
    · next hkey =>
      rw [if_neg hkey]
      obtain ⟨-, c, hc, rfl⟩ := cutAt?_eq_some_iff.mp hcut
      rw [← List.append_assoc] at hlast
      refine Item.complete_selector_iff.mpr ⟨hkey, ?_⟩
      cases value with
      | nil =>
        -- a trimmed text would end with the blank
        have hblank := hlast c (by simp)
        rw [hc] at hblank
        cases hblank
      | cons d value =>
        rw [← List.singleton_append, ← List.append_assoc] at hlast
        exact exists_not_isBlank_of_append (List.cons_ne_nil d value) hlast

/-- A selector is complete exactly if it has a key and a value, which a pair of keys need not have. -/
theorem complete_selector {key value : Text} (hkey : key ≠ []) {dialect : Dialect}
    (hvalue : ∀ newer, Keys.selectorKey key = .single newer → ∃ c ∈ value, isBlank c = false) :
    ∀ item ∈ (selector dialect key value).toList, item.Complete := by
  have hkeys := Keys.ne_nil_of_mem_keys hkey
  have hhalf : ∀ n : Nat, ∃ c ∈ (words value)[n]?.getD Keys.missingHalf, isBlank c = false := by
    intro n
    cases hn : (words value)[n]? with
    | none => decide
    | some word => exact exists_not_isBlank_of_isName (isName_of_mem_words (List.mem_of_getElem? hn))
  unfold selector
  cases hs : Keys.selectorKey key with
  | single newer =>
    rw [hs] at hkeys
    intro item hi
    rw [List.mem_singleton.mp hi]
    exact Item.complete_selector_iff.mpr ⟨hkeys newer List.mem_cons_self, hvalue newer hs⟩
  | pair first second =>
    rw [hs] at hkeys
    intro item hi
    rcases List.mem_cons.mp hi with rfl | hi
    · exact ⟨hkeys first (by simp [Keys.SelectorKey.keys]), hhalf 0⟩
    · rw [List.mem_singleton.mp hi]
      exact ⟨hkeys second (by simp [Keys.SelectorKey.keys]), hhalf 1⟩

theorem Hollow.not_complete {s : Text} (h : Hollow s) (htrim : trim s = s) (dialect : Dialect) :
    ¬∀ item ∈ (read dialect s).toList, item.isMalformed = false → item.Complete := by
  intro hall
  cases h with
  | noKey value =>
    have hkey : IsSelectorKey [] := ⟨by simp, by simp, by simp, by decide⟩
    have hsingle : Keys.selectorKey [] = .single [] := by decide
    have hread := hkey.read htrim dialect
    rw [List.nil_append, selector, hsingle] at hread
    rw [hread] at hall
    exact (hall _ List.mem_cons_self rfl).key rfl
  | @noValue key newer isKey single =>
    have hread := isKey.read htrim dialect
    rw [selector, single] at hread
    rw [hread] at hall
    obtain ⟨c, hc, -⟩ := (Item.complete_selector_iff.mp (hall _ List.mem_cons_self rfl)).2
    cases hc
  | @noNumber s word arguments hwords size several marks =>
    rw [read_of_flagKey hwords (Or.inl size)] at hall
    have hcomplete := hall _ List.mem_cons_self (wellFormed_windowFlag dialect s)
    exact complete_windowFlag_iff hwords |>.mp hcomplete ⟨size, several, marks⟩

/-- **The items of a fragment are complete exactly if it is not hollow.** -/
theorem complete_read_iff {s : Text} (hne : s ≠ []) (htrim : trim s = s) (dialect : Dialect) :
    (∀ item ∈ (read dialect s).toList, item.isMalformed = false → item.Complete) ↔ ¬Hollow s := by
  refine ⟨fun hall h => h.not_complete htrim dialect hall, fun h => ?_⟩
  have hlast := (trim_eq_self_iff.mp htrim).2
  have hsingle : ∀ {item : Item}, (item.isMalformed = false → item.Complete) →
      ∀ other ∈ (Reading.single item).toList, other.isMalformed = false → other.Complete := by
    intro item hi other ho
    rwa [List.mem_singleton.mp ho]
  cases shape_of_trim hne htrim with
  | predicate dollar =>
    rw [read_of_dollar htrim dollar]
    exact hsingle fun _ => Item.complete_predicate hne
  | condition rest =>
    rw [read_of_mark htrim]
    exact hsingle (complete_condition htrim)
  | @selector key isKey value =>
    rw [isKey.read htrim]
    have hkey : key ≠ [] := by
      rintro rfl
      exact h (.noKey value)
    refine fun item hi _ => complete_selector hkey (fun newer hnewer => ?_) item hi
    cases value with
    | nil => exact absurd (.noValue isKey hnewer) h
    | cons c value =>
      rw [← List.singleton_append, ← List.append_assoc] at hlast
      exact exists_not_isBlank_of_append (List.cons_ne_nil c value) hlast
  | @flag s word arguments hwords colon dollar =>
    rw [read_of_words hwords colon dollar]
    refine hsingle fun _ => (complete_windowFlag_iff hwords).mpr ?_
    rintro ⟨size, several, marks⟩
    exact h (.noNumber hwords size several marks)

end Fragment

/-! ## Layer rules and blocks -/

namespace Line

theorem complete_namespaceSelector {name : Text} (h : name ≠ []) (dialect : Dialect) :
    (namespaceSelector dialect name).Complete :=
  ⟨fun he => h (dialect.encode_eq_nil_iff.mp he), show ∃ c ∈ Keys.enabled, isBlank c = false by decide⟩

theorem complete_newerLayerItem {fragment : Text} (htrim : trim fragment = fragment) {dialect : Dialect}
    (hform : (newerLayerItem dialect fragment).isMalformed = false) : (newerLayerItem dialect fragment).Complete := by
  unfold newerLayerItem at hform ⊢
  split at hform
  · cases hform
  · next hne =>
    rw [if_neg hne]
    cases hstrip : stripPrefix? Fragment.conditionMark fragment with
    | none => exact Fragment.complete_plainFlag hne htrim dialect
    | some rest =>
      cases hcut : cutAt? isBlank rest with
      | none => simp [hstrip, hcut, Item.malformed] at hform
      | some sides =>
        simp only [hstrip, hcut] at hform ⊢
        split at hform
        · cases hform
        · next hname =>
          rw [if_neg hname]
          exact complete_namespaceSelector hname dialect

/-- The items of a layer rule are malformed or complete. -/
theorem complete_of_mem_items {fragments : List Text} (htrim : ∀ s ∈ fragments, trim s = s) {dialect : Dialect}
    {item : Item} (hi : item ∈ items dialect .layer fragments) (hform : item.isMalformed = false) : item.Complete := by
  simp only [items] at hi
  split at hi
  · obtain ⟨fragment, hf, rfl⟩ := List.mem_map.mp hi
    exact complete_newerLayerItem (htrim fragment hf) hform
  · cases fragments with
    | nil => cases hi
    | cons effect names =>
      rcases List.mem_cons.mp hi with rfl | hi
      · split at hform
        · cases hform
        · next hne =>
          rw [if_neg hne]
          exact Fragment.complete_plainFlag hne (htrim effect List.mem_cons_self) dialect
      · obtain ⟨name, -, rfl⟩ := List.mem_map.mp hi
        split at hform
        · cases hform
        · next hne =>
          rw [if_neg hne]
          exact complete_namespaceSelector hne dialect

end Line

namespace Entry

theorem key_ne_nil_of_read {line : Text} {entry : Entry} (h : Entry.read line = .ok entry) : entry.key ≠ [] := by
  have hkey := key_of_read h
  simp only [Entry.read] at h
  split at h
  · cases h
  · next hne => rwa [hkey]

/-- The item of an entry is malformed or complete. -/
theorem complete_of_item? {dialect : Dialect} {subject : Subject} {line : Text} {entry : Entry} {item : Item}
    (hread : Entry.read line = .ok entry) (hi : entry.item? dialect subject line = some item)
    (hform : item.isMalformed = false) : item.Complete := by
  have htrim : ∀ {value}, entry.value? = some value → trim value = value := by
    intro value hvalue
    obtain ⟨_, rest, _, _, rfl⟩ := eq_of_read hread hvalue
    exact trim_trim rest
  have hkey := key_ne_nil_of_read hread
  obtain ⟨key, value?⟩ := entry
  unfold Entry.item? at hi
  split at hi
  · cases hi
  · cases hi
    cases hstrip : stripPrefix? Fragment.conditionMark key with
    | none =>
      refine Fragment.complete_flag_iff.mpr ⟨Keys.flagKey_ne_nil hkey, ?_⟩
      by_cases hvalue : value?.getD [] = []
      · exact Or.inl hvalue
      · refine Or.inr (exists_not_isBlank_of_trim hvalue ?_)
        cases value? with
        | none => rfl
        | some value => exact htrim rfl
    | some condition =>
      simp only [hstrip] at hform ⊢
      cases condition with
      | nil => cases hform
      | cons c condition =>
        have hcondition : c :: condition ≠ [] := List.cons_ne_nil c condition
        rcases value? with _ | _ | ⟨first, value⟩
        · exact Item.complete_predicate hcondition
        · cases hform
        · have hvalue : first :: value ≠ [] := List.cons_ne_nil first value
          cases subject with
          | window => exact Item.complete_selector_iff.mpr ⟨hcondition, exists_not_isBlank_of_trim hvalue (htrim rfl)⟩
          | layer => exact Line.complete_namespaceSelector hvalue dialect

end Entry

/-- The items of a block are malformed or complete. -/
theorem Block.complete_of_item? {dialect : Dialect} {subject : Subject} {line : Text} {item : Item}
    (hi : item? dialect subject line = some item) (hform : item.isMalformed = false) : item.Complete := by
  simp only [item?, readLine?] at hi
  split at hi
  · cases hi
  · split at hi
    · cases hi
      cases hform
    · next entry hread =>
      rw [Option.map_map] at hi
      obtain ⟨other, hother, rfl⟩ := Option.map_eq_some_iff.mp hi
      exact Entry.complete_of_item? hread hother hform

/-! ## Texts -/

/-- A window rule on a line has complete items exactly if none of its fragments is hollow. -/
theorem Line.complete_items_iff {dialect : Dialect} {line : Text} {items : List Item}
    (h : Line.read? dialect line = some ⟨.window, items⟩) :
    (∀ item ∈ items, item.isMalformed = false → item.Complete) ↔
      ∀ fragment ∈ (Content.lineRule ⟨.window, items⟩ line).windowFragments, ¬Fragment.Hollow fragment := by
  have hitems := Content.items_of_windowFragments h
  generalize hfragments : (Content.lineRule ⟨.window, items⟩ line).windowFragments = fragments at hitems ⊢
  rw [hitems, List.forall_mem_flatMap]
  refine forall₂_congr fun fragment hf => ?_
  rw [← hfragments] at hf
  exact Fragment.complete_read_iff (Content.ne_nil_of_mem_windowFragments hf) (Content.trim_of_mem_windowFragments hf)
    dialect

/-- **Which items lack a key or a value.** The well-formed items of a part of a text all have a key, and more than blanks
as value unless they are predicates, exactly if no fragment of the part is hollow. So they do in every layer rule and in
every block. A fragment of a window rule on a line is hollow if it begins with a colon, if it ends with the colon behind
the key of a selector for one value, or if it is a size of several marks and no number. -/
theorem items_complete_iff {options : Options} {text : Text} {node : Node}
    (hnode : node ∈ (Document.read options text).nodes) :
    (∀ rule ∈ node.content.rule?, ∀ item ∈ rule.items, item.isMalformed = false → item.Complete) ↔
      ∀ fragment ∈ node.content.windowFragments, ¬Fragment.Hollow fragment := by
  rcases Document.mem_readNodes hnode with ⟨index, line, -, rfl⟩ | ⟨index, line, subject, -, rfl⟩ |
    ⟨subject, index, opening, body, closing, -, rfl⟩
  · rw [Node.content_ofLine, Content.ofLine]
    cases hread : Line.read? options.dialect line with
    | none => simp [Content.rule?, Content.windowFragments]
    | some rule =>
      have hrule : (∀ other ∈ (Content.lineRule rule line).rule?, ∀ item ∈ other.items,
          item.isMalformed = false → item.Complete) ↔ ∀ item ∈ rule.items, item.isMalformed = false → item.Complete := by
        simp [Content.rule?]
      obtain ⟨subject, items⟩ := rule
      simp only [hrule]
      cases subject with
      | window => exact Line.complete_items_iff hread
      | layer =>
        refine iff_of_true (fun item hi => ?_) (by simp [Content.windowFragments])
        obtain ⟨parts, -, hitems⟩ := Line.items_of_read? hread
        simp only [Rule.mk.injEq, true_and] at hitems
        rw [hitems] at hi
        refine Line.complete_of_mem_items (List.forall_mem_map.mpr fun s _ => trim_trim s) hi
  · simp [Node.ofUnterminated, Content.rule?, Content.windowFragments]
  · rw [Node.content_ofBlock]
    refine iff_of_true (fun rule hrule item hi => ?_) (by simp [Content.windowFragments])
    cases hrule
    obtain ⟨line, -, hline⟩ := List.mem_filterMap.mp hi
    exact Block.complete_of_item? hline

/-- A mark that stands before its number leaves a blank in front of it, and the value has more than that. -/
theorem markedSizeText_items_complete :
    ∃ node ∈ (Document.read {} "windowrule = size > 100, class:a".toList).nodes,
      node.content.windowFragments = ["size > 100".toList, "class:a".toList] ∧
        ∀ fragment ∈ node.content.windowFragments, ¬Fragment.Hollow fragment := by
  have hnode : Node.ofLine .block 0 "windowrule = size > 100, class:a".toList ∈
      (Document.read {} "windowrule = size > 100, class:a".toList).nodes := by
    rw [Document.nodes_of_line (by decide) (by decide)]
    exact List.mem_singleton_self _
  obtain ⟨hfragments, hcomplete⟩ :
      (Node.ofLine .block 0 "windowrule = size > 100, class:a".toList).content.windowFragments =
        ["size > 100".toList, "class:a".toList] ∧
      ∀ rule ∈ (Node.ofLine .block 0 "windowrule = size > 100, class:a".toList).content.rule?,
        ∀ item ∈ rule.items, item.isMalformed = false → item.Complete := by decide +kernel
  exact ⟨_, hnode, hfragments, (items_complete_iff hnode).mp hcomplete⟩

/-- A selector without a value, one without a key, and a size of two marks. -/
theorem not_items_complete :
    (¬∀ (options : Options) (text : Text), ∀ node ∈ (Document.read options text).nodes, ∀ rule ∈ node.content.rule?,
        ∀ item ∈ rule.items, item.isMalformed = false → item.Complete) ∧
      Line.read? .block "windowrule = float, class:".toList =
        some ⟨.window, [.flag "float".toList "on".toList, .selector "class".toList []]⟩ ∧
      Line.read? .block "windowrule = :a".toList = some ⟨.window, [.selector [] "a".toList]⟩ ∧
      Line.read? .block "windowrule = size > >, class:a".toList =
        some ⟨.window, [.flag "size_min".toList " ".toList, .selector "class".toList "a".toList]⟩ := by
  obtain ⟨hclass, hread, hsize⟩ : Line.read? .block "windowrule = float, class:".toList =
        some ⟨.window, [.flag "float".toList "on".toList, .selector "class".toList []]⟩ ∧
      Line.read? .block "windowrule = :a".toList = some ⟨.window, [.selector [] "a".toList]⟩ ∧
      Line.read? .block "windowrule = size > >, class:a".toList =
        some ⟨.window, [.flag "size_min".toList " ".toList, .selector "class".toList "a".toList]⟩ := by decide +kernel
  refine ⟨fun hall => ?_, hclass, hread, hsize⟩
  have hnodes : (Document.read {} "windowrule = :a".toList).nodes = [.ofLine .block 0 "windowrule = :a".toList] :=
    Document.nodes_of_line (by decide) (by decide)
  have hnode := hall {} "windowrule = :a".toList _ (by rw [hnodes]; exact List.mem_singleton_self _)
  rw [Node.content_ofLine, Content.ofLine, hread] at hnode
  exact (hnode _ rfl _ List.mem_cons_self rfl).key rfl

end WindowRules

import WindowRules.Proofs.Reading.Problems
import WindowRules.Proofs.Text.Words

/-!
# Texts without problems

A text has no problems exactly if what it was read as is sound: no kept line opens a block, and no rule has a malformed
item (`Document.problems_eq_nil_iff`). Which lines give malformed items can be told from the lines themselves.

* `Block.wellFormed_item?_iff` — a line of a block is silent or an entry, and a marked entry has a condition and, behind
  an equals sign, a value.
* `Line.wellFormed_items_iff` — each fragment of a line fits (`Fragment.Fits`). Proof: reader by reader; only fragments
  that are empty or carry the mark of a condition can be malformed.
-/

namespace WindowRules

open Text

/-! ## Sound contents -/

/-- The lines were read without a problem. -/
def Content.IsSound (options : Options) : Content → Prop
  | .verbatim line => Document.opening? options line = none
  | .lineRule rule _ => rule.malformed = []
  | .blockRule rule .. => rule.malformed = []

namespace Document

/-- All lines were read without a problem. -/
def Sound (options : Options) (contents : List Content) : Prop := ∀ content ∈ contents, content.IsSound options

theorem sound_append_iff {options : Options} {contents others : List Content} :
    Sound options (contents ++ others) ↔ Sound options contents ∧ Sound options others := List.forall_mem_append

theorem Sound.closed {options : Options} {contents : List Content} (h : Sound options contents) :
    Closed options contents := fun line hl => h (.verbatim line) hl

/-- A node has no problems exactly if its lines were read without one. -/
theorem problems_node_eq_nil_iff {options : Options} {start : Nat} {lines : List Text} {node : Node}
    (h : node ∈ readNodes options start lines) : node.problems = [] ↔ node.content.IsSound options := by
  rw [problems_eq_report h]
  cases hcontent : node.content with
  | verbatim line => by_cases hopen : opening? options line = none <;> simp [Content.report, Content.IsSound, hopen]
  | lineRule rule line => simp [Content.report, Content.IsSound]
  | blockRule rule opening body closing =>
    have hmalformed := malformed_eq_faults h hcontent (node.start + 2)
    simp [Content.report, Content.IsSound, hmalformed]

/-- **A text has no problems exactly if it was read as sound contents.** -/
theorem problems_eq_nil_iff {options : Options} {text : Text} :
    (read options text).problems = [] ↔ Sound options (contents options (textLines text)) := by
  rw [problems, List.flatMap_eq_nil_iff, Sound, contents, List.forall_mem_map]
  exact forall₂_congr fun node hnode => problems_node_eq_nil_iff hnode

/-- Behind sound lines all lines are sound exactly if the others are on their own. -/
theorem sound_contents_append_iff {options : Options} {lines : List Text} (h : Sound options (contents options lines))
    (more : List Text) : Sound options (contents options (lines ++ more)) ↔ Sound options (contents options more) := by
  rw [contents_append h.closed more, sound_append_iff]
  exact and_iff_right h

/-- Strictness does not change what is read. -/
theorem readNodes_strict (dialect : Dialect) (strict : Bool) (start : Nat) (lines : List Text) :
    readNodes { dialect, strict } start lines = readNodes { dialect } start lines := by
  have hopening : ∀ line, opening? { dialect, strict } line = opening? { dialect } line := fun line => rfl
  fun_induction readNodes { dialect } start lines with
  | case1 => simp [readNodes]
  | case2 start line rest ho ih => rw [readNodes_of_line ((hopening line).trans ho), ih]
  | case3 start line rest subject ho hc ih => rw [readNodes_of_unterminated ((hopening line).trans ho) hc, ih]
  | case4 start line rest subject ho body closing after hc ih =>
    rw [readNodes_of_block ((hopening line).trans ho) hc, ih]

theorem read_strict (dialect : Dialect) (strict : Bool) (text : Text) :
    read { dialect, strict } text = read { dialect } text :=
  congrArg Document.mk (readNodes_strict dialect strict 0 (textLines text))

end Document

/-! ## Entries -/

theorem Fragment.flag_wellFormed (dialect : Dialect) (key value : Text) :
    (flag dialect key value).isMalformed = false := by
  unfold flag
  split <;> rfl

namespace Entry

/-- The item of an entry is well formed, if there is one, exactly if the key is more than the mark of a condition and a
marked key has a value behind its equals sign. -/
theorem wellFormed_item?_iff {dialect : Dialect} {subject : Subject} {line : Text} {entry : Entry} :
    (∀ item ∈ entry.item? dialect subject line, item.isMalformed = false) ↔
      entry.key ≠ Fragment.conditionMark ∧ (Fragment.conditionMark <+: entry.key → entry.value? ≠ some []) := by
  obtain ⟨key, value?⟩ := entry
  unfold Entry.item?
  by_cases hname : key = "name".toList
  · have hne : "name".toList ≠ Fragment.conditionMark := by decide
    have hmark : ¬Fragment.conditionMark <+: "name".toList := by decide
    rw [if_pos hname, hname]
    exact ⟨fun _ => ⟨hne, fun h => absurd h hmark⟩, fun _ item hi => by cases hi⟩
  · rw [if_neg hname]
    cases hstrip : stripPrefix? Fragment.conditionMark key with
    | none =>
      have hmark : ¬Fragment.conditionMark <+: key := by
        rintro ⟨rest, hr⟩
        rw [stripPrefix?_eq_some_iff.mpr hr.symm] at hstrip
        cases hstrip
      refine ⟨fun _ => ⟨fun he => hmark (he ▸ List.prefix_rfl), fun h => absurd h hmark⟩, fun _ item hi => ?_⟩
      cases hi
      exact Fragment.flag_wellFormed ..
    | some condition =>
      obtain rfl := stripPrefix?_eq_some_iff.mp hstrip
      cases condition with
      | nil => simp [Item.malformed]
      | cons c rest =>
        -- only an empty value behind the equals sign is malformed
        rcases value? with _ | _ | ⟨first, value⟩
        · simp [Item.predicate]
        · simp [Item.malformed]
        · cases subject <;> simp [Item.selector, Line.namespaceSelector]

/-- An entry is its key, blanks and, if it has a value, an equals sign and the value. -/
theorem eq_of_read {line : Text} {entry : Entry} {value : Text} (h : Entry.read line = .ok entry)
    (hvalue : entry.value? = some value) :
    ∃ head rest, line = head ++ '=' :: rest ∧ '=' ∉ head ∧ value = trim rest := by
  simp only [Entry.read] at h
  split at h
  · cases h
  · split at h
    · cases h
      cases hvalue
    · next rest hrest =>
      cases h
      cases hvalue
      refine ⟨line.takeWhile isKeyChar ++ (line.dropWhile isKeyChar).takeWhile isSpaceOrTab, rest, ?_, ?_, rfl⟩
      · rw [List.append_assoc, ← hrest, List.takeWhile_append_dropWhile, List.takeWhile_append_dropWhile]
      · rw [List.mem_append]
        rintro (hm | hm)
        · exact absurd (List.all_eq_true.mp List.all_takeWhile _ hm) (by decide)
        · exact absurd (List.all_eq_true.mp List.all_takeWhile _ hm) (by decide)
    · cases h

/-- The value of an entry is not empty if more than blanks stands behind an equals sign of the line. -/
theorem value?_ne_nil {front value : Text} {entry : Entry} (h : Entry.read (trim (front ++ '=' :: value)) = .ok entry)
    (hvalue : ∃ c ∈ value, isBlank c = false) : entry.value? ≠ some [] := by
  intro hnil
  obtain ⟨c, hc, hblank⟩ := hvalue
  obtain ⟨head, rest, hline, hhead, hrest⟩ := eq_of_read h hnil
  obtain ⟨start, htrim⟩ := exists_trim_append_cons (show isBlank '=' = false by decide) front value
  have hend : c ∈ trimEnd value := mem_trimEnd hc hblank
  -- the equals sign of the entry is the first one, so the text behind the other one is behind it as well
  have hmem : c ∈ rest := by
    rw [htrim] at hline
    rcases List.append_eq_append_iff.mp hline with ⟨middle, rfl, hmiddle⟩ | ⟨middle, rfl, hmiddle⟩
    · cases middle with
      | nil => simpa [(List.cons.inj hmiddle).2] using hend
      | cons d middle =>
        obtain ⟨rfl, _⟩ := List.cons.inj hmiddle
        exact absurd (List.mem_append_right start List.mem_cons_self) hhead
    · cases middle with
      | nil => simpa [(List.cons.inj hmiddle).2] using hend
      | cons d middle =>
        obtain ⟨_, rfl⟩ := List.cons.inj hmiddle
        exact List.mem_append_right middle (List.mem_cons_of_mem _ hend)
  have htrim := mem_trim hmem hblank
  rw [← hrest] at htrim
  cases htrim

theorem key_of_read {line : Text} {entry : Entry} (h : Entry.read line = .ok entry) :
    entry.key = line.takeWhile isKeyChar := by
  simp only [Entry.read] at h
  split at h
  · cases h
  · split at h <;> cases h <;> rfl

end Entry

/-- The item on a line of a block is well formed, if there is one, exactly if the line is silent or an entry with a
well-formed item. -/
theorem Block.wellFormed_item?_iff {dialect : Dialect} {subject : Subject} {line : Text} :
    (∀ item ∈ item? dialect subject line, item.isMalformed = false) ↔
      Line.isSilent (trim line) = true ∨ ∃ entry, Entry.read (trim line) = .ok entry ∧
        entry.key ≠ Fragment.conditionMark ∧ (Fragment.conditionMark <+: entry.key → entry.value? ≠ some []) := by
  simp only [item?, readLine?]
  by_cases hsilent : Line.isSilent (trim line) = true
  · rw [if_pos hsilent]
    exact iff_of_true (fun item hi => by cases hi) (Or.inl hsilent)
  · rw [if_neg hsilent, or_iff_right hsilent]
    cases hread : Entry.read (trim line) with
    | error fault => simp [Item.malformed]
    | ok entry => simpa [Function.comp_def] using Entry.wellFormed_item?_iff

/-! ## Fragments -/

/-- The fragment gives an item. In a rule about windows, a key stands directly behind the mark of a condition. In a rule
about layers no fragment is empty, and a name stands behind the mark of a condition and a blank. -/
def Fragment.Fits (subject : Subject) (fragment : Text) : Prop :=
  match subject with
  | .window => ∀ rest, fragment = conditionMark ++ rest → ∃ c ∈ rest.head?, isBlank c = false
  | .layer => fragment ≠ [] ∧ ∀ rest, fragment = conditionMark ++ rest → ∃ c ∈ rest, isBlank c = true

section Decidable

instance (subject : Subject) (fragment : Text) : Decidable (Fragment.Fits subject fragment) :=
  match subject with
  | .window => decidable_of_iff
      ((stripPrefix? Fragment.conditionMark fragment).all (·.head?.any fun c => isBlank c == false) = true)
      (by simp only [Option.all_eq_true, Option.any_eq_true, beq_iff_eq, stripPrefix?_eq_some_iff]; rfl)
  | .layer => decidable_of_iff
      (fragment ≠ [] ∧ (stripPrefix? Fragment.conditionMark fragment).all (·.any isBlank) = true)
      (by simp only [Option.all_eq_true, List.any_eq_true, stripPrefix?_eq_some_iff]; rfl)

end Decidable

namespace Fragment

/-- What follows the mark of a condition gives a well-formed item exactly if it begins with a key. -/
theorem wellFormed_condition_iff (dialect : Dialect) (fragment : Text) {s : Text} :
    (condition dialect fragment s).isMalformed = false ↔ ∃ c ∈ s.head?, isBlank c = false := by
  unfold condition
  split
  · next key value hcut =>
    obtain ⟨hkey, c, hc, rfl⟩ := cutAt?_eq_some_iff.mp hcut
    cases key with
    | nil => simp [Item.malformed, hc]
    | cons d key => simpa [Item.selector] using hkey d List.mem_cons_self
  · next hcut =>
    cases s with
    | nil => simp [Item.malformed]
    | cons d s => simpa [Item.predicate] using cutAt?_eq_none_iff.mp hcut d List.mem_cons_self

theorem wellFormed_windowFlag (dialect : Dialect) (s : Text) : (windowFlag dialect s).isMalformed = false := by
  simp only [windowFlag]
  split
  · exact flag_wellFormed ..
  · split <;> exact flag_wellFormed ..

theorem wellFormed_selector (dialect : Dialect) (key value : Text) :
    ∀ item ∈ (selector dialect key value).toList, item.isMalformed = false := by
  unfold selector
  split <;> simp [Reading.toList, Item.selector]

/-- A fragment that does not begin with the mark of a condition fits a window rule. -/
theorem fits_window_of_unmarked {s : Text} (h : stripPrefix? conditionMark s = none) : Fits .window s := by
  rintro rest rfl
  rw [stripPrefix?_eq_some_iff.mpr rfl] at h
  cases h

/-- **A fragment of a window rule gives well-formed items** exactly if it fits. -/
theorem wellFormed_read_iff {dialect : Dialect} {s : Text} (hne : s ≠ []) (htrim : trim s = s) :
    (∀ item ∈ (read dialect s).toList, item.isMalformed = false) ↔ Fits .window s := by
  simp only [read, htrim, if_neg hne]
  split
  · next hdollar =>
    refine iff_of_true (by simp [Reading.toList, Item.predicate]) ?_
    rintro rest rfl
    rw [List.head?_append_of_ne_nil _ (by decide)] at hdollar
    exact absurd hdollar (by decide)
  · split
    · next rest hrest =>
      obtain rfl := stripPrefix?_eq_some_iff.mp hrest
      have hfits : Fits .window (conditionMark ++ rest) ↔ ∃ c ∈ rest.head?, isBlank c = false :=
        ⟨fun h => h rest rfl, fun h other ho => List.append_cancel_left ho ▸ h⟩
      rw [hfits, ← wellFormed_condition_iff dialect (conditionMark ++ rest)]
      simp [Reading.toList]
    · next hrest =>
      refine iff_of_true ?_ (fits_window_of_unmarked hrest)
      split
      · split
        · exact fun item hi => List.mem_singleton.mp hi ▸ wellFormed_windowFlag dialect s
        · exact wellFormed_selector dialect _ _
      · exact fun item hi => List.mem_singleton.mp hi ▸ wellFormed_windowFlag dialect s

end Fragment

namespace Line

theorem wellFormed_plainFlag (dialect : Dialect) (s : Text) : (Fragment.plainFlag dialect s).isMalformed = false :=
  Fragment.flag_wellFormed ..

/-- **A fragment of a layer rule in the newer form gives a well-formed item** exactly if it fits. -/
theorem wellFormed_newerLayerItem_iff {dialect : Dialect} {s : Text} (htrim : trim s = s) :
    (newerLayerItem dialect s).isMalformed = false ↔ Fragment.Fits .layer s := by
  unfold newerLayerItem
  by_cases hne : s = []
  · rw [if_pos hne]
    exact iff_of_false (by simp [Item.malformed]) fun h => h.1 hne
  · rw [if_neg hne]
    split
    · next hstrip =>
      refine iff_of_true (wellFormed_plainFlag dialect s) ⟨hne, ?_⟩
      rintro rest rfl
      rw [stripPrefix?_eq_some_iff.mpr rfl] at hstrip
      cases hstrip
    · next rest hstrip =>
      obtain rfl := stripPrefix?_eq_some_iff.mp hstrip
      have hfits : Fragment.Fits .layer (Fragment.conditionMark ++ rest) ↔ ∃ c ∈ rest, isBlank c = true :=
        ⟨fun h => h.2 rest rfl, fun h => ⟨hne, fun other ho => List.append_cancel_left ho ▸ h⟩⟩
      rw [hfits]
      split
      · next hcut =>
        have hnone := cutAt?_eq_none_iff.mp hcut
        refine iff_of_false (by simp [Item.malformed]) ?_
        rintro ⟨c, hc, hblank⟩
        rw [hnone c hc] at hblank
        cases hblank
      · next key name hcut =>
        obtain ⟨_, c, hc, rfl⟩ := cutAt?_eq_some_iff.mp hcut
        refine iff_of_true ?_ ⟨c, by simp, hc⟩
        -- the fragment does not end with a blank, so a name follows the one behind the key
        have hname : trim name ≠ [] := by
          intro hnil
          have hlast := getLast?_trim (Fragment.conditionMark ++ (key ++ c :: name))
          rw [htrim, List.getLast?_append_of_ne_nil _ (by simp),
            List.getLast?_append_of_ne_nil _ (List.cons_ne_nil _ _)] at hlast
          obtain ⟨d, hd⟩ := Option.isSome_iff_exists.mp (List.getLast?_isSome.mpr (List.cons_ne_nil c name))
          have hblank := hlast d hd
          rcases List.mem_cons.mp (List.mem_of_getLast? hd) with rfl | hmem
          · rw [hc] at hblank
            cases hblank
          · have htrim := mem_trim hmem hblank
            rw [hnil] at htrim
            cases htrim
        rw [if_neg hname]
        rfl

/-- Without a fragment in the newer form, a layer rule gives well-formed items exactly if no fragment is empty. -/
theorem wellFormed_olderLayerItems_iff {dialect : Dialect} {fragments : List Text} :
    (∀ item ∈ olderLayerItems dialect fragments, item.isMalformed = false) ↔ ∀ s ∈ fragments, s ≠ [] := by
  cases fragments with
  | nil => simp [olderLayerItems]
  | cons effect names =>
    have heffect : (if effect = [] then Item.malformed effect else Fragment.plainFlag dialect effect).isMalformed =
        false ↔ effect ≠ [] := by
      split
      · next he => exact iff_of_false (by simp [Item.malformed]) fun hne => hne he
      · next hne => exact iff_of_true (wellFormed_plainFlag dialect effect) hne
    have hname : ∀ name : Text, (if name = [] then Item.malformed name else namespaceSelector dialect name).isMalformed =
        false ↔ name ≠ [] := by
      intro name
      split
      · next he => exact iff_of_false (by simp [Item.malformed]) fun hne => hne he
      · next hne => exact iff_of_true rfl hne
    rw [olderLayerItems, List.forall_mem_cons, List.forall_mem_cons, heffect, List.forall_mem_map]
    exact and_congr_right fun _ => forall₂_congr fun name _ => hname name

/-- **The fragments of a line give well-formed items** exactly if they fit. -/
theorem wellFormed_items_iff {dialect : Dialect} {subject : Subject} {fragments : List Text}
    (htrim : ∀ s ∈ fragments, trim s = s) :
    (∀ item ∈ items dialect subject fragments, item.isMalformed = false) ↔
      ∀ s ∈ fragments, Fragment.Fits subject s := by
  cases subject with
  | window =>
    have hread : ∀ s ∈ fragments, (s ≠ [] → ∀ item ∈ (Fragment.read dialect s).toList, item.isMalformed = false) ↔
        Fragment.Fits .window s := by
      intro s hs
      by_cases hne : s = []
      · refine iff_of_true (fun h => absurd hne h) ?_
        rw [hne]
        exact Fragment.fits_window_of_unmarked (by decide)
      · rw [imp_iff_right hne, Fragment.wellFormed_read_iff hne (htrim s hs)]
    rw [← forall₂_congr hread, items]
    simp only [List.mem_flatMap, List.mem_filter, decide_eq_true_eq]
    exact ⟨fun h s hs hne item hi => h item ⟨s, ⟨hs, hne⟩, hi⟩, fun h item ⟨s, ⟨hs, hne⟩, hi⟩ => h s hs hne item hi⟩
  | layer =>
    rw [items]
    split
    · rw [List.forall_mem_map]
      exact forall₂_congr fun s hs => wellFormed_newerLayerItem_iff (htrim s hs)
    · next hmark =>
      rw [wellFormed_olderLayerItems_iff]
      refine forall₂_congr fun s hs => ⟨fun hne => ⟨hne, ?_⟩, And.left⟩
      rintro rest rfl
      exact absurd (List.any_eq_true.mpr ⟨_, hs, List.isPrefixOf_iff_prefix.mpr (List.prefix_append _ _)⟩) hmark

end Line

theorem Rule.malformed_eq_nil_iff {rule : Rule} :
    rule.malformed = [] ↔ ∀ item ∈ rule.items, item.isMalformed = false := by
  simp [Rule.malformed]

end WindowRules

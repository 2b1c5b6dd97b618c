import WindowRules.Proofs.Encoding.Kept
import WindowRules.Proofs.Reading.Nodes
import WindowRules.Proofs.Text.Lowercase
import WindowRules.Proofs.Text.Words

/-!
# What is read fits on a line

Text is read line by line, and nothing that is read puts a newline into an item: keys and values are pieces of a line,
newer forms from the tables, defaults, and expressions around such pieces (`oneLine_of_mem_rules`). So a rule that is
written on one line takes up one line.

Each reader has a lemma of its own, which says that its result has no newline if its source has none. Most of them take
pieces of their source only, so they come down to an inclusion of characters (`OneLine.of_subset`). What comes from the
tables of keys is made of small letters and underscores (`Text.IsIdentifier`).
-/

namespace WindowRules

/-- The text has no newline. -/
def Text.OneLine (s : Text) : Prop := '\n' ∉ s

/-- The key and the value of the item have no newline. -/
def Item.OneLine (item : Item) : Prop := Text.OneLine item.key ∧ Text.OneLine item.value

/-- The items of the rule have no newline. -/
def Rule.OneLine (rule : Rule) : Prop := ∀ item ∈ rule.items, item.OneLine

namespace Text

instance (s : Text) : Decidable (OneLine s) := inferInstanceAs (Decidable ('\n' ∉ s))

instance (item : Item) : Decidable item.OneLine :=
  inferInstanceAs (Decidable (Text.OneLine item.key ∧ Text.OneLine item.value))

instance (rule : Rule) : Decidable rule.OneLine := inferInstanceAs (Decidable (∀ item ∈ rule.items, item.OneLine))

/-! ## Pieces of texts -/

theorem OneLine.of_subset {s t : Text} (h : OneLine t) (hs : s ⊆ t) : OneLine s := fun hm => h (hs hm)

theorem oneLine_nil : OneLine [] := by simp [OneLine]

theorem oneLine_cons_iff {c : Char} {s : Text} : OneLine (c :: s) ↔ c ≠ '\n' ∧ OneLine s := by
  simp [OneLine, eq_comm]

theorem oneLine_append_iff {s t : Text} : OneLine (s ++ t) ↔ OneLine s ∧ OneLine t := by
  simp [OneLine]

theorem oneLine_intercalate {sep : Text} {parts : List Text} (hsep : OneLine sep) (h : ∀ part ∈ parts, OneLine part) :
    OneLine (sep.intercalate parts) := by
  induction parts with
  | nil => exact oneLine_nil
  | cons part parts ih =>
    have hpart := h part List.mem_cons_self
    cases parts with
    | nil => simpa [List.intercalate] using hpart
    | cons next parts =>
      rw [List.intercalate_cons_cons]
      have hrest := ih fun p hp => h p (List.mem_cons_of_mem _ hp)
      exact oneLine_append_iff.mpr ⟨oneLine_append_iff.mpr ⟨hpart, hsep⟩, hrest⟩

theorem oneLine_spaced {parts : List Text} (h : ∀ part ∈ parts, OneLine part) : OneLine (spaced parts) :=
  oneLine_intercalate (by decide) h

theorem trim_subset (s : Text) : trim s ⊆ s := by
  intro c hc
  have hstart : trimStart s ⊆ s := (List.dropWhile_sublist _).subset
  have hend : c ∈ (trimStart s).reverse.dropWhile isBlank := List.mem_reverse.mp hc
  exact hstart (List.mem_reverse.mp ((List.dropWhile_sublist _).subset hend))

/-- The pieces of a split are pieces of the text. -/
theorem subset_of_mem_splitOnP {p : Char → Bool} {s part : Text} (h : part ∈ s.splitOnP p) : part ⊆ s := by
  induction s generalizing part with
  | nil =>
    rw [List.splitOnP_nil, List.mem_singleton] at h
    rw [h]
    exact List.Subset.refl _
  | cons c s ih =>
    rw [List.splitOnP_cons_eq_if_modifyHead] at h
    split at h
    · rcases List.mem_cons.mp h with rfl | h
      · exact List.nil_subset _
      · exact List.Subset.trans (ih h) (List.subset_cons_self c s)
    · cases hs : s.splitOnP p with
      | nil => exact absurd hs (List.splitOnP_ne_nil p s)
      | cons first parts =>
        rw [hs, List.modifyHead_cons] at h
        rcases List.mem_cons.mp h with rfl | h
        · exact List.cons_subset_cons c (ih (hs ▸ List.mem_cons_self))
        · exact List.Subset.trans (ih (hs ▸ List.mem_cons_of_mem _ h)) (List.subset_cons_self c s)

theorem subset_of_mem_words {s word : Text} (h : word ∈ words s) : word ⊆ s :=
  subset_of_mem_splitOnP (List.mem_filter.mp h).1

theorem oneLine_of_mem_words {s word : Text} (hs : OneLine s) (h : word ∈ words s) : OneLine word :=
  hs.of_subset (subset_of_mem_words h)

/-- The two sides of a cut are pieces of the text. -/
theorem cutAt?_subset {p : Char → Bool} {s before after : Text} (h : cutAt? p s = some (before, after)) :
    before ⊆ s ∧ after ⊆ s := by
  obtain ⟨_, c, _, rfl⟩ := cutAt?_eq_some_iff.mp h
  exact ⟨List.subset_append_left _ _, fun d hd => List.mem_append_right _ (List.mem_cons_of_mem _ hd)⟩

theorem stripPrefix?_subset {start s rest : Text} (h : stripPrefix? start s = some rest) : rest ⊆ s := by
  rw [stripPrefix?_eq_some_iff.mp h]
  exact List.subset_append_right _ _

end Text

/-! ## Commas and keys -/

open Text

namespace Comma

theorem oneLine_escape {s : Text} (h : OneLine s) : OneLine (escape s) := by
  fun_induction escape s with
  | case1 => exact h
  | case2 s ih => simp only [oneLine_cons_iff] at h ⊢; exact ⟨h.1, h.2.1, ih h.2.2⟩
  | case3 s ih => simp only [oneLine_cons_iff] at h ⊢; exact ⟨by decide, h.1, ih h.2⟩
  | case4 c s _ _ ih => simp only [oneLine_cons_iff] at h ⊢; exact ⟨h.1, ih h.2⟩

theorem oneLine_unescape {s : Text} (h : OneLine s) : OneLine (unescape s) := by
  fun_induction unescape s with
  | case1 => exact h
  | case2 s ih => simp only [oneLine_cons_iff] at h ⊢; exact ⟨h.2.1, ih h.2.2⟩
  | case3 c s _ ih => simp only [oneLine_cons_iff] at h ⊢; exact ⟨h.1, ih h.2⟩

/-- The fragments of a text are pieces of it, since they are the text once they are joined again. -/
theorem subset_of_mem_split {s part : Text} (h : part ∈ split s) : part ⊆ s := by
  have hjoin : ∀ parts : List Text, part ∈ parts → part ⊆ [','].intercalate parts := by
    intro parts hp
    induction parts with
    | nil => cases hp
    | cons first parts ih =>
      cases parts with
      | nil => simp [List.mem_singleton.mp hp, List.intercalate]
      | cons next parts =>
        rw [List.intercalate_cons_cons]
        rcases List.mem_cons.mp hp with rfl | hp
        · exact List.Subset.trans (List.subset_append_left _ _) (List.subset_append_left _ _)
        · exact List.Subset.trans (ih hp) (List.subset_append_right _ _)
  have := hjoin _ h
  rwa [intercalate_split] at this

end Comma

theorem Dialect.oneLine_encode (dialect : Dialect) {s : Text} (h : OneLine s) : OneLine (dialect.encode s) := by
  cases dialect with
  | block => exact Comma.oneLine_unescape h
  | inline => exact Comma.oneLine_escape h

theorem mem_of_lookup_eq_some {α β : Type} [BEq α] [LawfulBEq α] {entries : List (α × β)} {key : α} {value : β}
    (h : entries.lookup key = some value) : (key, value) ∈ entries := by
  obtain ⟨before, after, he, _⟩ := List.lookup_eq_some_iff.mp h
  rw [he]
  exact List.mem_append_right _ List.mem_cons_self

/-- What stands in a table for a key, or else the default, has a property if the whole table and the default have it. -/
theorem getD_lookup_of_forall {α β : Type} [BEq α] [LawfulBEq α] {p : β → Prop} {entries : List (α × β)}
    (h : ∀ entry ∈ entries, p entry.2) {key : α} {default : β} (hdefault : p default) :
    p ((entries.lookup key).getD default) := by
  cases hl : entries.lookup key with
  | none => exact hdefault
  | some value => exact h _ (mem_of_lookup_eq_some hl)

/-! ## Keys and defaults of the tables -/

/-- The text is a name made of small letters and underscores. -/
structure Text.IsIdentifier (s : Text) : Prop where
  ne_nil : s ≠ []
  letter : ∀ c ∈ s, 95 ≤ c.toNat ∧ c.toNat ≤ 122

instance (s : Text) : Decidable s.IsIdentifier :=
  decidable_of_iff (s ≠ [] ∧ ∀ c ∈ s, 95 ≤ c.toNat ∧ c.toNat ≤ 122)
    ⟨fun ⟨ne_nil, letter⟩ => ⟨ne_nil, letter⟩, fun h => ⟨h.ne_nil, h.letter⟩⟩

theorem Text.IsIdentifier.not_mem {s : Text} (h : s.IsIdentifier) {mark : Char} (hmark : mark.toNat < 95) : mark ∉ s := by
  intro hm
  have hletter := h.letter mark hm
  omega

theorem Text.IsIdentifier.not_isBlank {s : Text} (h : s.IsIdentifier) : ∀ c ∈ s, isBlank c = false := by
  intro c hc
  have hletter := h.letter c hc
  simp only [isBlank, blankRanges, List.any_cons, List.any_nil, Bool.or_eq_false_iff, Bool.and_eq_false_iff,
    decide_eq_false_iff_not, and_true]
  omega

namespace Keys

/-- The keys that a selector key stands for. -/
def SelectorKey.keys : SelectorKey → List Text
  | .single key => [key]
  | .pair first second => [first, second]

-- A literal is written as the list of its characters first, since it takes long to be read as one.

/-- None of the newer keys of the table is that of a size or a move. -/
theorem isIdentifier_flagTable : ∀ entry ∈ flagTable,
    entry.2.IsIdentifier ∧ entry.2 ≠ "size".toList ∧ entry.2 ≠ "move".toList := by
  unfold flagTable
  simp only [List.map_cons, List.map_nil]
  repeat rw [String.toList_ofList]
  decide +kernel

theorem isIdentifier_selectorTable : ∀ entry ∈ selectorTable, ∀ k ∈ entry.2.keys, k.IsIdentifier := by
  unfold selectorTable
  repeat rw [String.toList_ofList]
  decide +kernel

/-- A flag key becomes a newer key of the table, or else its lowercase form. -/
theorem flagKey_cases (key : Text) : (∃ entry ∈ flagTable, flagKey key = entry.2) ∨
    flagTable.lookup (lower key) = none ∧ flagKey key = lower key := by
  unfold flagKey
  cases hl : flagTable.lookup (lower key) with
  | none => exact Or.inr ⟨rfl, by simp [hl]⟩
  | some newer => exact Or.inl ⟨_, mem_of_lookup_eq_some hl, by simp [hl]⟩

/-- A selector key stands for newer keys of the table, or else for itself. -/
theorem isIdentifier_or_eq_of_mem_keys {key k : Text} (h : k ∈ (selectorKey key).keys) : k.IsIdentifier ∨ k = key := by
  have hkeys : ∀ k ∈ (selectorKey key).keys, k.IsIdentifier ∨ k = key := by
    apply getD_lookup_of_forall (p := fun newer : SelectorKey => ∀ k ∈ newer.keys, k.IsIdentifier ∨ k = key)
    · exact fun entry he k hk => Or.inl (isIdentifier_selectorTable entry he k hk)
    · exact fun k hk => Or.inr (List.mem_singleton.mp hk)
  exact hkeys k h

/-- There are two values for all defaults. -/
theorem defaultValue_cases (key : Text) : defaultValue key = ['0'] ∨ defaultValue key = ['o', 'n'] := by
  have htable : ∀ entry ∈ defaultTable, entry.2 = ['0'] ∨ entry.2 = ['o', 'n'] := by
    unfold defaultTable
    simp only [List.map_cons, List.map_nil]
    repeat rw [String.toList_ofList]
    decide +kernel
  exact getD_lookup_of_forall (p := fun value => value = ['0'] ∨ value = ['o', 'n']) htable (Or.inr (by decide))

theorem oneLine_flagKey {key : Text} (h : OneLine key) : OneLine (flagKey key) := by
  rcases flagKey_cases key with ⟨entry, he, hkey⟩ | ⟨-, hkey⟩
  · rw [hkey]
    exact (isIdentifier_flagTable entry he).1.not_mem (by decide)
  · rw [hkey]
    exact not_mem_lower (by decide) (by decide) h

theorem oneLine_defaultValue (key : Text) : OneLine (defaultValue key) := by
  rcases defaultValue_cases key with h | h <;> rw [h] <;> decide

theorem oneLine_selectorKey {key : Text} (h : OneLine key) : ∀ k ∈ (selectorKey key).keys, OneLine k := by
  intro k hk
  rcases isIdentifier_or_eq_of_mem_keys hk with hnewer | rfl
  · exact hnewer.not_mem (by decide)
  · exact h

end Keys

/-! ## Expressions -/

namespace Decimal

theorem oneLine_digits (n : Nat) : OneLine (Nat.toDigits 10 n) := by
  intro hm
  have := Nat.isDigit_of_mem_toDigits (by omega) (by omega) hm
  exact absurd this (by decide)

theorem oneLine_positional (x : Decimal) : OneLine x.positional := by
  have hdigits := oneLine_digits x.digits
  have hzeros : ∀ n, OneLine (List.replicate n '0') := fun n hm => absurd (List.eq_of_mem_replicate hm) (by decide)
  unfold positional
  simp only
  split
  · exact oneLine_append_iff.mpr ⟨hdigits, hzeros _⟩
  · split
    · refine oneLine_append_iff.mpr ⟨hdigits.of_subset (List.take_subset _ _), ?_⟩
      exact oneLine_cons_iff.mpr ⟨by decide, hdigits.of_subset (List.drop_subset _ _)⟩
    · refine oneLine_append_iff.mpr ⟨?_, hdigits⟩
      exact oneLine_cons_iff.mpr ⟨by decide, oneLine_cons_iff.mpr ⟨by decide, hzeros _⟩⟩

theorem oneLine_magnitudeText (exponent fraction : Nat) : OneLine (magnitudeText exponent fraction) := by
  unfold magnitudeText
  split
  · decide
  · split
    · decide
    · split <;> exact oneLine_positional _

theorem oneLine_text (x : Float) : OneLine (text x) := by
  unfold text
  simp only
  split
  · decide
  · split
    · exact oneLine_cons_iff.mpr ⟨by decide, oneLine_magnitudeText _ _⟩
    · exact oneLine_magnitudeText _ _

end Decimal

namespace Axis

theorem oneLine_shareOrSame (axis : Axis) {s : Text} (h : OneLine s) : OneLine (axis.shareOrSame s) := by
  unfold shareOrSame share?
  cases stripSuffix? '%' s with
  | none => exact h
  | some number =>
    have hmonitor : OneLine axis.monitor := by cases axis <;> decide
    have hnumber := Decimal.oneLine_text (hundredth number)
    simp [oneLine_cons_iff, oneLine_append_iff, oneLine_nil, hmonitor, hnumber]

theorem oneLine_of_mem_distribute {rule : Axis → Text → Text} {texts : List Text}
    (hrule : ∀ axis s, OneLine s → OneLine (rule axis s)) (h : ∀ s ∈ texts, OneLine s) :
    ∀ s ∈ distribute rule texts, OneLine s := by
  cases texts with
  | nil => simp [distribute]
  | cons first others =>
    intro s hs
    rcases List.mem_cons.mp hs with rfl | hs
    · exact hrule _ _ (h first List.mem_cons_self)
    · obtain ⟨other, ho, rfl⟩ := List.mem_map.mp hs
      exact hrule _ _ (h other (List.mem_cons_of_mem _ ho))

end Axis

theorem Size.oneLine_of_mem_values {arguments : List Text} (h : ∀ s ∈ arguments, OneLine s) :
    ∀ s ∈ (Size.read arguments).values, OneLine s := by
  have hmark : ∀ s, (mark s).2 ⊆ s := by
    intro s
    unfold mark
    split
    · exact List.subset_cons_self _ _
    · exact List.subset_cons_self _ _
    · exact List.Subset.refl _
  refine Axis.oneLine_of_mem_distribute (fun axis _ => axis.oneLine_shareOrSame) fun s hs => ?_
  obtain ⟨marked, hm, rfl⟩ := List.mem_map.mp hs
  obtain ⟨argument, ha, rfl⟩ := List.mem_map.mp hm
  exact (h argument ha).of_subset (List.Subset.trans (hmark _) (trim_subset argument))

namespace Position

theorem oneLine_operand (axis : Axis) {s : Text} (h : OneLine s) : OneLine (operand axis s) := by
  unfold operand
  simp only
  split
  · cases axis <;> decide
  · exact axis.oneLine_shareOrSame (h.of_subset (trim_subset s))

theorem oneLine_difference (axis : Axis) {s : Text} (h : OneLine s) : OneLine (difference axis s) := by
  refine oneLine_intercalate (by decide) fun part hp => ?_
  obtain ⟨piece, hpiece, rfl⟩ := List.mem_map.mp hp
  exact oneLine_operand axis (h.of_subset (subset_of_mem_splitOnP hpiece))

theorem oneLine_clamped (dialect : Dialect) (axis : Axis) {s : Text} (h : OneLine s) :
    OneLine (clamped dialect axis s) := by
  have hseparator : OneLine dialect.separator := by cases dialect <;> decide
  have hmonitor : OneLine axis.monitor := by cases axis <;> decide
  have hwindow : OneLine ('-' :: axis.window) := by cases axis <;> decide
  have hmax : OneLine ("min(max(".toList ++ s) := oneLine_append_iff.mpr ⟨by decide, h⟩
  have hzero : OneLine ("min(max(".toList ++ s ++ dialect.separator ++ "0)".toList) :=
    oneLine_append_iff.mpr ⟨oneLine_append_iff.mpr ⟨hmax, hseparator⟩, by decide⟩
  have hbound := oneLine_append_iff.mpr ⟨oneLine_append_iff.mpr ⟨hzero, hseparator⟩, hmonitor⟩
  exact oneLine_append_iff.mpr ⟨oneLine_append_iff.mpr ⟨hbound, hwindow⟩, by decide⟩

theorem oneLine_fromCursor (axis : Axis) {s : Text} (h : OneLine s) : OneLine (fromCursor axis s) := by
  have hcursor : OneLine axis.cursor := by cases axis <;> decide
  have hopen : OneLine (axis.cursor ++ "+(".toList) := oneLine_append_iff.mpr ⟨hcursor, by decide⟩
  exact oneLine_append_iff.mpr ⟨oneLine_append_iff.mpr ⟨hopen, h⟩, by decide⟩

theorem oneLine_coordinate (dialect : Dialect) (modifiers : Modifiers) (axis : Axis) {s : Text} (h : OneLine s) :
    OneLine (coordinate dialect modifiers axis s) := by
  have hdifference := oneLine_difference axis (h.of_subset (trim_subset s))
  have hgroup : ∀ {s}, OneLine s → OneLine ('(' :: s ++ [')']) := fun hs =>
    oneLine_append_iff.mpr ⟨oneLine_cons_iff.mpr ⟨by decide, hs⟩, by decide⟩
  unfold coordinate
  simp only
  split
  · exact h.of_subset (trim_subset s)
  · apply hgroup
    split <;> split <;> simp only [hdifference, oneLine_clamped, oneLine_fromCursor]

theorem oneLine_of_mem_read (dialect : Dialect) {arguments : List Text} (h : ∀ s ∈ arguments, OneLine s) :
    ∀ s ∈ read dialect arguments, OneLine s :=
  Axis.oneLine_of_mem_distribute (fun axis _ => oneLine_coordinate dialect _ axis) fun s hs =>
    h s (List.mem_filter.mp hs).1

end Position

/-! ## Items -/

namespace Fragment

theorem oneLine_flag (dialect : Dialect) {key value : Text} (hk : OneLine key) (hv : OneLine value) :
    (flag dialect key value).OneLine := by
  unfold flag
  split
  · exact ⟨hk, Keys.oneLine_defaultValue key⟩
  · exact ⟨hk, dialect.oneLine_encode hv⟩

theorem oneLine_headD_words {s : Text} (h : OneLine s) : OneLine ((words s).headD []) := by
  cases hw : words s with
  | nil => exact oneLine_nil
  | cons word others =>
    have hm : word ∈ words s := by rw [hw]; exact List.mem_cons_self
    exact oneLine_of_mem_words h hm

theorem oneLine_of_mem_tail_words {s : Text} (h : OneLine s) : ∀ word ∈ (words s).tail, OneLine word := fun _ hw =>
  oneLine_of_mem_words h (List.mem_of_mem_tail hw)

theorem oneLine_plainFlag (dialect : Dialect) {s : Text} (h : OneLine s) : (plainFlag dialect s).OneLine :=
  oneLine_flag dialect (Keys.oneLine_flagKey (oneLine_headD_words h)) (oneLine_spaced (oneLine_of_mem_tail_words h))

theorem oneLine_windowFlag (dialect : Dialect) {s : Text} (h : OneLine s) : (windowFlag dialect s).OneLine := by
  have hkey := Keys.oneLine_flagKey (oneLine_headD_words h)
  have harguments := oneLine_of_mem_tail_words h
  unfold windowFlag
  simp only
  split
  · refine oneLine_flag dialect ?_ (oneLine_spaced (Size.oneLine_of_mem_values harguments))
    cases (Size.read (words s).tail).bound <;> decide
  · split
    · exact oneLine_flag dialect hkey (oneLine_spaced (Position.oneLine_of_mem_read dialect harguments))
    · exact oneLine_flag dialect hkey (oneLine_spaced harguments)

theorem oneLine_selector (dialect : Dialect) {key value : Text} (hk : OneLine key) (hv : OneLine value) :
    ∀ item ∈ (selector dialect key value).toList, item.OneLine := by
  have hkeys := Keys.oneLine_selectorKey hk
  have hhalf : ∀ n : Nat, OneLine ((words value)[n]?.getD Keys.missingHalf) := by
    intro n
    cases hn : (words value)[n]? with
    | none => decide
    | some word => exact oneLine_of_mem_words hv (List.mem_of_getElem? hn)
  unfold selector
  cases hs : Keys.selectorKey key with
  | single newer =>
    rw [hs] at hkeys
    intro item hi
    rw [List.mem_singleton.mp hi]
    exact ⟨hkeys newer List.mem_cons_self, dialect.oneLine_encode hv⟩
  | pair first second =>
    rw [hs] at hkeys
    intro item hi
    rcases List.mem_cons.mp hi with rfl | hi
    · exact ⟨hkeys first (by simp [Keys.SelectorKey.keys]), hhalf 0⟩
    · rw [List.mem_singleton.mp hi]
      exact ⟨hkeys second (by simp [Keys.SelectorKey.keys]), hhalf 1⟩

theorem oneLine_condition (dialect : Dialect) {fragment s : Text} (hf : OneLine fragment) (hs : OneLine s) :
    (condition dialect fragment s).OneLine := by
  unfold condition
  cases hc : cutAt? isBlank s with
  | none =>
    simp only
    split
    · exact ⟨hf, oneLine_nil⟩
    · exact ⟨hs, oneLine_nil⟩
  | some sides =>
    obtain ⟨hkey, hvalue⟩ := cutAt?_subset hc
    simp only
    split
    · exact ⟨hf, oneLine_nil⟩
    · exact ⟨hs.of_subset hkey, dialect.oneLine_encode (hs.of_subset (List.Subset.trans (trim_subset _) hvalue))⟩

theorem oneLine_read (dialect : Dialect) {fragment : Text} (h : OneLine fragment) :
    ∀ item ∈ (read dialect fragment).toList, item.OneLine := by
  have hs : OneLine (trim fragment) := h.of_subset (trim_subset fragment)
  have hsingle : ∀ {item : Item}, item.OneLine → ∀ other ∈ (Reading.single item).toList, other.OneLine := by
    intro item hi other ho
    rwa [List.mem_singleton.mp ho]
  unfold read
  simp only
  split
  · exact hsingle ⟨hs, oneLine_nil⟩
  · split
    · exact hsingle ⟨hs, oneLine_nil⟩
    · split
      · next rest hr => exact hsingle (oneLine_condition dialect hs (hs.of_subset (stripPrefix?_subset hr)))
      · split
        · next key value hc =>
          obtain ⟨hkey, hvalue⟩ := cutAt?_subset hc
          split
          · exact hsingle (oneLine_windowFlag dialect hs)
          · exact oneLine_selector dialect (hs.of_subset hkey)
              (hs.of_subset (List.Subset.trans (trim_subset _) hvalue))
        · exact hsingle (oneLine_windowFlag dialect hs)

end Fragment

namespace Line

theorem oneLine_malformed {s : Text} (h : OneLine s) : (Item.malformed s).OneLine := ⟨h, oneLine_nil⟩

theorem oneLine_namespaceSelector (dialect : Dialect) {name : Text} (h : OneLine name) :
    (namespaceSelector dialect name).OneLine :=
  ⟨dialect.oneLine_encode h, show Text.OneLine Keys.enabled by decide⟩

theorem oneLine_newerLayerItem (dialect : Dialect) {fragment : Text} (h : OneLine fragment) :
    (newerLayerItem dialect fragment).OneLine := by
  unfold newerLayerItem
  split
  · exact oneLine_malformed h
  · split
    · exact Fragment.oneLine_plainFlag dialect h
    · next rest hr =>
      split
      · exact oneLine_malformed h
      · next name hc =>
        split
        · exact oneLine_malformed h
        · refine oneLine_namespaceSelector dialect (h.of_subset ?_)
          exact List.Subset.trans (trim_subset _) (List.Subset.trans (cutAt?_subset hc).2 (stripPrefix?_subset hr))

theorem oneLine_olderLayerItems (dialect : Dialect) {fragments : List Text} (h : ∀ s ∈ fragments, OneLine s) :
    ∀ item ∈ olderLayerItems dialect fragments, item.OneLine := by
  cases fragments with
  | nil => simp [olderLayerItems]
  | cons effect names =>
    intro item hi
    rcases List.mem_cons.mp hi with rfl | hi
    · have heffect := h effect List.mem_cons_self
      split
      · exact oneLine_malformed heffect
      · exact Fragment.oneLine_plainFlag dialect heffect
    · obtain ⟨name, hn, rfl⟩ := List.mem_map.mp hi
      have hname := h name (List.mem_cons_of_mem _ hn)
      split
      · exact oneLine_malformed hname
      · exact oneLine_namespaceSelector dialect hname

theorem oneLine_items (dialect : Dialect) (subject : Subject) {fragments : List Text} (h : ∀ s ∈ fragments, OneLine s) :
    ∀ item ∈ items dialect subject fragments, item.OneLine := by
  cases subject with
  | window =>
    intro item hi
    obtain ⟨fragment, hf, hi⟩ := List.mem_flatMap.mp hi
    exact Fragment.oneLine_read dialect (h fragment (List.mem_filter.mp hf).1) item hi
  | layer =>
    simp only [items]
    split
    · intro item hi
      obtain ⟨fragment, hf, rfl⟩ := List.mem_map.mp hi
      exact oneLine_newerLayerItem dialect (h fragment hf)
    · exact oneLine_olderLayerItems dialect h

/-- A rule that is read from a line has no newline. -/
theorem oneLine_of_read? {dialect : Dialect} {line : Text} {rule : Rule} (hline : OneLine line)
    (h : read? dialect line = some rule) : rule.OneLine := by
  simp only [read?, parts?, Option.bind_eq_bind, Option.bind_eq_some_iff, Option.map_eq_some_iff, Prod.exists] at h
  obtain ⟨head, fragments, ⟨before, after, hcut, he⟩, subject, _, hrule⟩ := h
  cases he
  cases hrule
  refine oneLine_items dialect subject fun s hs => ?_
  obtain ⟨fragment, hf, rfl⟩ := List.mem_map.mp hs
  refine hline.of_subset (List.Subset.trans (trim_subset _) ?_)
  exact List.Subset.trans (Comma.subset_of_mem_split hf) (cutAt?_subset hcut).2

end Line

theorem Entry.oneLine_of_read {line : Text} {entry : Entry} (hline : OneLine line) (h : Entry.read line = .ok entry) :
    OneLine entry.key ∧ ∀ value ∈ entry.value?, OneLine value := by
  have hkey : OneLine (line.takeWhile isKeyChar) := hline.of_subset (List.takeWhile_sublist _).subset
  have hrest : (line.dropWhile isKeyChar).dropWhile isSpaceOrTab ⊆ line :=
    List.Subset.trans (List.dropWhile_sublist _).subset (List.dropWhile_sublist _).subset
  simp only [read] at h
  split at h
  · cases h
  · split at h
    · cases h
      exact ⟨hkey, by simp⟩
    · next value hv =>
      cases h
      refine ⟨hkey, fun v hm => ?_⟩
      cases hm
      refine hline.of_subset (List.Subset.trans (trim_subset value) fun c hc => hrest ?_)
      rw [hv]
      exact List.mem_cons_of_mem _ hc
    · cases h

theorem Entry.oneLine_item? {dialect : Dialect} {subject : Subject} {line : Text} {entry : Entry} {item : Item}
    (hline : OneLine line) (hkey : OneLine entry.key) (hvalue : ∀ value ∈ entry.value?, OneLine value)
    (h : entry.item? dialect subject line = some item) : item.OneLine := by
  unfold Entry.item? at h
  split at h
  · cases h
  · cases h
    split
    · refine Fragment.oneLine_flag dialect (Keys.oneLine_flagKey hkey) ?_
      cases hv : entry.value? with
      | none => exact oneLine_nil
      | some value => exact hvalue value hv
    · exact Line.oneLine_malformed hline
    · next condition _ hr =>
      have hcondition : OneLine condition := hkey.of_subset (stripPrefix?_subset hr)
      split
      · exact ⟨hcondition, oneLine_nil⟩
      · exact Line.oneLine_malformed hline
      · next value _ hv => exact ⟨hcondition, dialect.oneLine_encode (hvalue _ hv)⟩
      · next value _ hv => exact Line.oneLine_namespaceSelector dialect (hvalue _ hv)

theorem Block.oneLine_of_mem_readBody {dialect : Dialect} {subject : Subject} {number : Nat} {body : List Text}
    (hbody : ∀ line ∈ body, OneLine line) : ∀ entry ∈ readBody dialect subject number body, entry.1.OneLine := by
  intro entry he
  obtain ⟨⟨line, n⟩, hm, hread⟩ := List.mem_filterMap.mp he
  have hline : OneLine (trim line) := (hbody line (List.fst_mem_of_mem_zipIdx hm)).of_subset (trim_subset line)
  simp only [readLine?] at hread
  split at hread
  · cases hread
  · split at hread
    · cases hread
      exact Line.oneLine_malformed hline
    · next read hr =>
      obtain ⟨item, hi, rfl⟩ := Option.map_eq_some_iff.mp hread
      obtain ⟨hkey, hvalue⟩ := Entry.oneLine_of_read hline hr
      exact Entry.oneLine_item? hline hkey hvalue hi

/-! ## Documents -/

namespace Document

theorem oneLine_of_mem_textLines {text line : Text} (h : line ∈ textLines text) : OneLine line := fun hm => by
  simpa using forall_of_mem_splitOnP h '\n' hm

theorem oneLine_of_mem_readNodes {options : Options} {start : Nat} {lines : List Text}
    (hlines : ∀ line ∈ lines, OneLine line) :
    ∀ node ∈ readNodes options start lines, ∀ rule ∈ node.content.rule?, rule.OneLine := by
  intro node hnode rule hr
  have hkept : ∀ line ∈ node.lines, OneLine line := by
    intro line hl
    refine hlines line ?_
    rw [← flatMap_lines_readNodes options start lines]
    exact List.mem_flatMap.mpr ⟨node, hnode, hl⟩
  rcases mem_readNodes hnode with ⟨index, line, _, rfl⟩ | ⟨index, line, subject, _, rfl⟩ |
    ⟨subject, index, opening, body, closing, _, rfl⟩
  · rw [Node.content_ofLine, Content.ofLine] at hr
    split at hr
    · cases hr
    · next hread =>
      cases hr
      exact Line.oneLine_of_read? (hkept line (by simp)) hread
  · cases hr
  · cases hr
    intro item hi
    obtain ⟨entry, he, rfl⟩ := List.mem_map.mp hi
    refine Block.oneLine_of_mem_readBody (fun l hl => hkept l ?_) entry he
    exact List.mem_append_left _ (List.mem_cons_of_mem _ hl)

/-- **What is read from a text has no newline.** -/
theorem oneLine_of_mem_rules {options : Options} {text : Text} {rule : Rule} (h : rule ∈ (read options text).rules) :
    rule.OneLine := by
  obtain ⟨node, hn, hr⟩ := List.mem_filterMap.mp h
  exact oneLine_of_mem_readNodes (fun line => oneLine_of_mem_textLines) node hn rule hr

end Document

/-! ## Written rules -/

theorem Item.oneLine_writtenKey (subject : Subject) {item : Item} (h : item.OneLine) :
    Text.OneLine (item.writtenKey subject) := by
  have hmark : Text.OneLine Fragment.conditionMark := by decide
  have hnamespace : Text.OneLine Item.namespaceKey := by decide
  unfold Item.writtenKey
  split <;> simp [oneLine_append_iff, h.1, hmark, hnamespace]

theorem Item.oneLine_writtenValue? (subject : Subject) {item : Item} (h : item.OneLine) :
    ∀ value ∈ item.writtenValue? subject, Text.OneLine value := by
  intro value hvalue
  unfold Item.writtenValue? at hvalue
  split at hvalue <;> cases hvalue
  · exact h.1
  · exact h.2

theorem Item.oneLine_blockLine (subject : Subject) {item : Item} (h : item.OneLine) :
    Text.OneLine (item.blockLine subject) := by
  have hkey := item.oneLine_writtenKey subject h
  have hspaces : Text.OneLine (' ' :: ' ' :: item.writtenKey subject) :=
    oneLine_cons_iff.mpr ⟨by decide, oneLine_cons_iff.mpr ⟨by decide, hkey⟩⟩
  unfold Item.blockLine
  refine oneLine_append_iff.mpr ⟨hspaces, ?_⟩
  split
  · exact oneLine_nil
  · next value hvalue =>
    have hequals : Text.OneLine [' ', '=', ' '] := by decide
    exact oneLine_append_iff.mpr ⟨hequals, item.oneLine_writtenValue? subject h value hvalue⟩

theorem Item.oneLine_inlineFragment (subject : Subject) {item : Item} (h : item.OneLine) :
    Text.OneLine (item.inlineFragment subject) := by
  have hkey := item.oneLine_writtenKey subject h
  unfold Item.inlineFragment
  split
  · split
    · exact h.1
    · exact hkey
  · next value hvalue =>
    exact oneLine_append_iff.mpr ⟨hkey, oneLine_cons_iff.mpr ⟨by decide, item.oneLine_writtenValue? subject h value hvalue⟩⟩

theorem oneLine_inlineText {rule : Rule} (h : rule.OneLine) : OneLine rule.inlineText := by
  have hkeyword : OneLine rule.subject.keyword := by cases rule.subject <;> decide
  have hitems : OneLine ([',', ' '].intercalate (rule.writtenItems.map (Item.inlineFragment rule.subject))) := by
    refine oneLine_intercalate (by decide) fun part hp => ?_
    obtain ⟨item, hi, rfl⟩ := List.mem_map.mp hp
    exact item.oneLine_inlineFragment rule.subject (h item (Rule.mem_writtenItems_iff.mp hi).1)
  have hequals : OneLine " = ".toList := by decide
  exact oneLine_append_iff.mpr ⟨oneLine_append_iff.mpr ⟨hkeyword, hequals⟩, hitems⟩

end WindowRules

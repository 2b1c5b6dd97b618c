import WindowRules.Proofs.Geometry.Separators
import WindowRules.Proofs.Reading.Fragments
import WindowRules.Proofs.Reading.Recognition

/-!
# Values for blocks and for lines

What is kept as a value for blocks is what is kept for lines with its commas bare (`Item.SameValue`), except in the
fragments that are discordant (`Fragment.Discordant`): a selector for two keys takes its words as they stand, so that an
escaped comma stays escaped in a block, and a coordinate that ends with a backslash loses it in a block where a separator
follows (`values_correspond_iff`).

Each reader has a lemma of its own, as for what both dialects recognise alike.
-/

namespace WindowRules

open Text

/-- The value for a block is the value for a line with its commas bare. -/
def Item.SameValue (forBlock forLine : Item) : Prop := forBlock.value = Comma.unescape forLine.value

/-- The items of the rule, if there is one. -/
def Content.items (content : Content) : List Item := content.rule?.elim [] Rule.items

/-- The fragment is a selector for two keys with an escaped comma in one of the two words, or a move that keeps the window
on the monitor and has a coordinate with a backslash at its end. -/
inductive Fragment.Discordant : Text → Prop
  | pair {key value first second word : Text} (isKey : IsSelectorKey key) (pair : Keys.selectorKey key = .pair first second)
      (mem : word ∈ (words value).take 2) (escaped : ['\\', ','] <:+: word) : Discordant (key ++ ':' :: value)
  | move {s word coordinate : Text} {arguments : List Text} (words : words s = word :: arguments)
      (move : Keys.flagKey word = "move".toList) (onscreen : Position.onscreenWord ∈ arguments)
      (mem : coordinate ∈ Position.coordinates arguments) (back : coordinate.getLast? = some '\\') : Discordant s

namespace Item

instance (item other : Item) : Decidable (SameValue item other) :=
  inferInstanceAs (Decidable (item.value = Comma.unescape other.value))

/-- An encoded value is the same for both dialects. -/
theorem sameValue_encode {item other : Item} {value : Text} (h : item.value = Dialect.block.encode value)
    (h' : other.value = Dialect.inline.encode value) : item.SameValue other := by
  rw [SameValue, h, h']
  exact (Comma.unescape_escape value).symm

theorem sameValue_of_eq {item other : Item} {value : Text} (h : item.value = value) (h' : other.value = value)
    (hvalue : '\\' ∉ value) : item.SameValue other := by
  rw [SameValue, h, h', Comma.unescape_eq_self_of_not_mem hvalue]

theorem sameValue_malformed (s t : Text) : (malformed s).SameValue (malformed t) := rfl

end Item

namespace Fragment

/-- A flag has the same value for both dialects exactly if its arguments have. -/
theorem sameValue_flag_iff {key value other : Text} (hnil : value = [] ↔ other = []) :
    (flag .block key value).SameValue (flag .inline key other) ↔ Comma.unescape value = Comma.unescape other := by
  have hdefault : '\\' ∉ Keys.defaultValue key := by
    rcases Keys.defaultValue_cases key with h | h <;> rw [h] <;> decide
  unfold flag
  by_cases hvalue : value = []
  · have hother := hnil.mp hvalue
    rw [if_pos hvalue, if_pos hother, hvalue, hother]
    exact iff_of_true (Item.sameValue_of_eq rfl rfl hdefault) rfl
  · rw [if_neg hvalue, if_neg (mt hnil.mpr hvalue), Item.SameValue]
    exact Iff.of_eq (congrArg _ (Comma.unescape_escape other))

theorem sameValue_flag (key value : Text) : (flag .block key value).SameValue (flag .inline key value) :=
  (sameValue_flag_iff Iff.rfl).mpr rfl

theorem sameValue_plainFlag (s : Text) : (plainFlag .block s).SameValue (plainFlag .inline s) := sameValue_flag _ _

/-- **A flag of a window has the same value for both dialects** unless it is a discordant move. -/
theorem sameValue_windowFlag_iff {s word : Text} {arguments : List Text} (h : words s = word :: arguments) :
    (windowFlag .block s).SameValue (windowFlag .inline s) ↔ ¬(Keys.flagKey word = "move".toList ∧
      Position.onscreenWord ∈ arguments ∧ ∃ c ∈ Position.coordinates arguments, c.getLast? = some '\\') := by
  by_cases hmove : Keys.flagKey word = "move".toList
  · have hblank : ∀ argument ∈ arguments, ∀ c ∈ argument, isBlank c = false := fun argument ha =>
      not_isBlank_of_mem_words (h ▸ List.mem_cons_of_mem word ha)
    have hnil := (Position.spaced_read_eq_nil_iff .block hblank).trans (Position.spaced_read_eq_nil_iff .inline hblank).symm
    rw [windowFlag_of_move h .block hmove, windowFlag_of_move h .inline hmove, sameValue_flag_iff hnil,
      Position.unescape_read_eq_iff hblank, and_iff_right hmove]
  · refine iff_of_true ?_ fun hall => hmove hall.1
    by_cases hsize : Keys.flagKey word = "size".toList
    · rw [windowFlag_of_size h .block hsize, windowFlag_of_size h .inline hsize]
      exact sameValue_flag _ _
    · rw [windowFlag_of_plain h .block hsize hmove, windowFlag_of_plain h .inline hsize hmove]
      exact sameValue_flag _ _

theorem sameValue_condition (fragment s : Text) :
    (condition .block fragment s).SameValue (condition .inline fragment s) := by
  unfold condition
  split <;> split
  · exact Item.sameValue_malformed _ _
  · exact Item.sameValue_encode rfl rfl
  · exact Item.sameValue_malformed _ _
  · exact Item.sameValue_of_eq rfl rfl List.not_mem_nil

/-- A selector for one key has the same value for both dialects, and one for two keys has if no comma of its words is
escaped. -/
theorem sameValue_selector_iff (key value : Text) :
    List.Forall₂ Item.SameValue (selector .block key value).toList (selector .inline key value).toList ↔
      ∀ first second, Keys.selectorKey key = .pair first second → ∀ word ∈ (words value).take 2, ¬['\\', ','] <:+: word := by
  unfold selector
  cases Keys.selectorKey key with
  | single newer => exact iff_of_true (.cons (Item.sameValue_encode rfl rfl) .nil) nofun
  | pair first second =>
    have hmissing : ¬['\\', ','] <:+: Keys.missingHalf := by decide
    have hsame : ∀ {key half}, (Item.selector key half).SameValue (.selector key half) ↔ ¬['\\', ','] <:+: half := by
      intro key half
      rw [← Comma.unescape_eq_self_iff]
      exact eq_comm
    have hpair : (∀ newer other, Keys.SelectorKey.pair first second = .pair newer other →
        ∀ word ∈ (words value).take 2, ¬['\\', ','] <:+: word) ↔
        ∀ word ∈ (words value).take 2, ¬['\\', ','] <:+: word := ⟨fun h => h first second rfl, fun h _ _ _ => h⟩
    simp only [Reading.toList, hpair, List.forall₂_cons, hsame, List.Forall₂.nil, and_true]
    rcases words value with _ | ⟨word, _ | ⟨next, others⟩⟩
    · simp [hmissing]
    · simp [hmissing]
    · simp

theorem Discordant.not_sameValue {s : Text} (h : Discordant s) (htrim : trim s = s) :
    ¬List.Forall₂ Item.SameValue (read .block s).toList (read .inline s).toList := by
  intro hall
  cases h with
  | @pair key value first second word isKey pair mem escaped =>
    rw [isKey.read htrim, isKey.read htrim, sameValue_selector_iff, words_trim] at hall
    exact hall first second pair word mem escaped
  | @move s word coordinate arguments hwords move onscreen mem back =>
    rw [read_of_flagKey hwords (Or.inr move), read_of_flagKey hwords (Or.inr move)] at hall
    obtain ⟨hsame, -⟩ := List.forall₂_cons.mp hall
    exact (sameValue_windowFlag_iff hwords).mp hsame ⟨move, onscreen, coordinate, mem, back⟩

/-- **The values of a fragment correspond exactly if it is not discordant.** -/
theorem sameValue_read_iff {s : Text} (hne : s ≠ []) (htrim : trim s = s) :
    List.Forall₂ Item.SameValue (read .block s).toList (read .inline s).toList ↔ ¬Discordant s := by
  refine ⟨fun hall h => h.not_sameValue htrim hall, fun h => ?_⟩
  have hsingle : ∀ {item other : Item}, item.SameValue other →
      List.Forall₂ Item.SameValue (Reading.single item).toList (Reading.single other).toList := fun h => .cons h .nil
  cases shape_of_trim hne htrim with
  | predicate dollar =>
    rw [read_of_dollar htrim dollar, read_of_dollar htrim dollar]
    exact hsingle (Item.sameValue_of_eq rfl rfl List.not_mem_nil)
  | condition rest =>
    rw [read_of_mark htrim, read_of_mark htrim]
    exact hsingle (sameValue_condition _ _)
  | @selector key isKey value =>
    rw [isKey.read htrim, isKey.read htrim, sameValue_selector_iff, words_trim]
    exact fun first second pair word mem escaped => h (.pair isKey pair mem escaped)
  | @flag s word arguments hwords colon dollar =>
    rw [read_of_words hwords colon dollar, read_of_words hwords colon dollar]
    refine hsingle ((sameValue_windowFlag_iff hwords).mpr ?_)
    rintro ⟨move, onscreen, coordinate, mem, back⟩
    exact h (.move hwords move onscreen mem back)

end Fragment

/-! ## Layer rules and blocks -/

namespace Line

theorem sameValue_namespaceSelector (name other : Text) :
    (namespaceSelector .block name).SameValue (namespaceSelector .inline other) :=
  Item.sameValue_of_eq rfl rfl (show '\\' ∉ Keys.enabled by decide)

theorem sameValue_newerLayerItem (fragment : Text) :
    (newerLayerItem .block fragment).SameValue (newerLayerItem .inline fragment) := by
  unfold newerLayerItem
  split
  · exact Item.sameValue_malformed _ _
  · split
    · exact Fragment.sameValue_plainFlag _
    · split
      · exact Item.sameValue_malformed _ _
      · split
        · exact Item.sameValue_malformed _ _
        · exact sameValue_namespaceSelector _ _

theorem sameValue_items_layer (fragments : List Text) :
    List.Forall₂ Item.SameValue (items .block .layer fragments) (items .inline .layer fragments) := by
  simp only [items]
  split
  · rw [List.forall₂_map_left_iff, List.forall₂_map_right_iff, List.forall₂_same]
    exact fun fragment _ => sameValue_newerLayerItem fragment
  · cases fragments with
    | nil => exact .nil
    | cons effect names =>
      refine .cons ?_ ?_
      · split
        · exact Item.sameValue_malformed _ _
        · exact Fragment.sameValue_plainFlag _
      · rw [List.forall₂_map_left_iff, List.forall₂_map_right_iff, List.forall₂_same]
        intro name _
        split
        · exact Item.sameValue_malformed _ _
        · exact sameValue_namespaceSelector _ _

end Line

/-- The item of an entry has the same value for both dialects. -/
theorem Entry.sameValue_item? (subject : Subject) (line : Text) (entry : Entry) :
    Option.Rel Item.SameValue (entry.item? .block subject line) (entry.item? .inline subject line) := by
  unfold Entry.item?
  split
  · exact .none
  · refine .some ?_
    split
    · exact Fragment.sameValue_flag _ _
    · exact Item.sameValue_malformed _ _
    · split
      · exact Item.sameValue_of_eq rfl rfl List.not_mem_nil
      · exact Item.sameValue_malformed _ _
      · exact Item.sameValue_encode rfl rfl
      · exact Line.sameValue_namespaceSelector _ _

theorem Block.sameValue_item? (subject : Subject) (line : Text) :
    Option.Rel Item.SameValue (item? .block subject line) (item? .inline subject line) := by
  simp only [item?, readLine?]
  split
  · exact .none
  · split
    · exact .some (Item.sameValue_malformed _ _)
    · next entry _ =>
      have hitem := entry.sameValue_item? subject (trim line)
      generalize entry.item? .block subject (trim line) = item? at hitem ⊢
      generalize entry.item? .inline subject (trim line) = other? at hitem ⊢
      cases hitem with
      | none => exact .none
      | some hsame => exact .some hsame

/-! ## Texts -/

theorem forall₂_append_iff {α β : Type} {R : α → β → Prop} {items items' : List α} {others others' : List β}
    (h : items.length = others.length) :
    List.Forall₂ R (items ++ items') (others ++ others') ↔ List.Forall₂ R items others ∧ List.Forall₂ R items' others' := by
  induction items generalizing others with
  | nil =>
    obtain rfl := List.length_eq_zero_iff.mp h.symm
    simp
  | cons item items ih =>
    cases others with
    | nil => cases h
    | cons other others => simp [ih (by simpa using h), and_assoc]

/-- The items of several fragments correspond exactly if those of each fragment do. -/
theorem Fragment.sameValue_flatMap_iff (fragments : List Text) :
    List.Forall₂ Item.SameValue (fragments.flatMap fun s => (read .block s).toList)
        (fragments.flatMap fun s => (read .inline s).toList) ↔
      ∀ s ∈ fragments, List.Forall₂ Item.SameValue (read .block s).toList (read .inline s).toList := by
  induction fragments with
  | nil => simp
  | cons s fragments ih =>
    rw [List.flatMap_cons, List.flatMap_cons, forall₂_append_iff (alike_read .window s).length_eq, ih,
      List.forall_mem_cons]

/-- The values of a rule on one line correspond exactly if no fragment of it is discordant. -/
theorem Line.sameValue_items_iff {line : Text} {rule other : Rule} (hblock : Line.read? .block line = some rule)
    (hinline : Line.read? .inline line = some other) :
    List.Forall₂ Item.SameValue rule.items other.items ↔
      ∀ fragment ∈ (Content.lineRule rule line).windowFragments, ¬Fragment.Discordant fragment := by
  have halike := Line.alike_read? line
  rw [hblock, hinline, Option.rel_some_some] at halike
  have hsubject := halike.subject
  obtain ⟨subject, items⟩ := rule
  obtain ⟨subject', others⟩ := other
  cases hsubject
  cases subject with
  | window =>
    have hitems := Content.items_of_windowFragments hblock
    have hothers := Content.items_of_windowFragments hinline
    have hfragments : (Content.lineRule ⟨.window, others⟩ line).windowFragments =
        (Content.lineRule ⟨.window, items⟩ line).windowFragments := rfl
    rw [hfragments] at hothers
    generalize hall : (Content.lineRule ⟨.window, items⟩ line).windowFragments = fragments at hitems hothers ⊢
    rw [hitems, hothers, Fragment.sameValue_flatMap_iff]
    refine forall₂_congr fun fragment hf => ?_
    rw [← hall] at hf
    exact Fragment.sameValue_read_iff (Content.ne_nil_of_mem_windowFragments hf)
      (Content.trim_of_mem_windowFragments hf)
  | layer =>
    refine iff_of_true ?_ (by simp [Content.windowFragments])
    obtain ⟨parts, hparts, hitems⟩ := Line.items_of_read? hblock
    obtain ⟨parts', hparts', hothers⟩ := Line.items_of_read? hinline
    rw [hparts, Option.some.injEq] at hparts'
    simp only [Rule.mk.injEq, true_and] at hitems hothers
    rw [hitems, hothers, hparts']
    exact Line.sameValue_items_layer _

/-- **Where the values of the two dialects correspond.** A text is read for blocks and for lines into nodes that are alike
one by one. In each of them every value for blocks is the value for lines in the same place with its commas bare, exactly
if no fragment of the node is discordant. So it is in every layer rule and in every block; a window rule on one line is
the exception if it has a selector for two keys with an escaped comma in one of the two words, or a move that keeps the
window on the monitor and has a coordinate with a backslash at its end. -/
theorem values_correspond_iff (options : Options) (text : Text) :
    List.Forall₂ (fun forBlock forLine => forBlock.Alike forLine ∧
        (List.Forall₂ Item.SameValue forBlock.content.items forLine.content.items ↔
          ∀ fragment ∈ forBlock.content.windowFragments, ¬Fragment.Discordant fragment))
      (Document.read { options with dialect := .block } text).nodes
      (Document.read { options with dialect := .inline } text).nodes := by
  refine Document.forall₂_readNodes (fun start line => ⟨Node.alike_ofLine start line, ?_⟩)
    (fun _ line => ⟨⟨rfl, .verbatim line, rfl⟩, ?_⟩)
    (fun subject start opening body closing => ⟨Node.alike_ofBlock subject start opening body closing, ?_⟩)
    options 0 (Document.textLines text)
  · have hread := Line.alike_read? line
    rw [Node.content_ofLine, Node.content_ofLine, Content.ofLine, Content.ofLine]
    cases hblock : Line.read? .block line with
    | none =>
      cases hinline : Line.read? .inline line with
      | none => simp [Content.items, Content.rule?, Content.windowFragments]
      | some other =>
        rw [hblock, hinline] at hread
        cases hread
    | some rule =>
      cases hinline : Line.read? .inline line with
      | none =>
        rw [hblock, hinline] at hread
        cases hread
      | some other => exact Line.sameValue_items_iff hblock hinline
  · simp [Node.ofUnterminated, Content.items, Content.rule?, Content.windowFragments]
  · rw [Node.content_ofBlock, Node.content_ofBlock]
    refine iff_of_true ?_ (by simp [Content.windowFragments])
    refine List.rel_filterMap ?_ (List.forall₂_same.mpr fun _ _ => rfl)
    rintro line _ rfl
    exact Block.sameValue_item? subject line

/-- An escaped comma in the words of a selector for two keys, and a backslash before the separator of a block. -/
theorem not_values_correspond :
    (¬∀ (options : Options) (text : Text), List.Forall₂ (fun forBlock forLine =>
        List.Forall₂ Item.SameValue forBlock.content.items forLine.content.items)
      (Document.read { options with dialect := .block } text).nodes
      (Document.read { options with dialect := .inline } text).nodes) ∧
      (∀ dialect, Line.read? dialect "windowrule = fullscreenstate:1\\,2".toList = some ⟨.window,
        [.selector "fullscreen_state_internal".toList "1\\,2".toList, .selector "fullscreen_state_client".toList ['0']]⟩) ∧
      Line.read? .block "windowrule = move onscreen 10\\".toList = some ⟨.window,
        [.flag "move".toList "(min(max(10,0),monitor_w-window_w))".toList]⟩ ∧
      Line.read? .inline "windowrule = move onscreen 10\\".toList = some ⟨.window,
        [.flag "move".toList "(min(max(10\\\\,0)\\,monitor_w-window_w))".toList]⟩ := by
  have hread : ∀ dialect, Line.read? dialect "windowrule = fullscreenstate:1\\,2".toList = some ⟨.window,
      [.selector "fullscreen_state_internal".toList "1\\,2".toList,
        .selector "fullscreen_state_client".toList ['0']]⟩ := by
    intro dialect
    cases dialect <;> decide +kernel
  have hmove : Line.read? .block "windowrule = move onscreen 10\\".toList = some ⟨.window,
        [.flag "move".toList "(min(max(10,0),monitor_w-window_w))".toList]⟩ ∧
      Line.read? .inline "windowrule = move onscreen 10\\".toList = some ⟨.window,
        [.flag "move".toList "(min(max(10\\\\,0)\\,monitor_w-window_w))".toList]⟩ := by decide +kernel
  refine ⟨fun hall => ?_, hread, hmove⟩
  have hnodes : ∀ dialect, (Document.read { dialect } "windowrule = fullscreenstate:1\\,2".toList).nodes =
      [.ofLine dialect 0 "windowrule = fullscreenstate:1\\,2".toList] := fun dialect =>
    Document.nodes_of_line (by decide) (by cases dialect <;> decide)
  have hsame := hall {} "windowrule = fullscreenstate:1\\,2".toList
  rw [hnodes, hnodes, List.forall₂_cons, Node.content_ofLine, Node.content_ofLine, Content.ofLine, Content.ofLine, hread,
    hread] at hsame
  exact absurd hsame.1 (by decide)

end WindowRules

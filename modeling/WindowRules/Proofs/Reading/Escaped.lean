import WindowRules.Proofs.Encoding.Fragments
import WindowRules.Proofs.Reading.Dialects

/-!
# Commas of what is read for a line

A reader that keeps its values for lines writes each comma of a value behind a backslash, wherever the value stood. The
keys are not written so: a key from a line is a piece of a fragment, in which every comma has its backslash anyway, but a
key from a block stands there as it was (`escaped_of_mem_nodes`).

Each reader has a lemma of its own. They follow the pieces of an escaped fragment: what is behind a backslash is never
cut off from it, and the lowercase form of a text has the commas of the text (`escaped_lower`).
-/

namespace WindowRules

open Text Comma

/-- Every comma of the key and of the value has its backslash. -/
structure Item.Escaped (item : Item) : Prop where
  key : Comma.Escaped item.key
  value : Comma.Escaped item.value

namespace Comma

/-- The lowercase form of an escaped text is escaped. -/
theorem escaped_lower {s : Text} (h : Escaped s) : Escaped (lower s) := by
  have hfrom : ∀ before : Text, Escaped (lowerFrom before s) := by
    unfold Escaped at h
    fun_induction escape s with
    | case1 => exact fun _ => escaped_nil
    | case2 s ih =>
      intro before
      have hrest := ih (by simpa using h) (',' :: '\\' :: before)
      have hlower : lowerFrom before ('\\' :: ',' :: s) = '\\' :: ',' :: lowerFrom (',' :: '\\' :: before) s := rfl
      rw [hlower, Escaped, escape, hrest]
    | case3 s ih => cases h
    | case4 c s hback hcomma ih =>
      intro before
      have hc : Escaped (if c = 'Σ' then [if endsWord before s then 'ς' else 'σ'] else lowerChar c) := by
        split
        · split <;> decide
        · exact escape_eq_self_of_not_mem (not_mem_lowerChar (by decide) (by decide) hcomma)
      exact hc.append (ih (List.cons.inj h).2 (c :: before))
  exact hfrom []

end Comma

namespace Keys

theorem escaped_flagKey {key : Text} (h : Comma.Escaped key) : Comma.Escaped (flagKey key) := by
  rcases flagKey_cases key with ⟨entry, he, hkey⟩ | ⟨-, hkey⟩
  · rw [hkey]
    exact Comma.escape_eq_self_of_not_mem ((isIdentifier_flagTable entry he).1.not_mem (by decide))
  · rw [hkey]
    exact Comma.escaped_lower h

theorem escaped_selectorKey {key : Text} (h : Comma.Escaped key) : ∀ k ∈ (selectorKey key).keys, Comma.Escaped k := by
  intro k hk
  rcases isIdentifier_or_eq_of_mem_keys hk with hnewer | rfl
  · exact Comma.escape_eq_self_of_not_mem (hnewer.not_mem (by decide))
  · exact h

end Keys

/-! ## Fragments of window rules -/

namespace Fragment

@[simp] theorem key_flag (dialect : Dialect) (key value : Text) : (flag dialect key value).key = key := by
  unfold flag
  split <;> rfl

/-- The value of a flag is escaped, whatever it was. -/
theorem escaped_value_flag (key value : Text) : Comma.Escaped (flag .inline key value).value := by
  unfold flag
  split
  · exact Keys.escape_defaultValue key
  · exact escaped_escape value

theorem escaped_flag {key : Text} (value : Text) (h : Comma.Escaped key) : (flag .inline key value).Escaped :=
  ⟨by rwa [key_flag], escaped_value_flag key value⟩

theorem escaped_headD_words {s : Text} (h : Comma.Escaped s) : Comma.Escaped ((words s).headD []) := by
  cases hw : words s with
  | nil => exact escaped_nil
  | cons word others =>
    have hm : word ∈ words s := by rw [hw]; exact List.mem_cons_self
    exact h.of_mem_words hm

theorem escaped_plainFlag {s : Text} (h : Comma.Escaped s) : (plainFlag .inline s).Escaped :=
  escaped_flag _ (Keys.escaped_flagKey (escaped_headD_words h))

theorem escaped_windowFlag {s : Text} (h : Comma.Escaped s) : (windowFlag .inline s).Escaped := by
  have hkey := Keys.escaped_flagKey (escaped_headD_words h)
  unfold windowFlag
  simp only
  split
  · refine escaped_flag _ ?_
    cases (Size.read (words s).tail).bound <;> decide
  · split <;> exact escaped_flag _ hkey

theorem escaped_selector {key value : Text} (hk : Comma.Escaped key) (hv : Comma.Escaped value) :
    ∀ item ∈ (selector .inline key value).toList, item.Escaped := by
  have hkeys := Keys.escaped_selectorKey hk
  -- the halves of a pair are words of the value as it stands
  have hhalf : ∀ n : Nat, Comma.Escaped ((words value)[n]?.getD Keys.missingHalf) := by
    intro n
    cases hn : (words value)[n]? with
    | none => decide
    | some word => exact hv.of_mem_words (List.mem_of_getElem? hn)
  unfold selector
  cases hs : Keys.selectorKey key with
  | single newer =>
    rw [hs] at hkeys
    intro item hi
    rw [List.mem_singleton.mp hi]
    exact ⟨hkeys newer List.mem_cons_self, escaped_escape value⟩
  | pair first second =>
    rw [hs] at hkeys
    intro item hi
    rcases List.mem_cons.mp hi with rfl | hi
    · exact ⟨hkeys first (by simp [Keys.SelectorKey.keys]), hhalf 0⟩
    · rw [List.mem_singleton.mp hi]
      exact ⟨hkeys second (by simp [Keys.SelectorKey.keys]), hhalf 1⟩

theorem escaped_condition {fragment s : Text} (hf : Comma.Escaped fragment) (hs : Comma.Escaped s) :
    (condition .inline fragment s).Escaped := by
  unfold condition
  cases hc : cutAt? isBlank s with
  | none =>
    simp only
    split
    · exact ⟨hf, escaped_nil⟩
    · exact ⟨hs, escaped_nil⟩
  | some sides =>
    simp only
    split
    · exact ⟨hf, escaped_nil⟩
    · exact ⟨(hs.of_cutAt? (by decide) hc).1, escaped_escape _⟩

theorem escaped_stripPrefix? {s rest : Text} (h : Comma.Escaped s) (hr : stripPrefix? conditionMark s = some rest) :
    Comma.Escaped rest := by
  rw [stripPrefix?_eq_some_iff.mp hr] at h
  exact h.of_append_right (by decide)

/-- The items of an escaped fragment are escaped. -/
theorem escaped_read {fragment : Text} (h : Comma.Escaped fragment) :
    ∀ item ∈ (read .inline fragment).toList, item.Escaped := by
  have hs : Comma.Escaped (trim fragment) := h.trim
  have hsingle : ∀ {item : Item}, item.Escaped → ∀ other ∈ (Reading.single item).toList, other.Escaped := by
    intro item hi other ho
    rwa [List.mem_singleton.mp ho]
  unfold read
  simp only
  split
  · exact hsingle ⟨hs, escaped_nil⟩
  · split
    · exact hsingle ⟨hs, escaped_nil⟩
    · split
      · next rest hr => exact hsingle (escaped_condition hs (escaped_stripPrefix? hs hr))
      · split
        · next key value hc =>
          obtain ⟨hkey, hvalue⟩ := hs.of_cutAt? (by decide) hc
          split
          · exact hsingle (escaped_windowFlag hs)
          · exact escaped_selector hkey hvalue.trim
        · exact hsingle (escaped_windowFlag hs)

end Fragment

/-! ## Lines -/

namespace Line

theorem escaped_namespaceSelector (name : Text) : (namespaceSelector .inline name).Escaped :=
  ⟨escaped_escape name, show Comma.Escaped Keys.enabled by decide⟩

theorem escaped_newerLayerItem {fragment : Text} (h : Comma.Escaped fragment) :
    (newerLayerItem .inline fragment).Escaped := by
  unfold newerLayerItem
  split
  · exact ⟨h, escaped_nil⟩
  · split
    · exact Fragment.escaped_plainFlag h
    · split
      · exact ⟨h, escaped_nil⟩
      · split
        · exact ⟨h, escaped_nil⟩
        · exact escaped_namespaceSelector _

theorem escaped_olderLayerItems {fragments : List Text} (h : ∀ s ∈ fragments, Comma.Escaped s) :
    ∀ item ∈ olderLayerItems .inline fragments, item.Escaped := by
  cases fragments with
  | nil => simp [olderLayerItems]
  | cons effect names =>
    intro item hi
    rcases List.mem_cons.mp hi with rfl | hi
    · have heffect := h effect List.mem_cons_self
      split
      · exact ⟨heffect, escaped_nil⟩
      · exact Fragment.escaped_plainFlag heffect
    · obtain ⟨name, hn, rfl⟩ := List.mem_map.mp hi
      split
      · exact ⟨h name (List.mem_cons_of_mem _ hn), escaped_nil⟩
      · exact escaped_namespaceSelector name

theorem escaped_items (subject : Subject) {fragments : List Text} (h : ∀ s ∈ fragments, Comma.Escaped s) :
    ∀ item ∈ items .inline subject fragments, item.Escaped := by
  cases subject with
  | window =>
    intro item hi
    obtain ⟨fragment, hf, hi⟩ := List.mem_flatMap.mp hi
    exact Fragment.escaped_read (h fragment (List.mem_filter.mp hf).1) item hi
  | layer =>
    simp only [items]
    split
    · intro item hi
      obtain ⟨fragment, hf, rfl⟩ := List.mem_map.mp hi
      exact escaped_newerLayerItem (h fragment hf)
    · exact escaped_olderLayerItems h

/-- **The items of a rule from a line are escaped**, since its fragments are. -/
theorem escaped_of_read? {line : Text} {rule : Rule} (h : read? .inline line = some rule) :
    ∀ item ∈ rule.items, item.Escaped := by
  simp only [read?, parts?, Option.bind_eq_bind, Option.bind_eq_some_iff, Option.map_eq_some_iff, Prod.exists] at h
  obtain ⟨head, fragments, ⟨before, after, _, he⟩, subject, _, hrule⟩ := h
  cases he
  cases hrule
  refine escaped_items subject fun s hs => ?_
  obtain ⟨fragment, hf, rfl⟩ := List.mem_map.mp hs
  exact (escaped_of_mem_split hf).trim

end Line

/-! ## Blocks -/

theorem Entry.escaped_value_of_item? {subject : Subject} {line : Text} {entry : Entry} {item : Item}
    (h : entry.item? .inline subject line = some item) : Comma.Escaped item.value := by
  unfold Entry.item? at h
  split at h
  · cases h
  · cases h
    split
    · exact Fragment.escaped_value_flag _ _
    · exact escaped_nil
    · split
      · exact escaped_nil
      · exact escaped_nil
      · exact escaped_escape _
      · exact (Line.escaped_namespaceSelector _).value

/-- The values of a block are escaped. -/
theorem Block.escaped_value_of_item? {subject : Subject} {line : Text} {item : Item}
    (h : item? .inline subject line = some item) : Comma.Escaped item.value := by
  simp only [item?, readLine?] at h
  split at h
  · cases h
  · split at h
    · cases h
      exact escaped_nil
    · rw [Option.map_map] at h
      obtain ⟨read, hread, rfl⟩ := Option.map_eq_some_iff.mp h
      exact Entry.escaped_value_of_item? hread

/-! ## Documents -/

namespace Document

variable {options : Options} (hinline : options.dialect = .inline) {text : Text}

include hinline

/-- **The values that are read for lines are escaped, and so are the keys**, unless they come from a block. -/
theorem escaped_of_mem_nodes {node : Node} (hnode : node ∈ (read options text).nodes) {rule : Rule}
    (hrule : node.content.rule? = some rule) {item : Item} (hi : item ∈ rule.items) :
    Comma.Escaped item.value ∧ (node.content.isBlock = false → Comma.Escaped item.key) := by
  rcases mem_readNodes hnode with ⟨index, line, _, rfl⟩ | ⟨index, line, subject, _, rfl⟩ |
    ⟨subject, index, opening, body, closing, _, rfl⟩
  · rw [Node.content_ofLine, Content.ofLine, hinline] at hrule
    split at hrule
    · cases hrule
    · next hread =>
      cases hrule
      have hitem := Line.escaped_of_read? hread item hi
      exact ⟨hitem.value, fun _ => hitem.key⟩
  · cases hrule
  · rw [Node.content_ofBlock, hinline] at hrule
    cases hrule
    obtain ⟨line, _, hline⟩ := List.mem_filterMap.mp hi
    refine ⟨Block.escaped_value_of_item? hline, fun hblock => ?_⟩
    rw [Node.content_ofBlock] at hblock
    cases hblock

end Document

end WindowRules

import WindowRules.Line
import WindowRules.Proofs.Merging.Grouping
import Mathlib.Algebra.GroupWithZero.Nat

/-!
# Which conditions a signature tells apart

A signature is the text of the conditions of a rule, joined with bars. Rules with the same conditions have the same
signature (`signature_eq_of_perm`), but the colons and bars of keys and values are written as they stand, so different
conditions can have the same signature, too: `class` asked to be `a|title:b` and `class` asked to be `a` together with
`title` asked to be `b` are both written `class:a|title:b`.

* The signature of a rule is shared by no rule with other conditions exactly if the rule has no condition, or one
  condition with a value and without any colon (`told_by_signature_iff`): two conditions are always written like one.
* Between rules whose keys have neither mark and whose values have no colon behind a bar, or whose values have neither
  mark and whose keys have no colon, the signature tells the conditions (`signature_eq_iff_perm`). Proof: the first colon
  ends a key, and what follows can be cut in one way only.
-/

namespace WindowRules

namespace Rule

/-- The items that say which windows the rule is about. -/
def conditions (rule : Rule) : List Item := rule.items.filter Item.isMatcher

end Rule

namespace Item

/-- Exactly the predicates have no value. -/
def ValueFits (item : Item) : Prop := item.value = [] ↔ item.role = .predicate

/-- The key has neither mark, and no colon comes behind a bar of the value. -/
structure PlainKey (item : Item) : Prop where
  colon : ':' ∉ item.key
  bar : '|' ∉ item.key
  behind : ':' ∉ item.value.dropWhile (· != '|')

/-- The value has neither mark, and the key has no colon. -/
structure PlainValue (item : Item) : Prop where
  colon : ':' ∉ item.key
  value_colon : ':' ∉ item.value
  value_bar : '|' ∉ item.value

instance (item : Item) : Decidable item.ValueFits :=
  inferInstanceAs (Decidable (item.value = [] ↔ item.role = .predicate))

instance (item : Item) : Decidable item.PlainKey :=
  decidable_of_iff (':' ∉ item.key ∧ '|' ∉ item.key ∧ ':' ∉ item.value.dropWhile (· != '|'))
    ⟨fun ⟨colon, bar, behind⟩ => ⟨colon, bar, behind⟩, fun h => ⟨h.colon, h.bar, h.behind⟩⟩

instance (item : Item) : Decidable item.PlainValue :=
  decidable_of_iff (':' ∉ item.key ∧ ':' ∉ item.value ∧ '|' ∉ item.value)
    ⟨fun ⟨colon, value_colon, value_bar⟩ => ⟨colon, value_colon, value_bar⟩,
      fun h => ⟨h.colon, h.value_colon, h.value_bar⟩⟩

theorem PlainKey.not_mem {item : Item} (h : item.PlainKey) {before after : Text}
    (hv : item.value = before ++ '|' :: after) : ':' ∉ after := by
  have hsuffix : ∀ before : Text, ∃ between, (before ++ '|' :: after).dropWhile (· != '|') = between ++ after := by
    intro before
    induction before with
    | nil => exact ⟨['|'], by simp⟩
    | cons c before ih =>
      by_cases hc : c = '|'
      · exact ⟨c :: before ++ ['|'], by simp [hc]⟩
      · simpa [hc] using ih
  obtain ⟨between, hb⟩ := hsuffix before
  have := h.behind
  rw [hv, hb] at this
  exact fun hm => this (List.mem_append_right _ hm)

theorem isMatcher_iff {item : Item} : item.isMatcher ↔ item.isMalformed = false ∧ item.role ≠ .flag := by
  simp [isMatcher]

end Item

/-! ## Joined texts -/

namespace Text

/-- Texts with a bar in front of each. -/
def barred (texts : List Text) : Text := texts.flatMap ('|' :: ·)

theorem intercalate_bar (text : Text) (texts : List Text) :
    ['|'].intercalate (text :: texts) = text ++ barred texts := by
  induction texts generalizing text with
  | nil => simp [barred, List.intercalate]
  | cons other texts ih =>
    have h : ['|'].intercalate (text :: other :: texts) = text ++ '|' :: ['|'].intercalate (other :: texts) := by
      simp [List.intercalate, List.intersperse]
    rw [h, ih]
    simp [barred]

/-- A joined text has the colons of its parts. -/
theorem count_colon_intercalate (texts : List Text) :
    (['|'].intercalate texts).count ':' = (texts.map (List.count ':')).sum := by
  cases texts with
  | nil => rfl
  | cons text texts =>
    rw [intercalate_bar, List.count_append, List.map_cons, List.sum_cons]
    congr 1
    induction texts with
    | nil => rfl
    | cons other texts ih =>
      have h : barred (other :: texts) = '|' :: (other ++ barred texts) := rfl
      rw [h, List.count_cons, List.count_append, ih]
      simp

/-- A text is cut at its first colon in one way only. -/
theorem cut_colon {key other rest following : Text} (hk : ':' ∉ key) (ho : ':' ∉ other)
    (h : key ++ ':' :: rest = other ++ ':' :: following) : key = other ∧ rest = following := by
  have hcut : ∀ {s t : Text}, ':' ∉ s → cutAt? (· == ':') (s ++ ':' :: t) = some (s, t) := fun hs =>
    cutAt?_eq_some_iff.mpr ⟨fun c hc => by simpa using fun e : c = ':' => hs (e ▸ hc), ':', by simp, rfl⟩
  have he := hcut (t := rest) hk
  rw [h, hcut ho] at he
  simp only [Option.some.injEq, Prod.mk.injEq] at he
  exact ⟨he.1.symm, he.2.symm⟩

end Text

/-! ## Parts are told apart -/

namespace Signature

open Text

/-- What may follow a value: nothing, or a bar with the next part. -/
def Tail (plain : Item → Prop) (rest : Text) : Prop :=
  rest = [] ∨ ∃ item following, plain item ∧ rest = '|' :: (item.key ++ ':' :: following)

/-- If parts have keys without a colon and a value ends where it must, joined parts are told apart. -/
theorem barred_injective {plain : Item → Prop} (hkey : ∀ item, plain item → ':' ∉ item.key)
    (hvalue : ∀ {item other : Item} {rest following : Text}, plain item → plain other → Tail plain rest →
      Tail plain following → item.value ++ rest = other.value ++ following → item.value = other.value) :
    ∀ {parts others : List Text}, (∀ p ∈ parts, ∃ item, plain item ∧ p = part item) →
      (∀ p ∈ others, ∃ item, plain item ∧ p = part item) → barred parts = barred others → parts = others := by
  have htail : ∀ {parts : List Text}, (∀ p ∈ parts, ∃ item, plain item ∧ p = part item) →
      Tail plain (barred parts) := by
    intro parts hp
    cases parts with
    | nil => exact Or.inl rfl
    | cons p parts =>
      obtain ⟨item, hi, rfl⟩ := hp p List.mem_cons_self
      exact Or.inr ⟨item, item.value ++ barred parts, hi, by simp [barred, part]⟩
  intro parts
  induction parts with
  | nil =>
    intro others _ _ h
    cases others with
    | nil => rfl
    | cons q others => cases h
  | cons p parts ih =>
    intro others hp hq h
    cases others with
    | nil => cases h
    | cons q others =>
      obtain ⟨item, hi, rfl⟩ := hp p List.mem_cons_self
      obtain ⟨other, ho, rfl⟩ := hq q List.mem_cons_self
      have hp' := fun p hm => hp p (List.mem_cons_of_mem _ hm)
      have hq' := fun p hm => hq p (List.mem_cons_of_mem _ hm)
      have hjoin : item.key ++ ':' :: (item.value ++ barred parts) =
          other.key ++ ':' :: (other.value ++ barred others) := by simpa [barred, part] using h
      obtain ⟨hk, hrest⟩ := cut_colon (hkey _ hi) (hkey _ ho) hjoin
      have hv := hvalue hi ho (htail hp') (htail hq') hrest
      rw [hv] at hrest
      rw [ih hp' hq' (List.append_cancel_left hrest), part, part, hk, hv]

/-- A value whose bars have no colon behind them ends before the next part. -/
theorem plainKey_value {item other : Item} {rest following : Text} (hi : item.PlainKey) (ho : other.PlainKey)
    (hr : Tail Item.PlainKey rest) (hf : Tail Item.PlainKey following)
    (h : item.value ++ rest = other.value ++ following) : item.value = other.value := by
  -- a longer value would take in the next key with its colon, or cut that key at a bar
  have hlonger : ∀ {value extra rest following : Text}, Tail Item.PlainKey rest → Tail Item.PlainKey following →
      (∀ before after, value ++ extra = before ++ '|' :: after → ':' ∉ after) → rest = extra ++ following →
      extra = [] := by
    intro value extra rest following hr hf hbehind he
    cases extra with
    | nil => rfl
    | cons c extra =>
      rcases hr with rfl | ⟨next, after, hn, rfl⟩
      · cases he
      · simp only [List.cons_append, List.cons.injEq] at he
        obtain ⟨rfl, he⟩ := he
        have hno := hbehind value extra rfl
        rcases List.append_eq_append_iff.mp he with ⟨s, hs, hs'⟩ | ⟨s, hs, hs'⟩
        · cases s with
          | nil =>
            rcases hf with rfl | ⟨_, _, _, rfl⟩ <;> simp at hs'
          | cons d s =>
            simp only [List.cons_append, List.cons.injEq] at hs'
            exact absurd (by rw [hs, ← hs'.1]; simp) hno
        · cases s with
          | nil => rcases hf with rfl | ⟨_, _, _, rfl⟩ <;> simp at hs'
          | cons d s =>
            rcases hf with rfl | ⟨_, _, _, rfl⟩
            · simp at hs'
            · simp only [List.cons_append, List.cons.injEq] at hs'
              exact absurd (by rw [hs, ← hs'.1]; simp) hn.bar
  rcases List.append_eq_append_iff.mp h with ⟨extra, he, hrest⟩ | ⟨extra, he, hrest⟩
  · have := hlonger hr hf (fun before after hb => ho.not_mem (he.trans hb)) hrest
    rw [he, this, List.append_nil]
  · have := hlonger hf hr (fun before after hb => hi.not_mem (he.trans hb)) hrest
    rw [he, this, List.append_nil]

/-- A value without bars ends before the next part. -/
theorem plainValue_value {item other : Item} {rest following : Text} (hi : item.PlainValue) (ho : other.PlainValue)
    (hr : Tail Item.PlainValue rest) (hf : Tail Item.PlainValue following)
    (h : item.value ++ rest = other.value ++ following) : item.value = other.value := by
  have hlonger : ∀ (value : Text) {extra rest following : Text}, Tail Item.PlainValue rest → '|' ∉ value ++ extra →
      rest = extra ++ following → extra = [] := by
    intro value extra rest following hr hbar he
    cases extra with
    | nil => rfl
    | cons c extra =>
      rcases hr with rfl | ⟨_, _, _, rfl⟩
      · cases he
      · simp only [List.cons_append, List.cons.injEq] at he
        exact absurd (by rw [← he.1]; simp) hbar
  rcases List.append_eq_append_iff.mp h with ⟨extra, he, hrest⟩ | ⟨extra, he, hrest⟩
  · have := hlonger item.value hr (he ▸ ho.value_bar) hrest
    rw [he, this, List.append_nil]
  · have := hlonger other.value hf (he ▸ hi.value_bar) hrest
    rw [he, this, List.append_nil]

/-- The condition that a part is written for, if its key has no colon. -/
def itemOfPart (text : Text) : Item :=
  match cutAt? (· == ':') text with
  | some (key, []) => .predicate key
  | some (key, value) => .selector key value
  | none => .malformed text

theorem itemOfPart_part {item : Item} (hm : item.isMatcher) (hfits : item.ValueFits) (hkey : ':' ∉ item.key) :
    itemOfPart (part item) = item := by
  obtain ⟨key, value, role, isMalformed⟩ := item
  obtain ⟨rfl, hrole⟩ := Item.isMatcher_iff.mp hm
  have hcut : cutAt? (· == ':') (key ++ ':' :: value) = some (key, value) :=
    cutAt?_eq_some_iff.mpr ⟨fun c hc => by simpa using fun e : c = ':' => hkey (e ▸ hc), ':', by simp, rfl⟩
  have hfits : value = [] ↔ role = .predicate := hfits
  rw [itemOfPart, part, hcut]
  cases value with
  | nil => rw [hfits.mp rfl]; rfl
  | cons c value =>
    cases role with
    | flag => exact absurd rfl hrole
    | selector => rfl
    | predicate => exact absurd (hfits.mpr rfl) (by simp)

theorem mem_sort {p : Text} {texts : List Text} : p ∈ sort texts ↔ p ∈ texts := (sort_perm texts).mem_iff

/-- **Conditions of a kind whose joined parts are told apart can be read off the signature.** -/
theorem perm_of_eq {plain : Item → Prop} (hkey : ∀ item, plain item → ':' ∉ item.key)
    (hvalue : ∀ {item other : Item} {rest following : Text}, plain item → plain other → Tail plain rest →
      Tail plain following → item.value ++ rest = other.value ++ following → item.value = other.value)
    {rule other : Rule} (hr : ∀ item ∈ rule.conditions, plain item ∧ item.ValueFits)
    (ho : ∀ item ∈ other.conditions, plain item ∧ item.ValueFits) (h : rule.signature = other.signature) :
    rule.conditions.Perm other.conditions := by
  have hjoin : ∀ {texts : List Text}, texts ≠ [] → '|' :: ['|'].intercalate texts = barred texts := by
    intro texts hne
    cases texts with
    | nil => exact absurd rfl hne
    | cons text texts => rw [intercalate_bar]; rfl
  have hcolon : ∀ {items : List Item}, sort (items.map part) ≠ [] → ['|'].intercalate (sort (items.map part)) ≠ [] := by
    intro items hne he
    cases hs : sort (items.map part) with
    | nil => exact hne hs
    | cons text texts =>
      have hmem : text ∈ items.map part := mem_sort.mp (hs ▸ List.mem_cons_self)
      obtain ⟨item, _, rfl⟩ := List.mem_map.mp hmem
      rw [hs, intercalate_bar, part] at he
      simp at he
  have htext : ['|'].intercalate (sort (rule.conditions.map part)) =
      ['|'].intercalate (sort (other.conditions.map part)) := congrArg Signature.text h
  have hbarred : barred (sort (rule.conditions.map part)) = barred (sort (other.conditions.map part)) := by
    by_cases h₁ : sort (rule.conditions.map part) = []
    · by_cases h₂ : sort (other.conditions.map part) = []
      · rw [h₁, h₂]
      · exact absurd (htext.symm.trans (by rw [h₁]; rfl)) (hcolon h₂)
    · by_cases h₂ : sort (other.conditions.map part) = []
      · exact absurd (htext.trans (by rw [h₂]; rfl)) (hcolon h₁)
      · rw [← hjoin h₁, ← hjoin h₂, htext]
  have hparts : ∀ {items : List Item}, (∀ item ∈ items, plain item ∧ item.ValueFits) →
      ∀ p ∈ sort (items.map part), ∃ item, plain item ∧ p = part item := by
    intro items hi p hp
    obtain ⟨item, hm, rfl⟩ := List.mem_map.mp (mem_sort.mp hp)
    exact ⟨item, (hi item hm).1, rfl⟩
  have hsame := barred_injective hkey hvalue (hparts hr) (hparts ho) hbarred
  have hback : ∀ {rule : Rule}, (∀ item ∈ rule.conditions, plain item ∧ item.ValueFits) →
      (rule.conditions.map part).map itemOfPart = rule.conditions := by
    intro rule hr
    rw [List.map_map]
    refine (List.map_congr_left fun item hm => ?_).trans (List.map_id _)
    exact itemOfPart_part (List.mem_filter.mp hm).2 (hr item hm).2 (hkey item (hr item hm).1)
  have hperm : (rule.conditions.map part).Perm (other.conditions.map part) :=
    (sort_perm _).symm.trans (hsame ▸ sort_perm _)
  have := hperm.map itemOfPart
  rwa [hback hr, hback ho] at this

end Signature

namespace Rule

/-- The conditions of both rules have a form in which the signature tells them. -/
def AreTold (rule other : Rule) : Prop :=
  (∀ item ∈ rule.conditions ++ other.conditions, item.ValueFits) ∧
    ((∀ item ∈ rule.conditions ++ other.conditions, item.PlainKey) ∨
      ∀ item ∈ rule.conditions ++ other.conditions, item.PlainValue)

instance (rule other : Rule) : Decidable (AreTold rule other) :=
  inferInstanceAs (Decidable ((∀ item ∈ rule.conditions ++ other.conditions, item.ValueFits) ∧
    ((∀ item ∈ rule.conditions ++ other.conditions, item.PlainKey) ∨
      ∀ item ∈ rule.conditions ++ other.conditions, item.PlainValue)))

theorem signature_eq_of_perm {rule other : Rule} (h : rule.conditions.Perm other.conditions) :
    rule.signature = other.signature :=
  congrArg (fun texts => Signature.mk (['|'].intercalate texts)) (Text.sort_eq_of_perm (h.map Signature.part))

/-- **Where the form allows it, the signature tells the conditions.** -/
theorem signature_eq_iff_perm {rule other : Rule} (h : AreTold rule other) :
    rule.signature = other.signature ↔ rule.conditions.Perm other.conditions := by
  obtain ⟨hfits, hplain⟩ := h
  have hboth : ∀ {plain : Item → Prop}, (∀ item ∈ rule.conditions ++ other.conditions, plain item) →
      (∀ item ∈ rule.conditions, plain item ∧ item.ValueFits) ∧
        ∀ item ∈ other.conditions, plain item ∧ item.ValueFits := fun hp =>
    ⟨fun item hm => ⟨hp item (List.mem_append_left _ hm), hfits item (List.mem_append_left _ hm)⟩,
      fun item hm => ⟨hp item (List.mem_append_right _ hm), hfits item (List.mem_append_right _ hm)⟩⟩
  refine ⟨fun hs => ?_, signature_eq_of_perm⟩
  rcases hplain with hp | hp
  · exact Signature.perm_of_eq (fun item hi => hi.colon) Signature.plainKey_value (hboth hp).1 (hboth hp).2 hs
  · exact Signature.perm_of_eq (fun item hi => hi.colon) Signature.plainValue_value (hboth hp).1 (hboth hp).2 hs

/-! ## Rules that share their signature with no others -/

/-- The predicates of the rule have no value. -/
def PredicatesBare (rule : Rule) : Prop := ∀ item ∈ rule.conditions, item.role = .predicate → item.value = []

theorem conditions_singleton (subject : Subject) {item : Item} (h : item.isMatcher) :
    (⟨subject, [item]⟩ : Rule).conditions = [item] := by simp [conditions, h]

theorem signature_singleton {rule : Rule} {item : Item} (h : rule.conditions = [item]) :
    rule.signature = ⟨Signature.part item⟩ := by
  have hs : rule.signature = ⟨['|'].intercalate (Text.sort (rule.conditions.map Signature.part))⟩ := rfl
  rw [hs, h]
  simp [Text.sort, Text.place, List.intercalate]

/-- The signature of a rule has a colon for each condition, and those of its keys and values. -/
theorem count_colon_signature (rule : Rule) :
    rule.signature.text.count ':' =
      (rule.conditions.map fun item => 1 + item.key.count ':' + item.value.count ':').sum := by
  have hs : rule.signature.text = ['|'].intercalate (Text.sort (rule.conditions.map Signature.part)) := rfl
  have hperm := ((Text.sort_perm (rule.conditions.map Signature.part)).map (List.count ':')).sum_nat
  rw [hs, Text.count_colon_intercalate, hperm, List.map_map]
  congr 1
  refine List.map_congr_left fun item _ => ?_
  simp [Signature.part]
  omega

/-- A selector that is cut out of a signature at one of its colons. -/
theorem selector_of_signature {rule : Rule} {key value : Text} (h : rule.signature.text = key ++ ':' :: value)
    (hall : ∀ other : Rule, other.PredicatesBare → other.signature = rule.signature →
      other.conditions.Perm rule.conditions) : rule.conditions = [.selector key value] := by
  have hc : (⟨.window, [.selector key value]⟩ : Rule).conditions = [.selector key value] :=
    conditions_singleton .window rfl
  have hbare : (⟨.window, [.selector key value]⟩ : Rule).PredicatesBare := by
    intro item hi hr
    rw [hc, List.mem_singleton] at hi
    rw [hi] at hr
    cases hr
  have hsig : (⟨.window, [.selector key value]⟩ : Rule).signature = rule.signature := by
    rw [signature_singleton hc, Signature.mk.injEq, h]; rfl
  have := hall _ hbare hsig
  rw [hc] at this
  exact List.perm_singleton.mp this.symm

/-- A rule that its signature tells, whatever other rules there are, has no condition, or one with a value and without a
colon of its own. -/
theorem condition_of_told {rule : Rule} (hall : ∀ other : Rule, other.PredicatesBare →
      other.signature = rule.signature → other.conditions.Perm rule.conditions) :
    rule.conditions = [] ∨
      ∃ item, rule.conditions = [item] ∧ item.value ≠ [] ∧ ':' ∉ item.key ∧ ':' ∉ item.value := by
  by_cases hnil : rule.conditions = []
  · exact Or.inl hnil
  · -- a signature with a colon is also that of one selector, with the colon behind its key
    have hmem : ':' ∈ rule.signature.text := by
      rw [← List.count_pos_iff, count_colon_signature]
      obtain ⟨item, items, he⟩ := List.exists_cons_of_ne_nil hnil
      rw [he, List.map_cons, List.sum_cons]
      omega
    obtain ⟨key, value, htext⟩ := List.append_of_mem hmem
    have hone := selector_of_signature htext hall
    refine Or.inr ⟨_, hone, ?_, ?_, ?_⟩
    · -- without a value it could be a predicate as well
      intro (hv : value = [])
      have hc : (⟨.window, [.predicate key]⟩ : Rule).conditions = [.predicate key] := conditions_singleton .window rfl
      have hbare : (⟨.window, [.predicate key]⟩ : Rule).PredicatesBare := by
        intro item hi _
        rw [hc, List.mem_singleton] at hi
        rw [hi]; rfl
      have hsig : (⟨.window, [.predicate key]⟩ : Rule).signature = rule.signature := by
        rw [signature_singleton hc, Signature.mk.injEq, htext, hv]; rfl
      have := hall _ hbare hsig
      rw [hc, hone] at this
      have := List.perm_singleton.mp this
      simp [Item.predicate, Item.selector] at this
    · intro hk
      obtain ⟨before, after, rfl⟩ := List.append_of_mem (show ':' ∈ key from hk)
      have hcut : rule.signature.text = before ++ ':' :: (after ++ ':' :: value) := by simp [htext]
      have := selector_of_signature hcut hall
      rw [hone] at this
      simp [Item.selector] at this
    · intro hv
      obtain ⟨before, after, rfl⟩ := List.append_of_mem (show ':' ∈ value from hv)
      have hcut : rule.signature.text = (key ++ ':' :: before) ++ ':' :: after := by simp [htext]
      have := selector_of_signature hcut hall
      rw [hone] at this
      simp [Item.selector] at this

/-- The signature of a rule without conditions is that of such rules only. -/
theorem conditions_eq_nil_of_signature_eq {rule other : Rule} (h : other.signature = rule.signature)
    (hnil : rule.conditions = []) : other.conditions = [] := by
  have hcount := count_colon_signature other
  rw [h, count_colon_signature, hnil] at hcount
  cases hc : other.conditions with
  | nil => rfl
  | cons head tail =>
    rw [hc, List.map_cons, List.sum_cons, List.map_nil, List.sum_nil] at hcount
    omega

/-- A signature with one colon is that of rules with one condition only, whose key has no colon. -/
theorem conditions_eq_singleton_of_count {rule : Rule} (h : rule.signature.text.count ':' = 1) :
    ∃ item, rule.conditions = [item] ∧ ':' ∉ item.key := by
  rw [count_colon_signature] at h
  cases hc : rule.conditions with
  | nil => simp [hc] at h
  | cons head tail =>
    cases tail with
    | cons second tail =>
      rw [hc, List.map_cons, List.map_cons, List.sum_cons, List.sum_cons] at h
      omega
    | nil =>
      rw [hc, List.map_singleton, List.sum_singleton] at h
      exact ⟨head, rfl, List.count_eq_zero.mp (by omega)⟩

theorem PredicatesBare.valueFits {rule : Rule} (hbare : rule.PredicatesBare) {item : Item} (hi : item ∈ rule.conditions)
    (hvalue : item.value ≠ []) : item.isMatcher ∧ item.ValueFits :=
  ⟨(List.mem_filter.mp hi).2, fun h => absurd h hvalue, hbare item hi⟩

/-- Rules with the signature of one condition with a value and without a colon of its own have that condition. -/
theorem conditions_eq_singleton_of_signature_eq {rule other : Rule} (hrule : rule.PredicatesBare)
    (hother : other.PredicatesBare) (h : other.signature = rule.signature) {item : Item}
    (hone : rule.conditions = [item]) (hvalue : item.value ≠ []) (hkey : ':' ∉ item.key) (hcolon : ':' ∉ item.value) :
    other.conditions = [item] := by
  have hcount : other.signature.text.count ':' = 1 := by
    rw [h, count_colon_signature, hone, List.map_singleton, List.sum_singleton, List.count_eq_zero.mpr hkey,
      List.count_eq_zero.mpr hcolon]
  obtain ⟨head, hhead, hcut⟩ := conditions_eq_singleton_of_count hcount
  have hparts : Signature.part head = Signature.part item := by
    rw [signature_singleton hhead, signature_singleton hone, Signature.mk.injEq] at h
    exact h
  have hsame := Text.cut_colon hcut hkey hparts
  obtain ⟨hmatcher, hfits⟩ := hother.valueFits (hhead ▸ List.mem_singleton_self head) (hsame.2 ▸ hvalue)
  obtain ⟨hmatcher', hfits'⟩ := hrule.valueFits (hone ▸ List.mem_singleton_self item) hvalue
  rw [hhead, ← Signature.itemOfPart_part hmatcher hfits hcut, hparts, Signature.itemOfPart_part hmatcher' hfits' hkey]

/-- **A signature tells the conditions of its rule, whatever other rules there are, exactly if there is no condition, or
one with a value and without a colon of its own.** -/
theorem told_by_signature_iff {rule : Rule} (hrule : rule.PredicatesBare) :
    (∀ other : Rule, other.PredicatesBare → other.signature = rule.signature →
      other.conditions.Perm rule.conditions) ↔
      rule.conditions = [] ∨
        ∃ item, rule.conditions = [item] ∧ item.value ≠ [] ∧ ':' ∉ item.key ∧ ':' ∉ item.value := by
  refine ⟨condition_of_told, ?_⟩
  rintro (hnil | ⟨item, hone, hvalue, hkey, hcolon⟩) other hother hsig
  · rw [hnil, conditions_eq_nil_of_signature_eq hsig hnil]
  · rw [hone, conditions_eq_singleton_of_signature_eq hrule hother hsig hone hvalue hkey hcolon]

end Rule

/-! ## Conditions of merged rules -/

namespace Item

/-- Grouping keeps every condition. -/
theorem mem_groupItems_iff {items : List Item} {item : Item} (h : item.role ≠ .flag) :
    item ∈ groupItems items ↔ item ∈ items := by
  have hflags : item ∉ lastFlags (withRole .flag items) := fun hm =>
    h (role_of_mem_withRole (mem_of_mem_lastFlags hm))
  have hrole : ∀ role, item ∈ withRole role items ↔ item ∈ items ∧ item.role = role := fun role => by simp [withRole]
  rw [groupItems_eq, List.mem_append, List.mem_append, List.mem_eraseDups, List.mem_eraseDups, hrole, hrole]
  cases hr : item.role with
  | flag => exact absurd hr h
  | selector => simp [hflags]
  | predicate => simp [hflags]

/-- Grouped items repeat no condition. -/
theorem nodup_conditions_groupItems (items : List Item) : ((groupItems items).filter isMatcher).Nodup := by
  have hflags : (lastFlags (withRole .flag items)).filter isMatcher = [] :=
    List.filter_eq_nil_iff.mpr fun item hi => by
      simp [isMatcher, role_of_mem_withRole (mem_of_mem_lastFlags hi)]
  rw [groupItems_eq, List.filter_append, List.filter_append, hflags, List.nil_append, ← List.filter_append]
  refine List.Pairwise.filter _ (List.nodup_append.mpr ⟨nodup_eraseDups _, nodup_eraseDups _, ?_⟩)
  intro item hi other ho he
  have h₁ := role_of_mem_withRole (List.mem_eraseDups.mp hi)
  have h₂ := role_of_mem_withRole (List.mem_eraseDups.mp ho)
  rw [he, h₂] at h₁
  cases h₁

end Item

namespace Rule

/-- The conditions of a group are those of its rules. -/
theorem mem_conditions_group {rules : List Rule} {signature : Signature} {merged : Rule}
    (h : group? rules signature = some merged) (item : Item) :
    item ∈ merged.conditions ↔ ∃ rule ∈ rules, rule.signature = signature ∧ item ∈ rule.conditions := by
  obtain ⟨first, _, rfl⟩ := Option.map_eq_some_iff.mp h
  simp only [conditions, List.mem_filter]
  constructor
  · rintro ⟨hi, hm⟩
    have hrole := (Item.isMatcher_iff.mp hm).2
    obtain ⟨rule, hr, hir⟩ := List.mem_flatMap.mp ((Item.mem_groupItems_iff hrole).mp hi)
    obtain ⟨hr, hs⟩ := List.mem_filter.mp hr
    exact ⟨rule, hr, by simpa using hs, (List.mem_filter.mp hir).1, hm⟩
  · rintro ⟨rule, hr, hs, hi, hm⟩
    obtain ⟨hform, hrole⟩ := Item.isMatcher_iff.mp hm
    have hwell : item ∈ rule.wellFormed := List.mem_filter.mpr ⟨hi, by simp [hform]⟩
    have hunder : item ∈ itemsUnder signature rules :=
      List.mem_flatMap.mpr ⟨rule, List.mem_filter.mpr ⟨hr, by simp [hs]⟩, hwell⟩
    exact ⟨(Item.mem_groupItems_iff hrole).mpr hunder, hm⟩

theorem nodup_conditions_group {rules : List Rule} {signature : Signature} {merged : Rule}
    (h : group? rules signature = some merged) : merged.conditions.Nodup := by
  obtain ⟨first, _, rfl⟩ := Option.map_eq_some_iff.mp h
  exact Item.nodup_conditions_groupItems _

end Rule

/-- **When rules are merged only if they match the same windows.** Among rules which are told by their signatures when
they share one, the same signature means the same conditions, and a merged rule has exactly the conditions of each rule
that went into it. Without further knowledge of the other rules, a signature is only enough for a rule with at most one
condition, and then only if that has a value and no colon of its own. -/
theorem merged_rules_match_alike (rules : List Rule)
    (h : ∀ rule ∈ rules, ∀ other ∈ rules, rule.signature = other.signature → rule.AreTold other) :
    (∀ rule ∈ rules, ∀ other ∈ rules, rule.signature = other.signature ↔ rule.conditions.Perm other.conditions) ∧
      (∀ rule ∈ rules, ∃ merged, (RuleSet.ofRules rules).get? rule.signature = some merged ∧
        merged.conditions.Nodup ∧ ∀ item, item ∈ merged.conditions ↔ item ∈ rule.conditions) ∧
      ∀ rule : Rule, rule.PredicatesBare →
        ((∀ other : Rule, other.PredicatesBare → other.signature = rule.signature →
          other.conditions.Perm rule.conditions) ↔
          rule.conditions = [] ∨
            ∃ item, rule.conditions = [item] ∧ item.value ≠ [] ∧ ':' ∉ item.key ∧ ':' ∉ item.value) := by
  have hsame : ∀ rule ∈ rules, ∀ other ∈ rules,
      rule.signature = other.signature ↔ rule.conditions.Perm other.conditions := fun rule hr other ho =>
    ⟨fun hs => (Rule.signature_eq_iff_perm (h rule hr other ho hs)).mp hs, Rule.signature_eq_of_perm⟩
  refine ⟨hsame, fun rule hr => ?_, fun rule hrule => Rule.told_by_signature_iff hrule⟩
  obtain ⟨merged, hm⟩ := Option.isSome_iff_exists.mp ((Rule.group?_isSome_iff rules rule.signature).mpr ⟨rule, hr, rfl⟩)
  refine ⟨merged, (RuleSet.get?_ofRules rules _).trans hm, Rule.nodup_conditions_group hm, fun item => ?_⟩
  rw [Rule.mem_conditions_group hm]
  constructor
  · rintro ⟨other, ho, hs, hi⟩
    exact ((hsame other ho rule hr).mp hs).mem_iff.mp hi
  · exact fun hi => ⟨rule, hr, rfl, hi⟩

/-- Two rules with one selector, one with a bar in its value; both rules share their signature with a rule that comes
later. -/
def toldRules : List Rule :=
  [⟨.window, [.flag "float".toList "on".toList, .selector "class".toList "^(a|b)$".toList, .predicate "$x".toList]⟩,
    ⟨.layer, [.selector "bar".toList "on".toList]⟩,
    ⟨.window, [.predicate "$x".toList, .selector "class".toList "^(a|b)$".toList, .flag "pin".toList "on".toList]⟩,
    ⟨.layer, [.flag "blur".toList "on".toList, .selector "bar".toList "on".toList]⟩]

theorem toldRules_match_alike :
    (∀ rule ∈ toldRules, ∀ other ∈ toldRules, rule.signature = other.signature → rule.AreTold other) ∧
      ∀ rule ∈ toldRules, ∀ other ∈ toldRules,
        rule.signature = other.signature ↔ rule.conditions.Perm other.conditions := by
  have h : ∀ rule ∈ toldRules, ∀ other ∈ toldRules, rule.signature = other.signature → rule.AreTold other := by
    decide +kernel
  exact ⟨h, (merged_rules_match_alike toldRules h).1⟩

/-- A bar in a value reads like the bar between two conditions: the rules on two lines match different windows, have the
same signature, and are merged. -/
theorem bar_in_value_collides :
    ∃ rule other, Line.read? .block "windowrule = float, class:a|title:b".toList = some rule ∧
      Line.read? .block "windowrule = pin, class:a, title:b".toList = some other ∧
      rule.signature = other.signature ∧ ¬rule.conditions.Perm other.conditions ∧
      merge [rule, other] = [⟨.window,
        [.flag "float".toList "on".toList, .flag "pin".toList "on".toList,
          .selector "class".toList "a|title:b".toList, .selector "class".toList "a".toList,
          .selector "title".toList "b".toList]⟩] :=
  ⟨⟨.window, [.flag "float".toList "on".toList, .selector "class".toList "a|title:b".toList]⟩,
    ⟨.window, [.flag "pin".toList "on".toList, .selector "class".toList "a".toList,
      .selector "title".toList "b".toList]⟩, by decide +kernel⟩

end WindowRules

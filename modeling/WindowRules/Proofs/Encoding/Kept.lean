import WindowRules.Render
import WindowRules.Proofs.Encoding.Commas

/-!
# Items as a dialect keeps them

The same item is kept with bare commas for blocks and with escaped ones for lines. Commas are written in the value of an
item, except that a layer is told by its namespace, which is the key of the item (`Item.encoded`).
-/

namespace WindowRules

/-- The item of a rule about the given subject as the dialect keeps it. -/
def Item.encoded (dialect : Dialect) (subject : Subject) (item : Item) : Item :=
  match item.role, subject with
  | .predicate, _ => item
  | .selector, .layer => { item with key := dialect.encode item.key }
  | _, _ => { item with value := dialect.encode item.value }

/-- The rule as the dialect keeps it. -/
def Rule.encoded (dialect : Dialect) (rule : Rule) : Rule :=
  ⟨rule.subject, rule.items.map (Item.encoded dialect rule.subject)⟩

namespace Item

@[simp] theorem encoded_role (dialect : Dialect) (subject : Subject) (item : Item) :
    (item.encoded dialect subject).role = item.role := by
  unfold encoded
  split <;> rfl

@[simp] theorem encoded_isMalformed (dialect : Dialect) (subject : Subject) (item : Item) :
    (item.encoded dialect subject).isMalformed = item.isMalformed := by
  unfold encoded
  split <;> rfl

@[simp] theorem encoded_isMatcher (dialect : Dialect) (subject : Subject) (item : Item) :
    (item.encoded dialect subject).isMatcher = item.isMatcher := by
  rw [isMatcher, encoded_isMalformed, encoded_role, ← isMatcher]

theorem encoded_key_of_flag (dialect : Dialect) (subject : Subject) {item : Item} (h : item.role = .flag) :
    (item.encoded dialect subject).key = item.key := by
  unfold encoded
  split
  · rfl
  · next hr => rw [h] at hr; cases hr
  · rfl

theorem withRole_map_encoded (dialect : Dialect) (subject : Subject) (role : Role) (items : List Item) :
    withRole role (items.map (encoded dialect subject)) = (withRole role items).map (encoded dialect subject) := by
  simp [withRole, List.filter_map, Function.comp_def]

end Item

/-- Exactly the well-formed items are written. -/
theorem Rule.mem_writtenItems_iff {rule : Rule} {item : Item} :
    item ∈ rule.writtenItems ↔ item ∈ rule.items ∧ item.isMalformed = false := by
  simp only [writtenItems, Item.byRole, Item.withRole, List.mem_append, List.mem_filter]
  cases item.role <;> simp

/-- All items are written if none is malformed. -/
theorem Rule.length_writtenItems {rule : Rule} (h : ∀ item ∈ rule.items, item.isMalformed = false) :
    rule.writtenItems.length = rule.items.length := by
  have hall : rule.items.filter (!·.isMalformed) = rule.items :=
    List.filter_eq_self.mpr fun item hi => by simp [h item hi]
  rw [Rule.writtenItems, hall]
  exact (List.perm_iff_count.mpr (Item.count_byRole rule.items)).length_eq

/-! ## Bare commas -/

/-- The commas of the rule are bare, as blocks have them. -/
def Rule.Bare (rule : Rule) : Prop := ∀ item ∈ rule.items, item.encoded .block rule.subject = item

instance (rule : Rule) : Decidable rule.Bare :=
  inferInstanceAs (Decidable (∀ item ∈ rule.items, item.encoded .block rule.subject = item))

/-- Writing the commas of such an item for a line and then bare again gives the item. -/
theorem Item.encoded_block_encoded {subject : Subject} {item : Item} (h : item.encoded .block subject = item)
    (dialect : Dialect) : (item.encoded dialect subject).encoded .block subject = item := by
  cases dialect with
  | block => rw [h, h]
  | inline =>
    obtain ⟨key, value, role, isMalformed⟩ := item
    cases role <;> cases subject <;> simp [encoded] at h ⊢ <;> exact Dialect.encode_encode h

namespace Rule

theorem Bare.encoded_block {rule : Rule} (h : rule.Bare) : rule.encoded .block = rule := by
  have hitems : rule.items.map (Item.encoded .block rule.subject) = rule.items :=
    (List.map_congr_left h).trans (List.map_id _)
  rw [encoded, hitems]

theorem Bare.encoded_block_encoded {rule : Rule} (h : rule.Bare) (dialect : Dialect) :
    (rule.encoded dialect).encoded .block = rule := by
  have hitems : (rule.items.map (Item.encoded dialect rule.subject)).map (Item.encoded .block rule.subject) =
      rule.items := by
    rw [List.map_map]
    exact (List.map_congr_left fun item hi => Item.encoded_block_encoded (h item hi) dialect).trans (List.map_id _)
  simp only [encoded, hitems]

theorem map_encoded_block {rules : List Rule} (h : ∀ rule ∈ rules, rule.Bare) : rules.map (encoded .block) = rules :=
  (List.map_congr_left fun rule hr => (h rule hr).encoded_block).trans (List.map_id _)

theorem map_encoded_block_encoded {rules : List Rule} (h : ∀ rule ∈ rules, rule.Bare) (dialect : Dialect) :
    (rules.map (encoded dialect)).map (encoded .block) = rules := by
  rw [List.map_map]
  exact (List.map_congr_left fun rule hr => (h rule hr).encoded_block_encoded dialect).trans (List.map_id _)

end Rule

end WindowRules

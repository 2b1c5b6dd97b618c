import WindowRules.Text.Blank

/-!
# Items

A rule is a list of items. A flag is an effect with its value, a selector a condition on the windows with the value it
asks for, a predicate a named condition (`Role`). A stretch of source text that is no item is kept as a malformed one,
so that nothing is lost and the problem can be told.

Items are written by role: flags, then selectors, then predicates, and within a role in their own order (`Item.byRole`).
They are the same items (`count_byRole`), ordered by the places of their roles (`pairwise_byRole`), and those of a role
stand as they stood (`withRole_byRole`); so this is the stable sort by roles (`byRole_eq_mergeSort`).
-/

namespace WindowRules

/-- What an item does in its rule. -/
inductive Role where
  /-- An effect on the windows that match. -/
  | flag
  /-- A condition with a value. -/
  | selector
  /-- A named condition without a value. -/
  | predicate
deriving DecidableEq, Repr

/-- The place of a role in the written order. -/
def Role.place : Role → Nat
  | flag => 0
  | selector => 1
  | predicate => 2

/-- One piece of a rule. -/
structure Item where
  /-- The name of the effect or of the condition. -/
  key : Text
  /-- The value; a predicate has none. -/
  value : Text
  /-- What the item does. -/
  role : Role
  /-- The key is source text that could not be read as an item. -/
  isMalformed : Bool
deriving DecidableEq, Repr

namespace Item

/-- An effect with its value. -/
def flag (key value : Text) : Item := ⟨key, value, .flag, false⟩

/-- A condition with its value. -/
def selector (key value : Text) : Item := ⟨key, value, .selector, false⟩

/-- A named condition. -/
def predicate (key : Text) : Item := ⟨key, [], .predicate, false⟩

/-- Source text that is no item. -/
def malformed (text : Text) : Item := ⟨text, [], .flag, true⟩

/-- Whether the item says which windows its rule is about. -/
def isMatcher (item : Item) : Bool := !item.isMalformed && item.role != .flag

/-- Whether the item says what happens to the windows of its rule. -/
def isFlag (item : Item) : Bool := !item.isMalformed && item.role == .flag

/-- The items with the given role, in their own order. -/
def withRole (role : Role) (items : List Item) : List Item := items.filter (·.role == role)

/-- The items in the order in which a rule is written: flags, selectors, predicates. -/
def byRole (items : List Item) : List Item :=
  withRole .flag items ++ withRole .selector items ++ withRole .predicate items

/-! ## The items of one role -/

/-- The items of a role that come from two lists. -/
@[simp] theorem withRole_append (role : Role) (items others : List Item) :
    withRole role (items ++ others) = withRole role items ++ withRole role others := List.filter_append ..

/-- The items of a role with one more item before them. -/
theorem withRole_cons (role : Role) (item : Item) (items : List Item) :
    withRole role (item :: items) = if item.role = role then item :: withRole role items else withRole role items := by
  simp [withRole, List.filter_cons]

/-- Items with a role have that role. -/
theorem role_of_mem_withRole {role : Role} {items : List Item} {item : Item} (h : item ∈ withRole role items) :
    item.role = role := by simpa [withRole] using (List.mem_filter.mp h).2

/-- Items of one role are kept if the role is asked for. -/
theorem withRole_eq_self {role : Role} {items : List Item} (h : ∀ item ∈ items, item.role = role) :
    withRole role items = items := List.filter_eq_self.mpr fun item hi => by simp [h item hi]

/-- Items of one role are left out if another one is asked for. -/
theorem withRole_eq_nil {role other : Role} {items : List Item} (h : ∀ item ∈ items, item.role = role)
    (hne : role ≠ other) : withRole other items = [] :=
  List.filter_eq_nil_iff.mpr fun item hi => by simp [h item hi, hne]

/-! ## The written order -/

/-- Putting items into the written order keeps every item, as often as it is there. -/
theorem count_byRole (items : List Item) (item : Item) : (byRole items).count item = items.count item := by
  induction items with
  | nil => rfl
  | cons head tail ih =>
    simp only [byRole, withRole, List.count_append] at ih ⊢
    rcases hr : head.role <;> by_cases hi : head = item <;> simp_all <;> omega

/-- The items of a role keep their own order. -/
theorem withRole_byRole (role : Role) (items : List Item) : withRole role (byRole items) = withRole role items := by
  have hother : ∀ other, other ≠ role → withRole role (withRole other items) = [] := fun other hne =>
    withRole_eq_nil (fun item => role_of_mem_withRole) hne
  have hself : withRole role (withRole role items) = withRole role items :=
    withRole_eq_self fun item => role_of_mem_withRole
  rw [byRole, withRole_append, withRole_append]
  cases role <;> simp [hself, hother]

/-- Items in the written order stay as they are. -/
theorem byRole_byRole (items : List Item) : byRole (byRole items) = byRole items := by
  rw [byRole, withRole_byRole, withRole_byRole, withRole_byRole, ← byRole]

/-- Items of one role are in the written order. -/
theorem pairwise_withRole (role : Role) (items : List Item) :
    (withRole role items).Pairwise (·.role.place ≤ ·.role.place) := by
  refine List.pairwise_iff_forall_sublist.mpr fun {item other} hsub => ?_
  have hitem := role_of_mem_withRole (hsub.subset List.mem_cons_self)
  have hother := role_of_mem_withRole (hsub.subset (List.mem_cons_of_mem item List.mem_cons_self))
  exact Nat.le_of_eq (by rw [hitem, hother])

/-- The items are ordered by their roles. -/
theorem pairwise_byRole (items : List Item) : (byRole items).Pairwise (·.role.place ≤ ·.role.place) := by
  refine List.pairwise_append.mpr ⟨List.pairwise_append.mpr
    ⟨pairwise_withRole .flag items, pairwise_withRole .selector items, fun item hi other ho => ?_⟩,
    pairwise_withRole .predicate items, fun item hi other ho => ?_⟩
  · rw [role_of_mem_withRole hi, role_of_mem_withRole ho]
    decide
  · rw [role_of_mem_withRole ho]
    cases item.role <;> decide

/-- Items stay as they are exactly if they are ordered by their roles. -/
theorem byRole_eq_self_iff {items : List Item} :
    byRole items = items ↔ items.Pairwise (·.role.place ≤ ·.role.place) := by
  refine ⟨fun h => h ▸ pairwise_byRole items, fun h => ?_⟩
  induction items with
  | nil => rfl
  | cons item items ih =>
    obtain ⟨hfirst, h⟩ := List.pairwise_cons.mp h
    have hrest := ih h
    -- a role with an earlier place than the first item does not come any more
    have hnone : ∀ role : Role, role.place < item.role.place → withRole role items = [] := fun role hlt =>
      List.filter_eq_nil_iff.mpr fun other ho he => by
        have hle := hfirst other ho
        rw [eq_of_beq he] at hle
        exact absurd hlt (Nat.not_lt.mpr hle)
    cases hr : item.role with
    | flag => simpa [byRole, withRole_cons, hr] using hrest
    | selector =>
      have hflag := hnone .flag (by simp [hr, Role.place])
      simpa [byRole, withRole_cons, hr, hflag] using hrest
    | predicate =>
      have hflag := hnone .flag (by simp [hr, Role.place])
      have hselector := hnone .selector (by simp [hr, Role.place])
      simpa [byRole, withRole_cons, hr, hflag, hselector] using hrest

/-- **The written order is the stable sort by roles.** -/
theorem byRole_eq_mergeSort (items : List Item) :
    byRole items = items.mergeSort (·.role.place ≤ ·.role.place) := by
  have htrans : ∀ first second third : Item, decide (first.role.place ≤ second.role.place) = true →
      decide (second.role.place ≤ third.role.place) = true → decide (first.role.place ≤ third.role.place) = true := by
    intro first second third h₁ h₂
    simp only [decide_eq_true_eq] at h₁ h₂ ⊢
    exact Nat.le_trans h₁ h₂
  have htotal : ∀ item other : Item,
      (decide (item.role.place ≤ other.role.place) || decide (other.role.place ≤ item.role.place)) = true := by
    intro item other
    simpa using Nat.le_total item.role.place other.role.place
  have hperm := List.mergeSort_perm items (·.role.place ≤ ·.role.place)
  -- the items of a role are a sorted part of the list, so a stable sort keeps their order
  have hrole : ∀ role, withRole role items = withRole role (items.mergeSort (·.role.place ≤ ·.role.place)) := by
    intro role
    have hsorted : (withRole role items).Pairwise fun item other =>
        decide (item.role.place ≤ other.role.place) = true := (pairwise_withRole role items).imp (by simp)
    have hkept := (List.sublist_mergeSort htrans htotal hsorted List.filter_sublist).filter (·.role == role)
    have hself : (withRole role items).filter (·.role == role) = withRole role items :=
      withRole_eq_self fun item => role_of_mem_withRole
    rw [hself] at hkept
    exact hkept.eq_of_length (hperm.filter _).length_eq.symm
  have hordered : (items.mergeSort (·.role.place ≤ ·.role.place)).Pairwise
      (fun item other : Item => item.role.place ≤ other.role.place) :=
    (List.pairwise_mergeSort htrans htotal items).imp (by simp)
  rw [← byRole_eq_self_iff.mpr hordered, byRole, hrole, hrole, hrole, ← byRole]

end Item
end WindowRules

import WindowRules.Proofs.Encoding.Fragments
import WindowRules.Proofs.Merging.Fixed
import WindowRules.Proofs.Reading.OneLine

/-!
# Rules on one line are read back

A rule that is written on one line is read back as the reading dialect keeps it (`InlineExpressible.fromLine`), if every
item has a form that a line can show (`Rule.InlineExpressible`): keys without blanks, commas with their backslashes,
values of single words, arguments of sizes and moves that are expressions already.

* `Item.InlineExpressible.isFragment` — the fragments of such items are trimmed and safe between commas, so the line is
  split at the commas between them and nowhere else.
* `Fragment.read_inlineFragment`, `Line.newerLayerItem_inlineFragment` — each fragment gives its item. Proof: one case
  for each role, by the branch that the reader takes.
-/

namespace WindowRules

/-! ## Forms that a line can show -/

/-- The text can stand for a key: it is not empty and has no blanks. -/
structure Text.IsName (s : Text) : Prop where
  ne_nil : s ≠ []
  blank : ∀ c ∈ s, Text.isBlank c = false

/-- The argument is neither marked as a bound nor a percentage. -/
structure Size.IsPlain (s : Text) : Prop where
  least : s.head? ≠ some '>'
  greatest : s.head? ≠ some '<'
  percentage : s.getLast? ≠ some '%'

namespace Item

/-- A flag with a newer key and a value of words. If the key has no comma, only the value must be safe
(`Comma.Safe.spaced`). -/
structure IsFlag (item : Item) : Prop where
  name : item.key.IsName
  newer : Keys.flagKey item.key = item.key
  spaced : item.value.Spaced
  safe : Comma.Safe (item.key ++ ' ' :: item.value)

/-- A flag that is no selector and no predicate, and whose arguments are not rewritten. -/
structure IsWindowFlag (item : Item) : Prop extends IsFlag item where
  colon : ':' ∉ item.key
  dollar : item.key.head? ≠ some '$'
  size : item.key = "size".toList → ∀ word ∈ item.value.words, Size.IsPlain word
  move : item.key = "move".toList → ∀ word ∈ item.value.words, Position.isGroup word = true

/-- A flag whose key does not begin with the mark of a condition. -/
structure IsLayerFlag (item : Item) : Prop extends IsFlag item where
  unmarked : Text.stripPrefix? Fragment.conditionMark item.key = none

/-- A condition with a trimmed value. -/
structure IsWindowSelector (item : Item) : Prop where
  name : item.key.IsName
  ne_nil : item.value ≠ []
  trimmed : item.value.trim = item.value
  safe : Comma.Safe (item.key ++ ' ' :: item.value)

/-- A namespace, trimmed. -/
structure IsLayerSelector (item : Item) : Prop where
  enabled : item.value = Keys.enabled
  ne_nil : item.key ≠ []
  trimmed : item.key.trim = item.key
  safe : Comma.Safe item.key

/-- A named condition: behind a dollar sign any trimmed text, and otherwise a name. -/
structure IsPredicate (item : Item) : Prop where
  bare : item.value = []
  key : item.key.head? = some '$' ∧ item.key.trim = item.key ∨ item.key.head? ≠ some '$' ∧ item.key.IsName
  safe : Comma.Safe item.key

/-- The item has a form that the line of a rule about the subject can show. -/
def InlineExpressible (subject : Subject) (item : Item) : Prop :=
  item.isMalformed = false ∧
    match item.role, subject with
    | .flag, .window => item.IsWindowFlag
    | .flag, .layer => item.IsLayerFlag
    | .selector, .window => item.IsWindowSelector
    | .selector, .layer => item.IsLayerSelector
    | .predicate, .window => item.IsPredicate
    | .predicate, .layer => False

end Item

/-- All items have a form that the line can show, and a layer rule has a namespace or no two items: of several flags
without a namespace the later ones would be read as namespaces. -/
structure Rule.InlineExpressible (rule : Rule) : Prop where
  items : ∀ item ∈ rule.items, item.InlineExpressible rule.subject
  layer : rule.subject = .layer → (∃ item ∈ rule.items, item.role = .selector) ∨ rule.items.length ≤ 1

section Decidable

instance (s : Text) : Decidable s.IsName :=
  decidable_of_iff (s ≠ [] ∧ ∀ c ∈ s, Text.isBlank c = false)
    ⟨fun ⟨ne_nil, blank⟩ => ⟨ne_nil, blank⟩, fun h => ⟨h.ne_nil, h.blank⟩⟩

instance (s : Text) : Decidable (Size.IsPlain s) :=
  decidable_of_iff (s.head? ≠ some '>' ∧ s.head? ≠ some '<' ∧ s.getLast? ≠ some '%')
    ⟨fun ⟨least, greatest, percentage⟩ => ⟨least, greatest, percentage⟩,
      fun h => ⟨h.least, h.greatest, h.percentage⟩⟩

namespace Item

instance (item : Item) : Decidable item.IsFlag :=
  decidable_of_iff (item.key.IsName ∧ Keys.flagKey item.key = item.key ∧ item.value.Spaced ∧
      Comma.Safe (item.key ++ ' ' :: item.value))
    ⟨fun ⟨name, newer, spaced, safe⟩ => ⟨name, newer, spaced, safe⟩, fun h => ⟨h.name, h.newer, h.spaced, h.safe⟩⟩

instance (item : Item) : Decidable item.IsWindowFlag :=
  decidable_of_iff (item.IsFlag ∧ ':' ∉ item.key ∧ item.key.head? ≠ some '$' ∧
      (item.key = "size".toList → ∀ word ∈ item.value.words, Size.IsPlain word) ∧
      (item.key = "move".toList → ∀ word ∈ item.value.words, Position.isGroup word = true))
    ⟨fun ⟨flag, colon, dollar, size, move⟩ => ⟨flag, colon, dollar, size, move⟩,
      fun h => ⟨h.toIsFlag, h.colon, h.dollar, h.size, h.move⟩⟩

instance (item : Item) : Decidable item.IsLayerFlag :=
  decidable_of_iff (item.IsFlag ∧ Text.stripPrefix? Fragment.conditionMark item.key = none)
    ⟨fun ⟨flag, unmarked⟩ => ⟨flag, unmarked⟩, fun h => ⟨h.toIsFlag, h.unmarked⟩⟩

instance (item : Item) : Decidable item.IsWindowSelector :=
  decidable_of_iff (item.key.IsName ∧ item.value ≠ [] ∧ item.value.trim = item.value ∧
      Comma.Safe (item.key ++ ' ' :: item.value))
    ⟨fun ⟨name, ne_nil, trimmed, safe⟩ => ⟨name, ne_nil, trimmed, safe⟩,
      fun h => ⟨h.name, h.ne_nil, h.trimmed, h.safe⟩⟩

instance (item : Item) : Decidable item.IsLayerSelector :=
  decidable_of_iff (item.value = Keys.enabled ∧ item.key ≠ [] ∧ item.key.trim = item.key ∧ Comma.Safe item.key)
    ⟨fun ⟨enabled, ne_nil, trimmed, safe⟩ => ⟨enabled, ne_nil, trimmed, safe⟩,
      fun h => ⟨h.enabled, h.ne_nil, h.trimmed, h.safe⟩⟩

instance (item : Item) : Decidable item.IsPredicate :=
  decidable_of_iff (item.value = [] ∧
      (item.key.head? = some '$' ∧ item.key.trim = item.key ∨ item.key.head? ≠ some '$' ∧ item.key.IsName) ∧
      Comma.Safe item.key)
    ⟨fun ⟨bare, key, safe⟩ => ⟨bare, key, safe⟩, fun h => ⟨h.bare, h.key, h.safe⟩⟩

instance (subject : Subject) (item : Item) : Decidable (item.InlineExpressible subject) :=
  match item, subject with
  | ⟨_, _, .flag, _⟩, .window => inferInstanceAs (Decidable (_ ∧ IsWindowFlag _))
  | ⟨_, _, .flag, _⟩, .layer => inferInstanceAs (Decidable (_ ∧ IsLayerFlag _))
  | ⟨_, _, .selector, _⟩, .window => inferInstanceAs (Decidable (_ ∧ IsWindowSelector _))
  | ⟨_, _, .selector, _⟩, .layer => inferInstanceAs (Decidable (_ ∧ IsLayerSelector _))
  | ⟨_, _, .predicate, _⟩, .window => inferInstanceAs (Decidable (_ ∧ IsPredicate _))
  | ⟨_, _, .predicate, _⟩, .layer => inferInstanceAs (Decidable (_ ∧ False))

end Item

instance (rule : Rule) : Decidable rule.InlineExpressible :=
  decidable_of_iff ((∀ item ∈ rule.items, item.InlineExpressible rule.subject) ∧
      (rule.subject = .layer → (∃ item ∈ rule.items, item.role = .selector) ∨ rule.items.length ≤ 1))
    ⟨fun ⟨items, layer⟩ => ⟨items, layer⟩, fun h => ⟨h.items, h.layer⟩⟩

end Decidable

open Text

/-! ## Arguments that are left alone -/

theorem Axis.distribute_eq_self {rule : Axis → Text → Text} {texts : List Text}
    (h : ∀ axis, ∀ s ∈ texts, rule axis s = s) : Axis.distribute rule texts = texts := by
  cases texts with
  | nil => rfl
  | cons first others =>
    have hothers : others.map (rule .vertical) = others.map id :=
      List.map_congr_left fun s hs => h _ s (List.mem_cons_of_mem _ hs)
    rw [Axis.distribute, h _ first List.mem_cons_self, hothers, List.map_id]

theorem Size.read_of_isPlain {arguments : List Text} (hplain : ∀ s ∈ arguments, Size.IsPlain s)
    (hblank : ∀ s ∈ arguments, ∀ c ∈ s, isBlank c = false) : Size.read arguments = ⟨.exact, arguments⟩ := by
  have hmark : ∀ s ∈ arguments, Size.mark (trim s) = (none, s) := by
    intro s hs
    obtain ⟨hleast, hgreatest, _⟩ := hplain s hs
    rw [trim_of_not_isBlank (hblank s hs)]
    cases s with
    | nil => rfl
    | cons c s =>
      have h₁ : c ≠ '>' := fun e => hleast (by rw [e]; rfl)
      have h₂ : c ≠ '<' := fun e => hgreatest (by rw [e]; rfl)
      unfold Size.mark
      split
      · next heq => cases heq; exact absurd rfl h₁
      · next heq => cases heq; exact absurd rfl h₂
      · rfl
  have hmarked : arguments.map (fun s => Size.mark (trim s)) = arguments.map fun s => (none, s) :=
    List.map_congr_left hmark
  have hshare : ∀ axis : Axis, ∀ s ∈ arguments, axis.shareOrSame s = s := by
    intro axis s hs
    have hnone : axis.share? s = none := by
      rw [Axis.share?_eq_none_iff]
      rintro rest rfl
      exact (hplain _ hs).percentage (by simp)
    rw [Axis.shareOrSame, hnone, Option.getD_none]
  rw [Size.read, hmarked]
  simp [List.filterMap_map, Function.comp_def, Axis.distribute_eq_self hshare]

theorem Position.read_of_isGroup (dialect : Dialect) {arguments : List Text}
    (hgroup : ∀ s ∈ arguments, Position.isGroup s = true) (hblank : ∀ s ∈ arguments, ∀ c ∈ s, isBlank c = false) :
    Position.read dialect arguments = arguments := by
  -- a group begins with a parenthesis, so it is no modifier
  have hword : ∀ s ∈ arguments, s ≠ Position.cursorWord ∧ s ≠ Position.onscreenWord := by
    intro s hs
    have hg := hgroup s hs
    constructor <;> (rintro rfl; revert hg; decide)
  have hmodifiers : Position.Modifiers.of arguments = ⟨false, false⟩ := by
    have hcursor : Position.cursorWord ∉ arguments := fun hm => (hword _ hm).1 rfl
    have honscreen : Position.onscreenWord ∉ arguments := fun hm => (hword _ hm).2 rfl
    simp [Position.Modifiers.of, hcursor, honscreen]
  have hcoordinates : Position.coordinates arguments = arguments := by
    refine List.filter_eq_self.mpr fun s hs => ?_
    obtain ⟨hcursor, honscreen⟩ := hword s hs
    simp [hcursor, honscreen]
  have hsame : ∀ axis : Axis, ∀ s ∈ arguments, Position.coordinate dialect ⟨false, false⟩ axis s = s := by
    intro axis s hs
    simp [Position.coordinate, trim_of_not_isBlank (hblank s hs), hgroup s hs]
  rw [Position.read, hmodifiers, hcoordinates]
  exact Axis.distribute_eq_self hsame

/-! ## The fragment of an item -/

namespace Text

theorem IsName.head? {s : Text} (h : s.IsName) : ∀ c ∈ s.head?, isBlank c = false := fun c hc =>
  h.blank c (List.mem_of_head? hc)

/-- A name is cut off at the blank behind it. -/
theorem IsName.cutAt? {s : Text} (h : s.IsName) (rest : Text) : cutAt? isBlank (s ++ ' ' :: rest) = some (s, rest) :=
  cutAt?_eq_some_iff.mpr ⟨h.blank, ' ', by decide, rfl⟩

/-- A name with a value behind a space is trimmed if the value does not end with a blank. -/
theorem IsName.trim {s value : Text} (h : s.IsName) (hne : value ≠ [])
    (hlast : ∀ c ∈ value.getLast?, isBlank c = false) : Text.trim (s ++ ' ' :: value) = s ++ ' ' :: value := by
  refine trim_append_eq_self h.ne_nil (List.cons_ne_nil _ _) h.head? fun c hc => hlast c ?_
  have hcons : (' ' :: value).getLast? = value.getLast? := List.getLast?_append_of_ne_nil [' '] hne
  rwa [hcons] at hc

end Text

/-- A value behind a name and a space ends as it does alone. -/
theorem Text.getLast?_value {name value : Text} (hne : value ≠ []) (htrim : trim value = value) :
    ∀ c ∈ (name ++ ' ' :: value).getLast?, isBlank c = false := by
  intro c hc
  have happend : name ++ ' ' :: value = (name ++ [' ']) ++ value := by simp
  rw [happend, List.getLast?_append_of_ne_nil _ hne] at hc
  exact (trim_eq_self_iff.mp htrim).2 c hc

/-- The text can stand between commas: it is not empty, trimmed and safe. -/
structure Text.IsFragment (s : Text) : Prop where
  ne_nil : s ≠ []
  trimmed : trim s = s
  safe : Comma.Safe s

/-- Text behind the mark of a condition. -/
theorem Fragment.isFragment_conditionMark {s : Text} (hne : s ≠ []) (hlast : ∀ c ∈ s.getLast?, isBlank c = false)
    (hsafe : Comma.Safe s) : (Fragment.conditionMark ++ s).IsFragment :=
  ⟨by simp [hne], trim_append_eq_self (by decide) hne (by decide) hlast, Comma.Safe.append (by decide) hsafe⟩

namespace Item

theorem IsFlag.isFragment {item : Item} (h : item.IsFlag) : (item.key ++ ' ' :: item.value).IsFragment :=
  ⟨by simp, h.name.trim h.spaced.ne_nil h.spaced.getLast?, h.safe⟩

/-- **The fragment of an item can stand between commas.** -/
theorem InlineExpressible.isFragment {subject : Subject} {item : Item} (h : item.InlineExpressible subject) :
    (item.inlineFragment subject).IsFragment := by
  obtain ⟨key, value, role, isMalformed⟩ := item
  obtain ⟨_, h⟩ := h
  cases role with
  | flag =>
    cases subject with
    | window => exact h.toIsFlag.isFragment
    | layer => exact h.toIsFlag.isFragment
  | selector =>
    cases subject with
    | window =>
      obtain ⟨hname, hne, htrim, hsafe⟩ := h
      have hitem : inlineFragment .window ⟨key, value, .selector, isMalformed⟩ =
          Fragment.conditionMark ++ (key ++ ' ' :: value) := List.append_assoc ..
      rw [hitem]
      exact Fragment.isFragment_conditionMark (by simp) (getLast?_value hne htrim) hsafe
    | layer =>
      obtain ⟨_, hne, htrim, hsafe⟩ := h
      have hitem : inlineFragment .layer ⟨key, value, .selector, isMalformed⟩ =
          Fragment.conditionMark ++ (namespaceKey ++ ' ' :: key) := List.append_assoc ..
      rw [hitem]
      exact Fragment.isFragment_conditionMark (by simp) (getLast?_value hne htrim) (hsafe.spaced (by decide))
  | predicate =>
    cases subject with
    | layer => exact h.elim
    | window =>
      obtain ⟨_, ⟨hdollar, htrim⟩ | ⟨hdollar, hname⟩, hsafe⟩ := h
      · have hitem : inlineFragment .window ⟨key, value, .predicate, isMalformed⟩ = key := if_pos hdollar
        rw [hitem]
        refine ⟨fun he => ?_, htrim, hsafe⟩
        change key.head? = some '$' at hdollar
        rw [he] at hdollar
        cases hdollar
      · have hitem : inlineFragment .window ⟨key, value, .predicate, isMalformed⟩ = Fragment.conditionMark ++ key :=
          if_neg hdollar
        rw [hitem]
        exact Fragment.isFragment_conditionMark hname.ne_nil (fun c hc => hname.blank c (List.mem_of_getLast? hc)) hsafe

end Item

/-! ## Reading a fragment -/

/-- A flag is read from its key and its words. -/
theorem Item.IsFlag.words {item : Item} (h : item.IsFlag) :
    Text.words (item.key ++ ' ' :: item.value) = item.key :: Text.words item.value :=
  words_append_blank h.name.ne_nil h.name.blank (by decide) item.value

theorem Item.IsFlag.flag {item : Item} (h : item.IsFlag) (dialect : Dialect) :
    Fragment.flag dialect item.key (Text.spaced (Text.words item.value)) =
      .flag item.key (dialect.encode item.value) := by
  rw [h.spaced.spaced, Fragment.flag, if_neg h.spaced.ne_nil]

theorem Item.IsFlag.plainFlag {item : Item} (h : item.IsFlag) (dialect : Dialect) :
    Fragment.plainFlag dialect (item.key ++ ' ' :: item.value) = .flag item.key (dialect.encode item.value) := by
  rw [Fragment.plainFlag, h.words, List.headD_cons, List.tail_cons, h.newer, h.flag]

theorem Item.IsWindowFlag.windowFlag {item : Item} (h : item.IsWindowFlag) (dialect : Dialect) :
    Fragment.windowFlag dialect (item.key ++ ' ' :: item.value) = .flag item.key (dialect.encode item.value) := by
  have hflag := h.toIsFlag
  have hblank : ∀ word ∈ Text.words item.value, ∀ c ∈ word, isBlank c = false := fun word =>
    not_isBlank_of_mem_words
  rw [Fragment.windowFlag, hflag.words]
  simp only [List.headD_cons, List.tail_cons, hflag.newer]
  split
  · next hsize =>
    have hkey : Bound.exact.key = item.key := hsize.symm
    rw [Size.read_of_isPlain (h.size hsize) hblank]
    simp only [hkey]
    exact hflag.flag dialect
  · split
    · next hmove =>
      rw [Position.read_of_isGroup dialect (h.move hmove) hblank]
      exact hflag.flag dialect
    · exact hflag.flag dialect

namespace Fragment

/-- Text without a colon, then a space, does not begin with the mark of a condition. -/
theorem stripPrefix?_conditionMark_eq_none {key : Text} (hkey : stripPrefix? conditionMark key = none)
    (rest : Text) : stripPrefix? conditionMark (key ++ ' ' :: rest) = none := by
  rw [Option.eq_none_iff_forall_ne_some]
  intro after h
  have he := stripPrefix?_eq_some_iff.mp h
  rcases List.append_eq_append_iff.mp he with ⟨s, hs, hs'⟩ | ⟨s, hs, hs'⟩
  · cases s with
    | nil =>
      rw [List.append_nil] at hs
      have hself : stripPrefix? conditionMark key = some [] := stripPrefix?_eq_some_iff.mpr (by rw [hs, List.append_nil])
      rw [hkey] at hself
      cases hself
    | cons c s =>
      -- the mark would hold the space
      have hc : c = ' ' := by
        simp only [List.cons_append, List.cons.injEq] at hs'
        exact hs'.1.symm
      have hm : ' ' ∈ conditionMark := by rw [hs, hc]; simp
      exact absurd hm (by decide)
  · have hself : stripPrefix? conditionMark key = some s := stripPrefix?_eq_some_iff.mpr hs
    rw [hkey] at hself
    cases hself

theorem stripPrefix?_conditionMark_of_colon {key : Text} (h : ':' ∉ key) : stripPrefix? conditionMark key = none := by
  rw [Option.eq_none_iff_forall_ne_some]
  intro rest hr
  rw [stripPrefix?_eq_some_iff.mp hr] at h
  exact h (List.mem_append_left _ (by decide))

/-- What stands before the first colon of a flag holds the space behind the key. -/
theorem any_isBlank_of_cutAt? {key rest before after : Text} (hkey : ':' ∉ key)
    (h : cutAt? (· == ':') (key ++ ' ' :: rest) = some (before, after)) : before.any isBlank = true := by
  obtain ⟨_, c, hc, he⟩ := cutAt?_eq_some_iff.mp h
  have hc : c = ':' := by simpa using hc
  rw [hc] at he
  have hspace : ' ' ∈ before := by
    rcases List.append_eq_append_iff.mp he with ⟨s, hs, hs'⟩ | ⟨s, hs, hs'⟩
    · cases s with
      | nil => simp at hs'
      | cons d s =>
        simp only [List.cons_append, List.cons.injEq] at hs'
        rw [hs, ← hs'.1]
        simp
    · cases s with
      | nil => simp at hs'
      | cons d s =>
        simp only [List.cons_append, List.cons.injEq] at hs'
        exact absurd (by rw [hs, ← hs'.1]; simp) hkey
  exact List.any_eq_true.mpr ⟨' ', hspace, by decide⟩

/-- Text behind the mark of a condition is read as a condition. -/
theorem read_conditionMark (dialect : Dialect) {s : Text} (h : (conditionMark ++ s).IsFragment) :
    read dialect (conditionMark ++ s) = .single (condition dialect (conditionMark ++ s) s) := by
  have hdollar : (conditionMark ++ s).head? ≠ some '$' := by
    rw [List.head?_append_of_ne_nil _ (by decide)]
    decide
  have hmark : stripPrefix? conditionMark (conditionMark ++ s) = some s := stripPrefix?_eq_some_iff.mpr rfl
  rw [read, h.trimmed]
  simp only [if_neg h.ne_nil, if_neg hdollar, hmark]

/-- **A fragment of a window rule gives its item.** -/
theorem read_inlineFragment (dialect : Dialect) {item : Item} (h : item.InlineExpressible .window) :
    read dialect (item.inlineFragment .window) = .single (item.encoded dialect .window) := by
  have hfragment := h.isFragment
  obtain ⟨key, value, role, isMalformed⟩ := item
  obtain ⟨hform, h⟩ := h
  cases hform
  cases role with
  | flag =>
    have h : Item.IsWindowFlag ⟨key, value, .flag, false⟩ := h
    have hdollar : (key ++ ' ' :: value).head? ≠ some '$' := by
      rw [List.head?_append_of_ne_nil _ h.name.ne_nil]
      exact h.dollar
    have hunmarked := stripPrefix?_conditionMark_eq_none (stripPrefix?_conditionMark_of_colon h.colon) value
    have hitem : Item.inlineFragment .window ⟨key, value, .flag, false⟩ = key ++ ' ' :: value := rfl
    rw [hitem] at hfragment ⊢
    rw [read, hfragment.trimmed]
    simp only [if_neg hfragment.ne_nil, if_neg hdollar, hunmarked]
    have hflag := h.windowFlag dialect
    cases hcut : cutAt? (· == ':') (key ++ ' ' :: value) with
    | none => exact congrArg Reading.single hflag
    | some sides =>
      simp only [any_isBlank_of_cutAt? h.colon hcut, if_true]
      exact congrArg Reading.single hflag
  | selector =>
    have h : Item.IsWindowSelector ⟨key, value, .selector, false⟩ := h
    have hitem : Item.inlineFragment .window ⟨key, value, .selector, false⟩ = conditionMark ++ (key ++ ' ' :: value) :=
      List.append_assoc ..
    rw [hitem] at hfragment ⊢
    rw [read_conditionMark dialect hfragment]
    simp only [condition, h.name.cutAt?, if_neg h.name.ne_nil, h.trimmed]
    rfl
  | predicate =>
    have h : Item.IsPredicate ⟨key, value, .predicate, false⟩ := h
    obtain ⟨hbare, ⟨hdollar, _⟩ | ⟨hdollar, hname⟩, _⟩ := h
    · have hitem : Item.inlineFragment .window ⟨key, value, .predicate, false⟩ = key := if_pos hdollar
      have hdollar : key.head? = some '$' := hdollar
      rw [hitem] at hfragment ⊢
      rw [read, hfragment.trimmed]
      simp only [if_neg hfragment.ne_nil, if_pos hdollar]
      cases hbare
      rfl
    · have hitem : Item.inlineFragment .window ⟨key, value, .predicate, false⟩ = conditionMark ++ key := if_neg hdollar
      have hcut : cutAt? isBlank key = none := cutAt?_eq_none_iff.mpr hname.blank
      rw [hitem] at hfragment ⊢
      rw [read_conditionMark dialect hfragment]
      simp only [condition, hcut, if_neg hname.ne_nil]
      cases hbare
      rfl

end Fragment

/-- **A fragment of a layer rule gives its item.** -/
theorem Line.newerLayerItem_inlineFragment (dialect : Dialect) {item : Item} (h : item.InlineExpressible .layer) :
    Line.newerLayerItem dialect (item.inlineFragment .layer) = item.encoded dialect .layer := by
  rw [Line.newerLayerItem, if_neg h.isFragment.ne_nil]
  obtain ⟨key, value, role, isMalformed⟩ := item
  obtain ⟨hform, h⟩ := h
  cases hform
  cases role with
  | flag =>
    have h : Item.IsLayerFlag ⟨key, value, .flag, false⟩ := h
    have hitem : Item.inlineFragment .layer ⟨key, value, .flag, false⟩ = key ++ ' ' :: value := rfl
    rw [hitem, Fragment.stripPrefix?_conditionMark_eq_none h.unmarked]
    exact h.plainFlag dialect
  | selector =>
    have h : Item.IsLayerSelector ⟨key, value, .selector, false⟩ := h
    have hitem : Item.inlineFragment .layer ⟨key, value, .selector, false⟩ =
        Fragment.conditionMark ++ (Item.namespaceKey ++ ' ' :: key) := List.append_assoc ..
    have hmark : stripPrefix? Fragment.conditionMark (Fragment.conditionMark ++ (Item.namespaceKey ++ ' ' :: key)) =
        some (Item.namespaceKey ++ ' ' :: key) := stripPrefix?_eq_some_iff.mpr rfl
    have hcut : cutAt? isBlank (Item.namespaceKey ++ ' ' :: key) = some (Item.namespaceKey, key) :=
      cutAt?_eq_some_iff.mpr ⟨by decide, ' ', by decide, rfl⟩
    have henabled : value = Keys.enabled := h.enabled
    rw [hitem, hmark]
    simp only [hcut, h.trimmed, if_neg h.ne_nil, henabled]
    rfl
  | predicate => exact h.elim

/-! ## Reading a line -/

/-- A space behind each comma stands at the front of the next fragment. -/
theorem intercalate_comma_space {parts : List Text} (h : parts ≠ []) :
    ' ' :: [',', ' '].intercalate parts = [','].intercalate (parts.map (' ' :: ·)) := by
  induction parts with
  | nil => exact absurd rfl h
  | cons part parts ih =>
    cases parts with
    | nil => simp
    | cons next parts =>
      have ih := ih (List.cons_ne_nil _ _)
      rw [List.map_cons] at ih
      rw [List.intercalate_cons_cons, List.map_cons, List.map_cons, List.intercalate_cons_cons, ← ih]
      simp

/-- The fragments of a written line, without the blanks around them. -/
theorem split_fragments {fragments : List Text} (hne : fragments ≠ [])
    (h : ∀ s ∈ fragments, s.IsFragment) :
    (Comma.split (' ' :: [',', ' '].intercalate fragments)).map trim = fragments := by
  have hsafe : ∀ s ∈ fragments.map (' ' :: ·), Comma.Safe s := by
    intro s hs
    obtain ⟨fragment, hf, rfl⟩ := List.mem_map.mp hs
    have hspace : Comma.Safe [' '] := by decide
    exact hspace.append (h fragment hf).safe
  rw [intercalate_comma_space hne, Comma.split_intercalate (by simpa using hne) hsafe, List.map_map]
  refine (List.map_congr_left fun s hs => ?_).trans (List.map_id _)
  exact (trim_cons_blank (by decide) s).trans (h s hs).trimmed

/-- The fragments of a window rule give its items. -/
theorem Line.items_window (dialect : Dialect) {items : List Item} (h : ∀ item ∈ items, item.InlineExpressible .window) :
    Line.items dialect .window (items.map (Item.inlineFragment .window)) = items.map (Item.encoded dialect .window) := by
  have hkeep : (items.map (Item.inlineFragment .window)).filter (· ≠ []) = items.map (Item.inlineFragment .window) := by
    refine List.filter_eq_self.mpr fun s hs => ?_
    obtain ⟨item, hi, rfl⟩ := List.mem_map.mp hs
    simpa using (h item hi).isFragment.ne_nil
  have hread : ∀ item ∈ items, (Fragment.read dialect (item.inlineFragment .window)).toList =
      [item.encoded dialect .window] := fun item hi => by
    rw [Fragment.read_inlineFragment dialect (h item hi)]
    rfl
  rw [Line.items]
  simp only [hkeep, List.flatMap_map]
  rw [List.flatMap_congr hread]
  exact List.map_eq_flatMap.symm

/-- The fragments of a layer rule give its items: in the newer form if it has a namespace, and in the older form if it
is a single flag. -/
theorem Line.items_layer (dialect : Dialect) {items : List Item} (h : ∀ item ∈ items, item.InlineExpressible .layer)
    (hform : (∃ item ∈ items, item.role = .selector) ∨ items.length ≤ 1) :
    Line.items dialect .layer (items.map (Item.inlineFragment .layer)) = items.map (Item.encoded dialect .layer) := by
  have hnewer : (items.map (Item.inlineFragment .layer)).map (Line.newerLayerItem dialect) =
      items.map (Item.encoded dialect .layer) := by
    rw [List.map_map]
    exact List.map_congr_left fun item hi => Line.newerLayerItem_inlineFragment dialect (h item hi)
  rw [Line.items]
  split
  · exact hnewer
  · next hmark =>
    rcases hform with ⟨selector, hs, hrole⟩ | hlength
    · refine absurd (List.any_eq_true.mpr ⟨_, List.mem_map_of_mem hs, ?_⟩) hmark
      have hfragment : selector.inlineFragment .layer =
          Fragment.conditionMark ++ (Item.namespaceKey ++ ' ' :: selector.key) := by
        simp [Item.inlineFragment, Item.writtenValue?, Item.writtenKey, hrole]
      rw [hfragment]
      exact List.isPrefixOf_iff_prefix.mpr ⟨_, rfl⟩
    · cases items with
      | nil => rfl
      | cons item items =>
        have hnone : items = [] := List.length_eq_zero_iff.mp (by simpa using hlength)
        subst hnone
        -- without a mark the newer form reads a fragment as the older one does
        have hstrip : stripPrefix? Fragment.conditionMark (item.inlineFragment .layer) = none := by
          rw [Option.eq_none_iff_forall_ne_some]
          intro rest hr
          refine hmark (List.any_eq_true.mpr ⟨_, List.mem_map_of_mem (List.mem_singleton_self item), ?_⟩)
          exact List.isPrefixOf_iff_prefix.mpr ⟨rest, (stripPrefix?_eq_some_iff.mp hr).symm⟩
        have hne := (h item (List.mem_singleton_self item)).isFragment.ne_nil
        rw [← hnewer]
        simp [Line.olderLayerItems, Line.newerLayerItem, hne, hstrip]

namespace Rule

/-- The fragments of the line of a rule. -/
def fragments (rule : Rule) : List Text := rule.writtenItems.map (Item.inlineFragment rule.subject)

/-- What is read from the line of a rule. -/
def fromLine (dialect : Dialect) (rule : Rule) : Rule :=
  ⟨rule.subject, Line.items dialect rule.subject ((Comma.split (' ' :: [',', ' '].intercalate rule.fragments)).map trim)⟩

/-- A written line is cut at its equals sign, and what stands behind it is divided into fragments. -/
theorem parts?_inlineText (rule : Rule) : Line.parts? rule.inlineText =
    some (rule.subject.keyword ++ [' '], Comma.split (' ' :: [',', ' '].intercalate rule.fragments)) := by
  have hcut : cutAt? (· == '=') rule.inlineText =
      some (rule.subject.keyword ++ [' '], ' ' :: [',', ' '].intercalate rule.fragments) := by
    refine cutAt?_eq_some_iff.mpr ⟨?_, '=', by decide, by simp [inlineText, fragments]⟩
    cases rule.subject <;> decide
  rw [Line.parts?, hcut, Option.map_some]

/-- A written line holds a rule, which is read from what stands behind the equals sign. -/
theorem read?_inlineText (dialect : Dialect) (rule : Rule) :
    Line.read? dialect rule.inlineText = some (rule.fromLine dialect) := by
  have htrim : Subject.ofKeyword? (trim (rule.subject.keyword ++ [' '])) = some rule.subject := by
    cases rule.subject <;> rfl
  simp only [Line.read?, parts?_inlineText, Option.bind_eq_bind, Option.bind_some, htrim]
  rfl

/-- **A rule on one line is read back** in the written order, as the dialect keeps it. A layer rule without items gives
an empty fragment, which is malformed. -/
theorem InlineExpressible.fromLine {rule : Rule} (h : rule.InlineExpressible)
    (hne : rule.subject = .layer → rule.items ≠ []) (dialect : Dialect) :
    rule.fromLine dialect = ⟨rule.subject, rule.writtenItems.map (Item.encoded dialect rule.subject)⟩ := by
  have hitems : ∀ item ∈ rule.writtenItems, item.InlineExpressible rule.subject := fun item hi =>
    h.items item (mem_writtenItems_iff.mp hi).1
  have hmem : ∀ item ∈ rule.items, item ∈ rule.writtenItems := fun item hi =>
    mem_writtenItems_iff.mpr ⟨hi, (h.items item hi).1⟩
  have hfragment : ∀ s ∈ rule.fragments, s.IsFragment := by
    intro s hs
    obtain ⟨item, hi, rfl⟩ := List.mem_map.mp hs
    exact (hitems item hi).isFragment
  rw [Rule.fromLine]
  congr 1
  by_cases hwritten : rule.writtenItems = []
  · have hempty : rule.items = [] := List.eq_nil_iff_forall_not_mem.mpr fun item hi => by simpa [hwritten] using hmem item hi
    have hwindow : rule.subject = .window := by
      cases hs : rule.subject with
      | window => rfl
      | layer => exact absurd hempty (hne hs)
    rw [fragments, hwritten, hwindow]
    rfl
  · have hsome : rule.fragments ≠ [] := by simpa [fragments] using hwritten
    rw [split_fragments hsome hfragment, fragments]
    cases hs : rule.subject with
    | window =>
      rw [hs] at hitems
      exact Line.items_window dialect hitems
    | layer =>
      rw [hs] at hitems
      refine Line.items_layer dialect hitems ((h.layer hs).imp ?_ fun hlength => ?_)
      · rintro ⟨selector, hi, hrole⟩
        exact ⟨selector, hmem selector hi, hrole⟩
      · rw [length_writtenItems fun item hi => (h.items item hi).1]
        exact hlength

/-- A line is read back up to malformed items if the items of the rule are grouped. -/
theorem InlineExpressible.tidied_fromLine {rule : Rule} (h : rule.InlineExpressible) (hgrouped : Item.Grouped rule.items)
    (dialect : Dialect) : (rule.fromLine dialect).tidied = rule.encoded dialect := by
  by_cases hempty : rule.items = []
  · obtain ⟨subject, items⟩ := rule
    cases hempty
    cases subject <;> rfl
  · have hwell : (rule.items.map (Item.encoded dialect rule.subject)).filter (!·.isMalformed) =
        rule.items.map (Item.encoded dialect rule.subject) := by
      refine List.filter_eq_self.mpr fun item hi => ?_
      obtain ⟨kept, hk, rfl⟩ := List.mem_map.mp hi
      rw [Item.encoded_isMalformed, hgrouped.wellFormed kept hk]
      rfl
    rw [h.fromLine (fun _ => hempty) dialect, writtenItems_of_grouped hgrouped, tidied, wellFormed, hwell, encoded]

end Rule

/-! ## The line in a text -/

/-- The line of a rule is trimmed behind its equals sign. -/
theorem Rule.trim_inlineText (rule : Rule) : ∃ rest, trim rule.inlineText = rule.subject.keyword ++ ' ' :: '=' :: rest := by
  have hstart : ∀ rest : Text, trimStart (rule.subject.keyword ++ rest) = rule.subject.keyword ++ rest := by
    intro rest
    cases rule.subject <;> rfl
  have hequals : isBlank '=' = false := by decide
  have hline : rule.inlineText = (rule.subject.keyword ++ [' ']) ++ '=' :: ' ' ::
      [',', ' '].intercalate (rule.writtenItems.map (Item.inlineFragment rule.subject)) := by
    rw [Rule.inlineText]
    simp
  rw [hline, trim, List.append_assoc, hstart, ← List.append_assoc, trimEnd_append_cons hequals, List.append_assoc]
  exact ⟨_, rfl⟩

/-- A line with an equals sign behind the keyword opens no block. -/
theorem Block.opening?_keyword (subject : Subject) (rest : Text) :
    opening? (subject.keyword ++ ' ' :: '=' :: rest) = none := by
  have hdrop : (subject.keyword ++ ' ' :: '=' :: rest).drop subject.keyword.length = ' ' :: '=' :: rest := by simp
  simp only [opening?, Subject.ofKeyword?_append, Option.bind_eq_bind, Option.bind_some, hdrop]
  rfl

namespace Document

theorem opening?_inlineText (options : Options) (rule : Rule) : opening? options rule.inlineText = none := by
  obtain ⟨rest, htrim⟩ := rule.trim_inlineText
  rw [opening?, htrim, Block.opening?_keyword]
  split <;> rfl

/-- The line of a rule stands by itself. -/
theorem contents_inlineText (dialect : Dialect) {rule : Rule} (h : rule.OneLine) :
    contents { dialect } (textLines rule.inlineText) = [.lineRule (rule.fromLine dialect) rule.inlineText] := by
  have hlines : textLines rule.inlineText = [rule.inlineText] := List.splitOn_eq_singleton (oneLine_inlineText h)
  rw [hlines, contents_of_line (opening?_inlineText _ rule), contents_nil, Content.ofLine, rule.read?_inlineText]

theorem stands_inlineText (dialect : Dialect) {rule : Rule} (h : rule.OneLine) :
    Stands { dialect } (textLines rule.inlineText) := by
  have hcontents := contents_inlineText dialect h
  constructor
  · intro line hl
    rw [hcontents] at hl
    cases List.mem_singleton.mp hl
  · intro line hl
    rw [hcontents] at hl
    cases hl
  · have hlines : textLines rule.inlineText = [rule.inlineText] := List.splitOn_eq_singleton (oneLine_inlineText h)
    rw [hlines]
    refine Block.passes_of_not_isClosing fun line hl => ?_
    obtain ⟨rest, htrim⟩ := rule.trim_inlineText
    rw [List.mem_singleton.mp hl, htrim]
    cases rule.subject <;> rfl

end Document

end WindowRules

import WindowRules.Proofs.Merging.Fixed
import WindowRules.Proofs.Reading.Dialects

/-!
# Rules in blocks are read back

A rule that is written as a block is read back as a block with an empty line behind, unless one of its lines looks like
the opening of another block (`Document.contents_blockText`). The block holds the rule as the reading dialect keeps it
(`BlockExpressible.fromBlock`), if every item has a form that an entry can show (`Item.BlockExpressible`): keys without
equals signs and spaces, values that are trimmed and have their commas bare.

* `Block.Gives` — a line of the body gives an item and neither closes the block nor stops the search for its end. There
  is one lemma for an entry with a value and one for an entry without (`gives_of_value`, `gives_of_key`).
* `Rule.KeepsOpen.close?_blockBody` — so the end of the block is found behind the lines of the items.
-/

namespace WindowRules

/-! ## Forms that an entry can show -/

/-- The text can stand before the equals sign of an entry. -/
structure Text.IsEntryKey (s : Text) : Prop where
  ne_nil : s ≠ []
  chars : ∀ c ∈ s, Entry.isKeyChar c = true
  oneLine : s.OneLine

/-- The text can stand behind the equals sign of an entry, and its commas are bare. -/
structure Text.IsEntryValue (s : Text) : Prop where
  ne_nil : s ≠ []
  trimmed : s.trim = s
  oneLine : s.OneLine
  bare : Comma.unescape s = s
  brace : s.getLast? ≠ some '{'

namespace Item

/-- A flag with a newer key that is neither a comment nor the name of the rule nor marked as a condition. -/
structure IsBlockFlag (item : Item) : Prop where
  key : item.key.IsEntryKey
  blank : ∀ c ∈ item.key.head?, Text.isBlank c = false
  comment : item.key.head? ≠ some '#'
  name : item.key ≠ "name".toList
  unmarked : Text.stripPrefix? Fragment.conditionMark item.key = none
  newer : Keys.flagKey item.key = item.key
  value : item.value.IsEntryValue

/-- A condition with a value. -/
structure IsBlockSelector (item : Item) : Prop where
  key : item.key.IsEntryKey
  value : item.value.IsEntryValue

/-- A namespace, which stands behind the equals sign. -/
structure IsBlockNamespace (item : Item) : Prop where
  enabled : item.value = Keys.enabled
  key : item.key.IsEntryValue

/-- A named condition, which ends its line. -/
structure IsBlockPredicate (item : Item) : Prop where
  bare : item.value = []
  key : item.key.IsEntryKey
  blank : ∀ c ∈ item.key.getLast?, Text.isBlank c = false
  brace : item.key.getLast? ≠ some '{'

/-- The item has a form that an entry of a rule about the subject can show. -/
def BlockExpressible (subject : Subject) (item : Item) : Prop :=
  match item.role, subject with
  | .flag, _ => item.IsBlockFlag
  | .selector, .window => item.IsBlockSelector
  | .selector, .layer => item.IsBlockNamespace
  | .predicate, _ => item.IsBlockPredicate

end Item

/-- All well-formed items have a form that an entry can show. -/
def Rule.BlockExpressible (rule : Rule) : Prop :=
  ∀ item ∈ rule.items, item.isMalformed = false → item.BlockExpressible rule.subject

section Decidable

instance (s : Text) : Decidable s.IsEntryKey :=
  decidable_of_iff (s ≠ [] ∧ (∀ c ∈ s, Entry.isKeyChar c = true) ∧ s.OneLine)
    ⟨fun ⟨ne_nil, chars, oneLine⟩ => ⟨ne_nil, chars, oneLine⟩, fun h => ⟨h.ne_nil, h.chars, h.oneLine⟩⟩

instance (s : Text) : Decidable s.IsEntryValue :=
  decidable_of_iff (s ≠ [] ∧ s.trim = s ∧ s.OneLine ∧ Comma.unescape s = s ∧ s.getLast? ≠ some '{')
    ⟨fun ⟨ne_nil, trimmed, oneLine, bare, brace⟩ => ⟨ne_nil, trimmed, oneLine, bare, brace⟩,
      fun h => ⟨h.ne_nil, h.trimmed, h.oneLine, h.bare, h.brace⟩⟩

namespace Item

instance (item : Item) : Decidable item.IsBlockFlag :=
  decidable_of_iff (item.key.IsEntryKey ∧ (∀ c ∈ item.key.head?, Text.isBlank c = false) ∧
      item.key.head? ≠ some '#' ∧ item.key ≠ "name".toList ∧
      Text.stripPrefix? Fragment.conditionMark item.key = none ∧ Keys.flagKey item.key = item.key ∧
      item.value.IsEntryValue)
    ⟨fun ⟨key, blank, comment, name, unmarked, newer, value⟩ => ⟨key, blank, comment, name, unmarked, newer, value⟩,
      fun h => ⟨h.key, h.blank, h.comment, h.name, h.unmarked, h.newer, h.value⟩⟩

instance (item : Item) : Decidable item.IsBlockSelector :=
  decidable_of_iff (item.key.IsEntryKey ∧ item.value.IsEntryValue)
    ⟨fun ⟨key, value⟩ => ⟨key, value⟩, fun h => ⟨h.key, h.value⟩⟩

instance (item : Item) : Decidable item.IsBlockNamespace :=
  decidable_of_iff (item.value = Keys.enabled ∧ item.key.IsEntryValue)
    ⟨fun ⟨enabled, key⟩ => ⟨enabled, key⟩, fun h => ⟨h.enabled, h.key⟩⟩

instance (item : Item) : Decidable item.IsBlockPredicate :=
  decidable_of_iff (item.value = [] ∧ item.key.IsEntryKey ∧ (∀ c ∈ item.key.getLast?, Text.isBlank c = false) ∧
      item.key.getLast? ≠ some '{')
    ⟨fun ⟨bare, key, blank, brace⟩ => ⟨bare, key, blank, brace⟩, fun h => ⟨h.bare, h.key, h.blank, h.brace⟩⟩

instance (subject : Subject) (item : Item) : Decidable (item.BlockExpressible subject) :=
  match item, subject with
  | ⟨_, _, .flag, _⟩, _ => inferInstanceAs (Decidable (IsBlockFlag _))
  | ⟨_, _, .selector, _⟩, .window => inferInstanceAs (Decidable (IsBlockSelector _))
  | ⟨_, _, .selector, _⟩, .layer => inferInstanceAs (Decidable (IsBlockNamespace _))
  | ⟨_, _, .predicate, _⟩, _ => inferInstanceAs (Decidable (IsBlockPredicate _))

end Item

instance (rule : Rule) : Decidable rule.BlockExpressible :=
  inferInstanceAs (Decidable (∀ item ∈ rule.items, item.isMalformed = false → item.BlockExpressible rule.subject))

end Decidable

open Text

/-! ## Lines of a body -/

namespace Entry

/-- A key is read up to the space behind it. -/
theorem read_of_value {key value : Text} (hne : key ≠ []) (hkey : ∀ c ∈ key, isKeyChar c = true)
    (hvalue : trim value = value) : Entry.read (key ++ ' ' :: '=' :: ' ' :: value) = .ok ⟨key, some value⟩ := by
  have htake : (key ++ ' ' :: '=' :: ' ' :: value).takeWhile isKeyChar = key := by
    rw [List.takeWhile_append_of_pos hkey, List.takeWhile_cons_of_neg (by decide), List.append_nil]
  have hdrop : (key ++ ' ' :: '=' :: ' ' :: value).dropWhile isKeyChar = ' ' :: '=' :: ' ' :: value := by
    rw [List.dropWhile_append_of_pos hkey, List.dropWhile_cons_of_neg (by decide)]
  have hrest : (' ' :: '=' :: ' ' :: value).dropWhile isSpaceOrTab = '=' :: ' ' :: value := by
    rw [List.dropWhile_cons_of_pos (by decide), List.dropWhile_cons_of_neg (by decide)]
  have htrim : trim (' ' :: value) = value := (trim_cons_blank (by decide) value).trans hvalue
  simp only [read, htake, hdrop, hrest, if_neg hne, htrim]

theorem read_of_key {key : Text} (hne : key ≠ []) (hkey : ∀ c ∈ key, isKeyChar c = true) :
    Entry.read key = .ok ⟨key, none⟩ := by
  have htake : (key ++ []).takeWhile isKeyChar = key ++ [].takeWhile isKeyChar := List.takeWhile_append_of_pos hkey
  have hdrop : (key ++ []).dropWhile isKeyChar = [].dropWhile isKeyChar := List.dropWhile_append_of_pos hkey
  rw [List.append_nil, List.takeWhile_nil, List.append_nil] at htake
  rw [List.append_nil, List.dropWhile_nil] at hdrop
  simp only [read, htake, hdrop, if_neg hne, List.dropWhile_nil]

end Entry

namespace Block

/-- The line of a body gives the item, or none, has no problem and leaves the block open. -/
structure Gives (dialect : Dialect) (subject : Subject) (line : Text) (item? : Option Item) : Prop where
  closing : isClosing (trim line) = false
  opening : endsOpen (trim line) = false
  reads : ∀ number, readLine? dialect subject number line = item?.map (·, none)

theorem readLine?_of_read {dialect : Dialect} {subject : Subject} {line : Text} {entry : Entry} {item? : Option Item}
    (hsilent : Line.isSilent (trim line) = false) (hread : Entry.read (trim line) = .ok entry)
    (hitem : entry.item? dialect subject (trim line) = item?) (hform : ∀ item ∈ item?, item.isMalformed = false)
    (number : Nat) : readLine? dialect subject number line = item?.map (·, none) := by
  simp only [readLine?, hsilent, hread, hitem]
  cases item? with
  | none => rfl
  | some item => simp [hform item rfl]

/-- A line that is not silent begins with a character other than the mark of a comment. -/
theorem isSilent_eq_false {s : Text} (htrim : trim s = s) (hne : s ≠ []) (hcomment : s.head? ≠ some '#') :
    Line.isSilent s = false := by
  simp [Line.isSilent, htrim, hne, hcomment]

/-- **An entry with a value** behind two spaces. -/
theorem gives_of_value {dialect : Dialect} {subject : Subject} {key value : Text} {item? : Option Item}
    (hne : key ≠ []) (hkey : ∀ c ∈ key, Entry.isKeyChar c = true) (hblank : ∀ c ∈ key.head?, isBlank c = false)
    (hcomment : key.head? ≠ some '#') (hvalue : value ≠ []) (htrimmed : trim value = value)
    (hbrace : value.getLast? ≠ some '{')
    (hitem : ∀ line, Entry.item? dialect subject line ⟨key, some value⟩ = item?)
    (hform : ∀ item ∈ item?, item.isMalformed = false) :
    Gives dialect subject (' ' :: ' ' :: key ++ ' ' :: '=' :: ' ' :: value) item? := by
  have hlast : (key ++ ' ' :: '=' :: ' ' :: value).getLast? = value.getLast? := by
    have happend : key ++ ' ' :: '=' :: ' ' :: value = (key ++ [' ', '=', ' ']) ++ value := by simp
    rw [happend, List.getLast?_append_of_ne_nil _ hvalue]
  have hfirst : (key ++ ' ' :: '=' :: ' ' :: value).head? = key.head? := List.head?_append_of_ne_nil key hne
  have hself : trim (key ++ ' ' :: '=' :: ' ' :: value) = key ++ ' ' :: '=' :: ' ' :: value := by
    refine trim_eq_self_iff.mpr ⟨?_, ?_⟩
    · rw [hfirst]
      exact hblank
    · rw [hlast]
      exact (trim_eq_self_iff.mp htrimmed).2
  have htrim : trim (' ' :: ' ' :: key ++ ' ' :: '=' :: ' ' :: value) = key ++ ' ' :: '=' :: ' ' :: value := by
    rw [List.cons_append, List.cons_append, trim_cons_blank (by decide), trim_cons_blank (by decide), hself]
  have hequals : '=' ∈ key ++ ' ' :: '=' :: ' ' :: value := by simp
  refine ⟨?_, ?_, readLine?_of_read ?_ ?_ (hitem _) hform⟩
  · rw [htrim, isClosing, beq_eq_false_iff_ne]
    intro he
    rw [he] at hequals
    exact absurd hequals (by decide)
  · rw [htrim, endsOpen, hlast, beq_eq_false_iff_ne]
    exact hbrace
  · rw [htrim]
    exact isSilent_eq_false hself (by simp) (by rw [hfirst]; exact hcomment)
  · rw [htrim]
    exact Entry.read_of_value hne hkey htrimmed

/-- **An entry without a value** behind two spaces. -/
theorem gives_of_key {dialect : Dialect} {subject : Subject} {key : Text} {item? : Option Item}
    (hne : key ≠ []) (hkey : ∀ c ∈ key, Entry.isKeyChar c = true) (htrimmed : trim key = key)
    (hcomment : key.head? ≠ some '#') (hclosing : key ≠ ['}']) (hbrace : key.getLast? ≠ some '{')
    (hitem : ∀ line, Entry.item? dialect subject line ⟨key, none⟩ = item?)
    (hform : ∀ item ∈ item?, item.isMalformed = false) : Gives dialect subject (' ' :: ' ' :: key) item? := by
  have htrim : trim (' ' :: ' ' :: key) = key := by
    rw [trim_cons_blank (by decide), trim_cons_blank (by decide), htrimmed]
  refine ⟨?_, ?_, readLine?_of_read ?_ ?_ (hitem _) hform⟩
  · rw [htrim, isClosing, beq_eq_false_iff_ne]
    exact hclosing
  · rw [htrim, endsOpen, beq_eq_false_iff_ne]
    exact hbrace
  · rw [htrim]
    exact isSilent_eq_false htrimmed hne hcomment
  · rw [htrim]
    exact Entry.read_of_key hne hkey

end Block

/-! ## The line of an item -/

/-- A key behind the mark of a condition is the key of an entry, and no name of a rule. -/
theorem Fragment.marked_key {key : Text} (h : ∀ c ∈ key, Entry.isKeyChar c = true) :
    (∀ c ∈ conditionMark ++ key, Entry.isKeyChar c = true) ∧ conditionMark ++ key ≠ "name".toList ∧
      stripPrefix? conditionMark (conditionMark ++ key) = some key := by
  refine ⟨fun c hc => ?_, fun he => ?_, stripPrefix?_eq_some_iff.mpr rfl⟩
  · rcases List.mem_append.mp hc with hc | hc
    · have hmark : ∀ c ∈ conditionMark, Entry.isKeyChar c = true := by decide
      exact hmark c hc
    · exact h c hc
  · have hhead := congrArg List.head? he
    rw [List.head?_append_of_ne_nil _ (by decide)] at hhead
    exact absurd hhead (by decide)

theorem Fragment.head?_marked (key : Text) : (conditionMark ++ key).head? = some 'm' :=
  List.head?_append_of_ne_nil conditionMark (by decide)

theorem Item.IsBlockFlag.gives {item : Item} (h : item.IsBlockFlag) (dialect : Dialect) (subject : Subject) :
    Block.Gives dialect subject (' ' :: ' ' :: item.key ++ ' ' :: '=' :: ' ' :: item.value)
      (some (.flag item.key (dialect.encode item.value))) := by
  refine Block.gives_of_value h.key.ne_nil h.key.chars h.blank h.comment h.value.ne_nil h.value.trimmed h.value.brace
    (fun line => ?_) fun item hi => by cases hi; rfl
  have hflag : Fragment.flag dialect (Keys.flagKey item.key) item.value =
      .flag item.key (dialect.encode item.value) := by
    rw [h.newer, Fragment.flag, if_neg h.value.ne_nil]
  simp only [Entry.item?, if_neg h.name, h.unmarked, Option.getD_some, hflag]

/-- A condition with a value, whatever the subject makes of it. -/
theorem Block.gives_condition {dialect : Dialect} {subject : Subject} {key value : Text} (hne : key ≠ [])
    (hkey : ∀ c ∈ key, Entry.isKeyChar c = true) (hvalue : value.IsEntryValue) :
    Block.Gives dialect subject (' ' :: ' ' :: (Fragment.conditionMark ++ key) ++ ' ' :: '=' :: ' ' :: value)
      (some (match subject with
        | .window => .selector key (dialect.encode value)
        | .layer => Line.namespaceSelector dialect value)) := by
  obtain ⟨hchars, hname, hstrip⟩ := Fragment.marked_key hkey
  have hhead := Fragment.head?_marked key
  refine Block.gives_of_value (by simp [hne]) hchars (by rw [hhead]; decide) (by rw [hhead]; decide) hvalue.ne_nil
    hvalue.trimmed hvalue.brace (fun line => ?_) fun item hi => by cases hi; cases subject <;> rfl
  simp only [Entry.item?, if_neg hname, hstrip]
  cases key with
  | nil => exact absurd rfl hne
  | cons c key =>
    cases value with
    | nil => exact absurd rfl hvalue.ne_nil
    | cons d value => cases subject <;> rfl

theorem Item.IsBlockPredicate.gives {item : Item} (h : item.IsBlockPredicate) (dialect : Dialect) (subject : Subject) :
    Block.Gives dialect subject (' ' :: ' ' :: (Fragment.conditionMark ++ item.key)) (some (.predicate item.key)) := by
  obtain ⟨hchars, hname, hstrip⟩ := Fragment.marked_key h.key.chars
  have hhead := Fragment.head?_marked item.key
  have hlast : (Fragment.conditionMark ++ item.key).getLast? = item.key.getLast? :=
    List.getLast?_append_of_ne_nil _ h.key.ne_nil
  have htrim : trim (Fragment.conditionMark ++ item.key) = Fragment.conditionMark ++ item.key :=
    trim_append_eq_self (by decide) h.key.ne_nil (by decide) h.blank
  refine Block.gives_of_key (by simp [h.key.ne_nil]) hchars htrim (by rw [hhead]; decide) (fun he => ?_)
    (by rw [hlast]; exact h.brace) (fun line => ?_) fun item hi => by cases hi; rfl
  · rw [he] at hhead
    exact absurd hhead (by decide)
  · simp only [Entry.item?, if_neg hname, hstrip]
    cases hkey : item.key with
    | nil => exact absurd hkey h.key.ne_nil
    | cons c key => rfl

/-- **The line of an item gives the item** as the dialect keeps it. -/
theorem Item.BlockExpressible.gives {subject : Subject} {item : Item} (h : item.BlockExpressible subject)
    (hform : item.isMalformed = false) (dialect : Dialect) :
    Block.Gives dialect subject (item.blockLine subject) (some (item.encoded dialect subject)) := by
  obtain ⟨key, value, role, isMalformed⟩ := item
  cases hform
  cases role with
  | flag =>
    have h : IsBlockFlag ⟨key, value, .flag, false⟩ := by cases subject <;> exact h
    have hgives := h.gives dialect subject
    cases subject <;> exact hgives
  | selector =>
    cases subject with
    | window =>
      have h : IsBlockSelector ⟨key, value, .selector, false⟩ := h
      exact Block.gives_condition h.key.ne_nil h.key.chars h.value
    | layer =>
      have h : IsBlockNamespace ⟨key, value, .selector, false⟩ := h
      have hchars : ∀ c ∈ namespaceKey, Entry.isKeyChar c = true := by decide
      have hne : namespaceKey ≠ [] := by decide
      have hgives : Block.Gives dialect .layer _ _ := Block.gives_condition hne hchars h.key
      have henabled : value = Keys.enabled := h.enabled
      rw [henabled]
      exact hgives
  | predicate =>
    have h : IsBlockPredicate ⟨key, value, .predicate, false⟩ := by cases subject <;> exact h
    have hgives := h.gives dialect subject
    have hbare : value = [] := h.bare
    cases hbare
    have hline : blockLine subject ⟨key, [], .predicate, false⟩ = ' ' :: ' ' :: (Fragment.conditionMark ++ key) := by
      cases subject <;> exact List.append_nil _
    rw [hline]
    cases subject <;> exact hgives

/-! ## Items in both dialects -/

/-- The commas of such an item are bare. -/
theorem Item.BlockExpressible.encoded_block {subject : Subject} {item : Item} (h : item.BlockExpressible subject) :
    item.encoded .block subject = item := by
  obtain ⟨key, value, role, isMalformed⟩ := item
  cases role with
  | flag =>
    have h : IsBlockFlag ⟨key, value, .flag, isMalformed⟩ := by cases subject <;> exact h
    have hvalue : Comma.unescape value = value := h.value.bare
    cases subject <;> simp [encoded, Dialect.encode, hvalue]
  | selector =>
    cases subject with
    | window =>
      have hvalue : Comma.unescape value = value := IsBlockSelector.value h |>.bare
      simp [encoded, Dialect.encode, hvalue]
    | layer =>
      have hkey : Comma.unescape key = key := IsBlockNamespace.key h |>.bare
      simp [encoded, Dialect.encode, hkey]
  | predicate => cases subject <;> rfl

/-! ## The block of a rule -/

/-- The body of the block of a rule. -/
def Rule.blockBody (rule : Rule) (name : Text) : List Text :=
  ("  name = ".toList ++ name) :: rule.writtenItems.map (Item.blockLine rule.subject)

theorem Rule.blockLines_eq (rule : Rule) (name : Text) :
    rule.blockLines name = (rule.subject.keyword ++ [' ', '{']) :: (rule.blockBody name ++ ['}'] :: [[]]) := rfl

/-- The line of a name gives no item. -/
theorem Block.gives_name (dialect : Dialect) (subject : Subject) {name : Text} (h : name.IsEntryValue) :
    Block.Gives dialect subject ("  name = ".toList ++ name) none := by
  have hline : "  name = ".toList ++ name = ' ' :: ' ' :: "name".toList ++ ' ' :: '=' :: ' ' :: name := rfl
  rw [hline]
  exact Block.gives_of_value (by decide) (by decide) (by decide) (by decide) h.ne_nil h.trimmed h.brace
    (fun line => rfl) fun item hi => by cases hi

/-- The names of rules are plain: a keyword, a hyphen and a number. -/
theorem Counters.isEntryValue_name (counters : Counters) (subject : Subject) : (counters.name subject).IsEntryValue := by
  have hchars : ∀ c ∈ counters.name subject, isBlank c = false ∧ c ≠ '\\' ∧ c ≠ '\n' ∧ c ≠ '{' := by
    intro c hc
    have hdigit : c.isDigit → isBlank c = false ∧ c ≠ '\\' ∧ c ≠ '\n' ∧ c ≠ '{' := by
      intro hd
      refine ⟨?_, ?_, ?_, ?_⟩
      · simp only [Char.isDigit, Bool.and_eq_true, decide_eq_true_eq, UInt32.le_iff_toNat_le, ge_iff_le] at hd
        obtain ⟨hlow, hhigh⟩ := hd
        change 48 ≤ c.toNat at hlow
        change c.toNat ≤ 57 at hhigh
        simp [isBlank, blankRanges]
        omega
      all_goals
        rintro rfl
        exact absurd hd (by decide)
    rcases List.mem_append.mp hc with hc | hc
    · have hkeyword : ∀ c ∈ subject.keyword, isBlank c = false ∧ c ≠ '\\' ∧ c ≠ '\n' ∧ c ≠ '{' := by
        cases subject <;> decide
      exact hkeyword c hc
    · rcases List.mem_cons.mp hc with rfl | hc
      · decide
      · exact hdigit (Nat.isDigit_of_mem_toDigits (by omega) (by omega) hc)
  exact {
    ne_nil := by simp [Counters.name]
    trimmed := trim_of_not_isBlank fun c hc => (hchars c hc).1
    oneLine := fun hm => (hchars _ hm).2.2.1 rfl
    bare := Comma.unescape_eq_self_of_not_mem fun hm => (hchars _ hm).2.1 rfl
    brace := fun hl => (hchars _ (List.mem_of_getLast? hl)).2.2.2 rfl }

/-- The line of an item closes no block: it has an equals sign, or the mark of a condition. -/
theorem Item.not_isClosing_blockLine (subject : Subject) (item : Item) :
    Block.isClosing (trim (item.blockLine subject)) = false := by
  have hmem : ∀ {c : Char}, c ∈ item.blockLine subject → isBlank c = false → c ≠ '}' →
      Block.isClosing (trim (item.blockLine subject)) = false := by
    intro c hc hblank hne
    rw [Block.isClosing, beq_eq_false_iff_ne]
    intro he
    have htrim := mem_trim hc hblank
    rw [he, List.mem_singleton] at htrim
    exact hne htrim
  cases hvalue : item.writtenValue? subject with
  | some value =>
    have hequals : '=' ∈ item.blockLine subject := by simp [Item.blockLine, hvalue]
    exact hmem hequals (by decide) (by decide)
  | none =>
    have hmark : 'm' ∈ item.blockLine subject := by
      obtain ⟨key, value, role, isMalformed⟩ := item
      have hletter : 'm' ∈ Fragment.conditionMark := by decide
      cases role <;> cases subject <;>
        simp [Item.blockLine, Item.writtenKey, Item.writtenValue?, hletter] at hvalue ⊢
    exact hmem hmark (by decide) (by decide)

namespace Rule

/-- No line of an item ends the search for the end of the block. -/
def KeepsOpen (rule : Rule) : Prop :=
  ∀ item ∈ rule.writtenItems, Block.endsOpen (trim (item.blockLine rule.subject)) = false

instance (rule : Rule) : Decidable rule.KeepsOpen :=
  inferInstanceAs (Decidable (∀ item ∈ rule.writtenItems, Block.endsOpen (trim (item.blockLine rule.subject)) = false))

/-- What is read from the block of a rule. -/
def fromBlock (dialect : Dialect) (rule : Rule) : Rule :=
  ⟨rule.subject, rule.writtenItems.filterMap fun item => Block.item? dialect rule.subject (item.blockLine rule.subject)⟩

/-- The lines of a block are the lines of its text. -/
theorem textLines_blockText {rule : Rule} (h : rule.OneLine) {name : Text} (hname : name.OneLine) :
    Document.textLines (rule.blockText name) = rule.blockLines name := by
  refine List.splitOn_intercalate '\n' (fun line hl => ?_) (by simp [Rule.blockLines])
  rw [Rule.blockLines_eq] at hl
  simp only [Rule.blockBody, List.mem_cons, List.mem_append, List.mem_map] at hl
  rcases hl with rfl | (rfl | ⟨item, hi, rfl⟩) | rfl | rfl | hl
  · cases rule.subject <;> decide
  · exact oneLine_append_iff.mpr ⟨by decide, hname⟩
  · exact item.oneLine_blockLine rule.subject (h item (Rule.mem_writtenItems_iff.mp hi).1)
  · decide
  · decide
  · cases hl

/-- The end of the block is found behind the lines of the items. -/
theorem KeepsOpen.close?_blockBody {rule : Rule} (h : rule.KeepsOpen) {name : Text} (hname : name.IsEntryValue) :
    Block.close? (rule.blockBody name ++ ['}'] :: [[]]) = some (rule.blockBody name, ['}'], [[]]) := by
  refine Block.close?_eq_some_iff.mpr ⟨rfl, rfl, fun line hl => ?_⟩
  rcases List.mem_cons.mp hl with rfl | hl
  · have hgives := Block.gives_name .block rule.subject hname
    exact ⟨hgives.closing, hgives.opening⟩
  · obtain ⟨item, hi, rfl⟩ := List.mem_map.mp hl
    exact ⟨item.not_isClosing_blockLine rule.subject, h item hi⟩

end Rule

namespace Document

theorem opening?_keyword (dialect : Dialect) (subject : Subject) :
    opening? { dialect } (subject.keyword ++ [' ', '{']) = some subject := by
  cases subject <;> rfl

section Blocks

variable (dialect : Dialect) {rule : Rule} (hone : rule.OneLine) (hopen : rule.KeepsOpen) {name : Text}
  (hname : name.IsEntryValue)

include hone hopen hname

/-- **A block is read back as a block**, with an empty line behind. -/
theorem contents_blockText :
    contents { dialect } (textLines (rule.blockText name)) =
      [.blockRule (rule.fromBlock dialect) (rule.subject.keyword ++ [' ', '{']) (rule.blockBody name) ['}'],
        .verbatim []] := by
  have hbody : (rule.blockBody name).filterMap (Block.item? dialect rule.subject) = (rule.fromBlock dialect).items := by
    have hfirst : Block.item? dialect rule.subject ("  name = ".toList ++ name) = none := by
      rw [Block.item?, (Block.gives_name dialect rule.subject hname).reads]
      rfl
    rw [Rule.blockBody, List.filterMap_cons_none hfirst, List.filterMap_map]
    rfl
  have hlast : contents { dialect } [[]] = [.verbatim []] := by
    have hnone : opening? { dialect } [] = none := rfl
    rw [contents_of_line hnone, contents_nil]
    rfl
  rw [Rule.textLines_blockText hone hname.oneLine, Rule.blockLines_eq,
    contents_of_block (opening?_keyword dialect rule.subject) (hopen.close?_blockBody hname), hbody, hlast]
  rfl

/-- The text of a block stands by itself. -/
theorem stands_blockText : Stands { dialect } (textLines (rule.blockText name)) := by
  have hcontents := contents_blockText dialect hone hopen hname
  constructor
  · intro line hl
    rw [hcontents] at hl
    have hline : line = [] := by simpa using hl
    rw [hline]
    rfl
  · intro line hl
    rw [hcontents] at hl
    have hline : line = [] := by simpa [kept, Content.kept?] using hl
    rw [hline]
    rfl
  · rw [Rule.textLines_blockText hone hname.oneLine, Rule.blockLines_eq]
    exact Block.passes_of_endsOpen (by cases rule.subject <;> rfl) (by cases rule.subject <;> rfl) _

end Blocks

end Document

/-! ## What is read from a block -/

namespace Rule

theorem BlockExpressible.item {rule : Rule} (h : rule.BlockExpressible) :
    ∀ item ∈ rule.writtenItems, item.BlockExpressible rule.subject ∧ item.isMalformed = false := by
  intro item hi
  obtain ⟨hm, hform⟩ := Rule.mem_writtenItems_iff.mp hi
  exact ⟨h item hm hform, hform⟩

theorem BlockExpressible.keepsOpen {rule : Rule} (h : rule.BlockExpressible) : rule.KeepsOpen := fun item hi =>
  ((h.item item hi).1.gives (h.item item hi).2 .block).opening

/-- **A rule in a block is read back** in the written order, as the dialect keeps it. -/
theorem BlockExpressible.fromBlock {rule : Rule} (h : rule.BlockExpressible) (dialect : Dialect) :
    rule.fromBlock dialect = ⟨rule.subject, rule.writtenItems.map (Item.encoded dialect rule.subject)⟩ := by
  rw [Rule.fromBlock, ← List.filterMap_eq_map]
  congr 1
  refine List.filterMap_congr fun item hi => ?_
  have hgives := (h.item item hi).1.gives (h.item item hi).2 dialect
  simp only [Function.comp_apply, Block.item?, hgives.reads, Option.map_some]

theorem BlockExpressible.fromBlock_of_grouped {rule : Rule} (h : rule.BlockExpressible)
    (hgrouped : Item.Grouped rule.items) (dialect : Dialect) : rule.fromBlock dialect = rule.encoded dialect := by
  rw [h.fromBlock dialect, writtenItems_of_grouped hgrouped, encoded]

/-- A block is read alike in both dialects. -/
theorem fromBlock_inline {rule : Rule} (h : (rule.fromBlock .block).Bare) :
    rule.fromBlock .inline = (rule.fromBlock .block).encoded .inline := by
  rw [Rule.fromBlock, Rule.fromBlock, encoded, List.map_filterMap]
  congr 1
  refine List.filterMap_congr fun item hi => Block.item?_inline fun read hr => ?_
  exact h read (List.mem_filterMap.mpr ⟨item, hi, hr⟩)

end Rule

end WindowRules

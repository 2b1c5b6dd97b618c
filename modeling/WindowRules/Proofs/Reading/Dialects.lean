import WindowRules.Proofs.Reading.OneLine

/-!
# Blocks are read alike in both dialects

The value of an entry stands in the text with bare or with escaped commas, and each dialect keeps it in its own way. The
two differ by nothing else (`Entry.item?_inline`): a line of a body gives the same item in both dialects, each as the
dialect keeps it (`Block.item?_inline`). The one exception is a comma behind two backslashes, of which a block keeps one.
-/

namespace WindowRules

open Text

/-- Defaults have no commas. -/
theorem Keys.escape_defaultValue (key : Text) : Comma.escape (defaultValue key) = defaultValue key := by
  rcases defaultValue_cases key with h | h <;> rw [h] <;> decide

/-- A flag is kept alike by both dialects, each in its way, if its commas are bare in a block. -/
theorem Fragment.flag_inline {subject : Subject} {key value : Text}
    (h : (flag .block key value).encoded .block subject = flag .block key value) :
    flag .inline key value = (flag .block key value).encoded .inline subject := by
  by_cases hvalue : value = []
  · have hdefault := Keys.escape_defaultValue key
    cases subject <;> simp [flag, hvalue, Item.encoded, Item.flag, Dialect.encode, hdefault]
  · have hbare : Comma.unescape (Comma.unescape value) = Comma.unescape value := by
      cases subject <;> simpa [flag, hvalue, Item.encoded, Item.flag, Dialect.encode] using h
    have hescape := Comma.escape_unescape hbare
    cases subject <;> simp [flag, hvalue, Item.encoded, Item.flag, Dialect.encode, hescape]

/-- An entry gives the same item in both dialects, each as the dialect keeps it, if the block keeps its commas bare. -/
theorem Entry.item?_inline {subject : Subject} {line : Text} {entry : Entry}
    (h : ∀ item ∈ entry.item? .block subject line, item.encoded .block subject = item) :
    entry.item? .inline subject line = (entry.item? .block subject line).map (Item.encoded .inline subject) := by
  obtain ⟨key, value?⟩ := entry
  by_cases hname : key = "name".toList
  · simp [Entry.item?, hname]
  simp only [Entry.item?, if_neg hname, Option.mem_some, forall_eq', Option.map_some] at h ⊢
  have hmalformed : ∀ s : Text, Item.malformed s = (Item.malformed s).encoded .inline subject := fun s => by
    cases subject <;> rfl
  congr 1
  cases hstrip : stripPrefix? Fragment.conditionMark key with
  | none =>
    rw [hstrip] at h
    exact Fragment.flag_inline h
  | some condition =>
    rw [hstrip] at h
    cases condition with
    | nil => exact hmalformed line
    | cons c condition =>
      cases value? with
      | none => cases subject <;> rfl
      | some value =>
        cases value with
        | nil => exact hmalformed line
        | cons d value =>
          cases subject with
          | window =>
            have hbare : Comma.unescape (Comma.unescape (d :: value)) = Comma.unescape (d :: value) :=
              congrArg Item.value h
            exact congrArg (Item.selector (c :: condition)) (Comma.escape_unescape hbare).symm
          | layer =>
            have hbare : Comma.unescape (Comma.unescape (d :: value)) = Comma.unescape (d :: value) :=
              congrArg Item.key h
            exact congrArg (Item.selector · Keys.enabled) (Comma.escape_unescape hbare).symm

namespace Block

/-- A line of a body gives the same item in both dialects. -/
theorem item?_inline {subject : Subject} {line : Text}
    (h : ∀ item ∈ item? .block subject line, item.encoded .block subject = item) :
    item? .inline subject line = (item? .block subject line).map (Item.encoded .inline subject) := by
  simp only [item?, readLine?] at h ⊢
  split
  · rfl
  · next hsilent =>
    rw [if_neg hsilent] at h
    cases hread : Entry.read (trim line) with
    | error fault => cases subject <;> rfl
    | ok entry =>
      rw [hread] at h
      simp only [Option.map_map, Function.comp_def, Option.map_id'] at h ⊢
      exact Entry.item?_inline h

end Block
end WindowRules

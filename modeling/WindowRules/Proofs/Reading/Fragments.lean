import WindowRules.Proofs.Reading.Escaped
import WindowRules.Proofs.Writing.Inline

/-!
# The four ways to read a fragment

A fragment of a window rule is a predicate, a marked condition, a selector or a flag, whichever dialect it is read for
(`Fragment.shape_of_trim`). It is a flag if its first word neither holds a colon nor begins with a dollar sign; so what
is read depends on the words of the flag alone (`Fragment.read_of_words`).

The newer form of a flag key is its own newer form (`Keys.flagKey_flagKey`), since it is in lowercase and no older key.
-/

namespace WindowRules

open Text

theorem Text.isName_of_mem_words {s word : Text} (h : word ∈ words s) : word.IsName :=
  ⟨words_mem h, not_isBlank_of_mem_words h⟩

/-- Small letters and underscores are kept. -/
theorem Text.IsIdentifier.lower_eq_self {s : Text} (h : s.IsIdentifier) : lower s = s := by
  apply Text.lower_eq_self
  intro c hc
  have hletter := h.letter c hc
  exact not_mem_altered_of_lt (by omega) (by omega)

/-! ## Newer forms of flag keys -/

namespace Keys

/-- An identifier that is no older key is its own newer form. -/
theorem flagKey_eq_self {key : Text} (h : key.IsIdentifier) (hlookup : flagTable.lookup key = none) :
    flagKey key = key := by
  simp [flagKey, h.lower_eq_self, hlookup]

/-- **The newer form of a key is its own newer form.** -/
theorem flagKey_flagKey (key : Text) : flagKey (flagKey key) = flagKey key := by
  rcases flagKey_cases key with ⟨entry, he, hkey⟩ | ⟨hlookup, hkey⟩
  · rw [hkey]
    exact flagKey_eq_self (isIdentifier_flagTable entry he).1 (by simpa using List.all_eq_true.mp flagTable_newer entry he)
  · rw [hkey, flagKey, lower_lower]
    simp [hlookup]

theorem flagKey_ne_nil {key : Text} (h : key ≠ []) : flagKey key ≠ [] := by
  rcases flagKey_cases key with ⟨entry, he, hkey⟩ | ⟨-, hkey⟩
  · rw [hkey]
    exact (isIdentifier_flagTable entry he).1.ne_nil
  · rw [hkey]
    exact lower_ne_nil h

theorem isName_flagKey {key : Text} (h : key.IsName) : (flagKey key).IsName := by
  refine ⟨flagKey_ne_nil h.ne_nil, ?_⟩
  rcases flagKey_cases key with ⟨entry, he, hkey⟩ | ⟨-, hkey⟩
  · rw [hkey]
    exact (isIdentifier_flagTable entry he).1.not_isBlank
  · rw [hkey]
    exact not_isBlank_of_mem_lower h.blank

/-- No mark comes into a flag key. -/
theorem not_mem_flagKey {key : Text} {mark : Char} (hzero : mark ≠ '\x00') (hmark : mark.toNat < 65) (h : mark ∉ key) :
    mark ∉ flagKey key := by
  rcases flagKey_cases key with ⟨entry, he, hkey⟩ | ⟨-, hkey⟩
  · rw [hkey]
    exact (isIdentifier_flagTable entry he).1.not_mem (by omega)
  · rw [hkey]
    exact not_mem_lower hzero hmark h

theorem head?_flagKey_ne {key : Text} {mark : Char} (hzero : mark ≠ '\x00') (hmark : mark.toNat < 65)
    (h : key.head? ≠ some mark) : (flagKey key).head? ≠ some mark := by
  rcases flagKey_cases key with ⟨entry, he, hkey⟩ | ⟨-, hkey⟩
  · rw [hkey]
    exact fun hm => (isIdentifier_flagTable entry he).1.not_mem (by omega) (List.mem_of_head? hm)
  · rw [hkey]
    exact head?_lower_ne hzero hmark h

/-- The keys of sizes and moves have no older forms, so a key that becomes one has no mark. -/
theorem not_mem_of_flagKey {key : Text} (h : flagKey key = "size".toList ∨ flagKey key = "move".toList) {mark : Char}
    (hmark : mark.toNat < 65) : mark ∉ key := by
  have hlower : flagKey key = lower key := by
    rcases flagKey_cases key with ⟨entry, he, hkey⟩ | ⟨-, hkey⟩
    · obtain ⟨-, hsize, hmove⟩ := isIdentifier_flagTable entry he
      rw [hkey] at h
      exact (h.elim hsize hmove).elim
    · exact hkey
  intro hm
  have hkey := mem_lower hmark hm
  rw [← hlower] at hkey
  rcases h with h | h
  · have hsize : Text.IsIdentifier "size".toList := by decide
    exact hsize.not_mem (by omega) (h ▸ hkey)
  · have hmove : Text.IsIdentifier "move".toList := by decide
    exact hmove.not_mem (by omega) (h ▸ hkey)

end Keys

/-! ## The shape of a fragment -/

namespace Fragment

/-- The key of a selector: no blank and no colon comes before the colon behind it, and it begins no predicate and no
marked condition. -/
structure IsSelectorKey (key : Text) : Prop where
  colon : ':' ∉ key
  blank : ∀ c ∈ key, isBlank c = false
  dollar : key.head? ≠ some '$'
  mark : key ≠ "match".toList

theorem conditionMark_eq : conditionMark = "match".toList ++ [':'] := by decide

/-- A selector key is cut off at the colon behind it. -/
theorem cutAt?_colon {key : Text} (h : ':' ∉ key) (value : Text) :
    cutAt? (· == ':') (key ++ ':' :: value) = some (key, value) := by
  refine cutAt?_eq_some_iff.mpr ⟨fun c hc => ?_, ':', rfl, rfl⟩
  rw [beq_eq_false_iff_ne]
  rintro rfl
  exact h hc

theorem IsSelectorKey.stripPrefix? {key : Text} (h : IsSelectorKey key) (value : Text) :
    stripPrefix? conditionMark (key ++ ':' :: value) = none := by
  rw [Option.eq_none_iff_forall_ne_some]
  intro rest hr
  have hcut := cutAt?_colon h.colon value
  rw [stripPrefix?_eq_some_iff.mp hr, conditionMark_eq, List.append_assoc, List.singleton_append,
    cutAt?_colon (by decide)] at hcut
  exact h.mark (congrArg Prod.fst (Option.some.inj hcut)).symm

/-- Text before a colon without blanks is read as the key of a selector. -/
theorem IsSelectorKey.read {key : Text} (h : IsSelectorKey key) {value : Text}
    (htrim : trim (key ++ ':' :: value) = key ++ ':' :: value) (dialect : Dialect) :
    read dialect (key ++ ':' :: value) = selector dialect key (trim value) := by
  have hdollar : (key ++ ':' :: value).head? ≠ some '$' := by
    cases hkey : key with
    | nil => simp
    | cons c key => simpa [hkey] using h.dollar
  have hblank : ¬key.any isBlank = true := by simpa using h.blank
  rw [Fragment.read, htrim]
  simp only [if_neg (List.append_ne_nil_of_right_ne_nil key (List.cons_ne_nil ':' value)), if_neg hdollar,
    h.stripPrefix? value, cutAt?_colon h.colon, if_neg hblank]

/-- A text whose first word has no colon does not begin with the mark of a condition. -/
theorem stripPrefix?_of_words {word rest : Text} (hcolon : ':' ∉ word) (hrest : ∀ c ∈ rest.head?, isBlank c = true) :
    stripPrefix? conditionMark (word ++ rest) = none := by
  rw [Option.eq_none_iff_forall_ne_some]
  intro after hr
  rcases List.append_eq_append_iff.mp (stripPrefix?_eq_some_iff.mp hr) with ⟨s, hs, hafter⟩ | ⟨s, hs, -⟩
  · cases s with
    | nil => exact hcolon (by rw [← List.append_nil word, ← hs]; decide)
    | cons c s =>
      -- the mark of a condition would hold the blank behind the word
      have hc : isBlank c = true := hrest c (by rw [hafter]; rfl)
      have hmark : ∀ d ∈ conditionMark, isBlank d = false := by decide
      rw [hmark c (by rw [hs]; simp)] at hc
      cases hc
  · exact hcolon (by rw [hs]; exact List.mem_append_left _ (by decide))

/-- A colon that is not in the first word stands behind a blank. -/
theorem any_isBlank_of_words {word rest before after : Text} (hcolon : ':' ∉ word)
    (hrest : ∀ c ∈ rest.head?, isBlank c = true) (h : cutAt? (· == ':') (word ++ rest) = some (before, after)) :
    before.any isBlank = true := by
  obtain ⟨-, c, hc, he⟩ := cutAt?_eq_some_iff.mp h
  obtain rfl : c = ':' := by simpa using hc
  have hnot : rest ≠ ':' :: after := by
    rintro rfl
    cases hrest ':' rfl
  rcases List.append_eq_append_iff.mp he with ⟨s, rfl, hs⟩ | ⟨s, rfl, hs⟩
  · cases s with
    | nil => exact absurd hs hnot
    | cons d s =>
      have hd : isBlank d = true := hrest d (by rw [hs]; rfl)
      exact List.any_eq_true.mpr ⟨d, by simp, hd⟩
  · cases s with
    | nil => exact absurd hs.symm hnot
    | cons d s =>
      obtain ⟨rfl, -⟩ := List.cons.inj hs
      exact absurd (by simp) hcolon

/-- **A fragment is a flag if its first word has no colon and does not begin with a dollar sign.** -/
theorem read_of_words {s word : Text} {arguments : List Text} (h : words s = word :: arguments) (hcolon : ':' ∉ word)
    (hdollar : word.head? ≠ some '$') (dialect : Dialect) : read dialect s = .single (windowFlag dialect s) := by
  have hne : trim s ≠ [] := by
    intro he
    rw [← words_trim, he] at h
    cases h
  obtain ⟨first, rest, htrim, hfirst, -, hrest, hwords⟩ := exists_words_eq_cons hne (head?_trim s)
  rw [words_trim, h] at hwords
  obtain rfl := (List.cons.inj hwords).1
  have hflag : windowFlag dialect (trim s) = windowFlag dialect s := by
    unfold windowFlag
    rw [words_trim]
  have hhead : (trim s).head? ≠ some '$' := by
    rw [htrim, List.head?_append_of_ne_nil _ hfirst]
    exact hdollar
  have hunmarked : stripPrefix? conditionMark (trim s) = none := by
    rw [htrim]
    exact stripPrefix?_of_words hcolon hrest
  rw [Fragment.read]
  simp only [if_neg hne, if_neg hhead, hunmarked, hflag]
  cases hcut : cutAt? (· == ':') (trim s) with
  | none => rfl
  | some sides =>
    rw [htrim] at hcut
    simp only [any_isBlank_of_words hcolon hrest hcut, if_true]

/-- Sizes and moves are flags. -/
theorem read_of_flagKey {s word : Text} {arguments : List Text} (h : words s = word :: arguments)
    (hkey : Keys.flagKey word = "size".toList ∨ Keys.flagKey word = "move".toList) (dialect : Dialect) :
    read dialect s = .single (windowFlag dialect s) := by
  apply read_of_words h
  · exact Keys.not_mem_of_flagKey hkey (by decide)
  · exact fun hd => Keys.not_mem_of_flagKey hkey (by decide) (List.mem_of_head? hd)

section Flags

variable {s word : Text} {arguments : List Text} (h : words s = word :: arguments) (dialect : Dialect)

include h

theorem windowFlag_of_size (hsize : Keys.flagKey word = "size".toList) : windowFlag dialect s =
    flag dialect (Size.read arguments).bound.key (spaced (Size.read arguments).values) := by
  rw [windowFlag, h]
  exact if_pos hsize

theorem windowFlag_of_move (hmove : Keys.flagKey word = "move".toList) : windowFlag dialect s =
    flag dialect "move".toList (spaced (Position.read dialect arguments)) := by
  have hsize : "move".toList ≠ "size".toList := by decide
  rw [windowFlag, h]
  simp only [List.headD_cons, List.tail_cons, hmove, if_neg hsize, if_true]

theorem windowFlag_of_plain (hsize : Keys.flagKey word ≠ "size".toList) (hmove : Keys.flagKey word ≠ "move".toList) :
    windowFlag dialect s = flag dialect (Keys.flagKey word) (spaced arguments) := by
  rw [windowFlag, h]
  exact (if_neg hsize).trans (if_neg hmove)

end Flags

theorem read_of_dollar {s : Text} (htrim : trim s = s) (h : s.head? = some '$') (dialect : Dialect) :
    read dialect s = .single (.predicate s) := by
  have hne : s ≠ [] := by
    rintro rfl
    cases h
  rw [Fragment.read, htrim]
  simp only [if_neg hne, if_pos h]

theorem read_of_mark {rest : Text} (htrim : trim (conditionMark ++ rest) = conditionMark ++ rest) (dialect : Dialect) :
    read dialect (conditionMark ++ rest) = .single (condition dialect (conditionMark ++ rest) rest) := by
  have hne : conditionMark ++ rest ≠ [] := List.append_ne_nil_of_left_ne_nil (by decide) rest
  have hdollar : (conditionMark ++ rest).head? ≠ some '$' := by
    rw [List.head?_append_of_ne_nil _ (by decide)]
    decide
  have hmark : stripPrefix? conditionMark (conditionMark ++ rest) = some rest := stripPrefix?_eq_some_iff.mpr rfl
  rw [Fragment.read, htrim]
  simp only [if_neg hne, if_neg hdollar, hmark]

/-- What a fragment is read as. -/
inductive Shape : Text → Prop
  | predicate {s : Text} (dollar : s.head? = some '$') : Shape s
  | condition (rest : Text) : Shape (conditionMark ++ rest)
  | selector {key : Text} (isKey : IsSelectorKey key) (value : Text) : Shape (key ++ ':' :: value)
  | flag {s word : Text} {arguments : List Text} (words : words s = word :: arguments) (colon : ':' ∉ word)
      (dollar : word.head? ≠ some '$') : Shape s

/-- **Every fragment is read in one of four ways.** -/
theorem shape_of_trim {s : Text} (hne : s ≠ []) (htrim : trim s = s) : Shape s := by
  by_cases hdollar : s.head? = some '$'
  · exact .predicate hdollar
  have hfirst : ∀ c ∈ s.head?, isBlank c = false := (trim_eq_self_iff.mp htrim).1
  obtain ⟨word, rest, hs, hword, hblank, hrest, hwords⟩ := exists_words_eq_cons hne hfirst
  have hhead : word.head? ≠ some '$' := by
    rw [hs, List.head?_append_of_ne_nil _ hword] at hdollar
    exact hdollar
  by_cases hcolon : ':' ∈ word
  · obtain ⟨key, after, hkey, he⟩ := List.eq_append_cons_of_mem hcolon
    by_cases hmark : key = "match".toList
    · have hmarked : s = conditionMark ++ (after ++ rest) := by
        rw [hs, hkey, hmark, conditionMark_eq]
        simp
      rw [hmarked]
      exact .condition _
    · have hselector : s = key ++ ':' :: (after ++ rest) := by
        rw [hs, hkey]
        simp
      rw [hselector]
      refine .selector ⟨he, fun c hc => hblank c ?_, fun hd => hhead ?_, hmark⟩ _
      · rw [hkey]
        exact List.mem_append_left _ hc
      · rw [hkey, List.head?_append, hd]
        rfl
  · exact .flag hwords hcolon hhead

end Fragment

/-! ## The fragments of a line -/

/-- The fragments of a window rule on a line, trimmed; empty ones are passed over. Nothing else has any. -/
def Content.windowFragments : Content → List Text
  | .lineRule ⟨.window, _⟩ line => ((Line.parts? line).elim [] fun parts => parts.2.map trim).filter (· ≠ [])
  | _ => []

theorem Line.items_of_read? {dialect : Dialect} {line : Text} {rule : Rule} (h : Line.read? dialect line = some rule) :
    ∃ parts, Line.parts? line = some parts ∧
      rule = ⟨rule.subject, Line.items dialect rule.subject (parts.2.map trim)⟩ := by
  simp only [Line.read?, Option.bind_eq_bind, Option.bind_eq_some_iff] at h
  obtain ⟨parts, hparts, subject, -, hrule⟩ := h
  cases hrule
  exact ⟨parts, hparts, rfl⟩

/-- A line that opens no block is read by itself. -/
theorem Document.nodes_of_line {options : Options} {line : Text} (hline : '\n' ∉ line) (h : opening? options line = none) :
    (read options line).nodes = [.ofLine options.dialect 0 line] := by
  rw [read, textLines, List.splitOn_eq_singleton hline, readNodes_of_line h]
  simp [readNodes]

namespace Content

variable {content : Content} {fragment : Text}

theorem ne_nil_of_mem_windowFragments (h : fragment ∈ content.windowFragments) : fragment ≠ [] := by
  unfold windowFragments at h
  split at h
  · simpa using (List.mem_filter.mp h).2
  · cases h

theorem trim_of_mem_windowFragments (h : fragment ∈ content.windowFragments) : trim fragment = fragment := by
  unfold windowFragments at h
  split at h
  · next line =>
    have hm := (List.mem_filter.mp h).1
    cases hparts : Line.parts? line with
    | none => simp [hparts] at hm
    | some parts =>
      simp only [hparts, Option.elim_some, List.mem_map] at hm
      obtain ⟨s, -, rfl⟩ := hm
      exact trim_trim s
  · cases h

/-- **The items of a window rule on a line** come from its fragments. -/
theorem items_of_windowFragments {dialect : Dialect} {line : Text} {items : List Item}
    (h : Line.read? dialect line = some ⟨.window, items⟩) :
    items = (lineRule ⟨.window, items⟩ line).windowFragments.flatMap fun s => (Fragment.read dialect s).toList := by
  obtain ⟨parts, hparts, hrule⟩ := Line.items_of_read? h
  simp only [Rule.mk.injEq, true_and] at hrule
  rw [windowFragments, hparts, Option.elim_some]
  exact hrule

end Content
end WindowRules

import WindowRules.Proofs.Conversion.Stability
import WindowRules.Proofs.Reading.Sound

/-!
# Converted texts are accepted again

A strict conversion accepts its own output exactly if every line that it writes for a rule is one that it can read
(`accepted_again_iff`): in a block each line is a comment or an entry and none ends like an opening, and on a line each
fragment is one that gives an item (`Rule.Fits`). The lines that are copied, the names and the braces never get in the
way.

* `Item.Full.fitsBlock_iff` — the line of an item fits a block exactly if it does not end like an opening and gives a
  well-formed item or none.
* `Document.sound_write_append_iff` — a written rule is sound, whatever lines follow it, exactly if it fits. Proof: in a
  block a line that ends like an opening leaves the block open; otherwise the block is closed by its own brace, and its
  items are read line by line.
* `Document.sound_flatMap_iff` — so the pieces of a converted text are sound one by one. Proof: by induction on the
  pieces; sound lines are read on their own (`contents_append`).
-/

namespace WindowRules

open Text

/-! ## Rules that fit -/

namespace Item

/-- The item has a key, and where it is written with a value there is more to that than blanks. -/
structure Full (subject : Subject) (item : Item) : Prop where
  key : item.key ≠ []
  value : ∀ value ∈ item.writtenValue? subject, ∃ c ∈ value, isBlank c = false

/-- The line of the item in a block does not end like an opening, and it is a comment or an entry. The key of the entry
is more than the mark of a condition, and a predicate has no equals sign or a value behind it. -/
structure FitsBlock (subject : Subject) (item : Item) : Prop where
  brace : Block.endsOpen (trim (item.blockLine subject)) = false
  entry : Line.isSilent (trim (item.blockLine subject)) = true ∨
    ∃ entry, Entry.read (trim (item.blockLine subject)) = .ok entry ∧ entry.key ≠ Fragment.conditionMark ∧
      (item.role = .predicate → entry.value? ≠ some [])

end Item

namespace Rule

/-- The fragments that the commas in the line of the rule divide. -/
def writtenFragments (rule : Rule) : List Text :=
  (Comma.split (' ' :: [',', ' '].intercalate rule.fragments)).map trim

/-- Every line of the block of the rule, or every fragment of its line, is one that gives an item. -/
def Fits (dialect : Dialect) (rule : Rule) : Prop :=
  match dialect with
  | .block => ∀ item ∈ rule.writtenItems, item.FitsBlock rule.subject
  | .inline => ∀ fragment ∈ rule.writtenFragments, Fragment.Fits rule.subject fragment

end Rule

section Decidable

instance (subject : Subject) (item : Item) : Decidable (item.Full subject) :=
  decidable_of_iff (item.key ≠ [] ∧ (item.writtenValue? subject).all (·.any fun c => isBlank c == false) = true)
    (by
      simp only [Option.all_eq_true, List.any_eq_true, beq_iff_eq]
      exact ⟨fun ⟨key, value⟩ => ⟨key, value⟩, fun h => ⟨h.key, h.value⟩⟩)

theorem mem_toOption_iff {result : Except Entry.Fault Entry} {entry : Entry} :
    entry ∈ result.toOption ↔ result = .ok entry := by
  cases result <;> simp [Except.toOption, eq_comm]

instance (subject : Subject) (item : Item) : Decidable (item.FitsBlock subject) :=
  decidable_of_iff (Block.endsOpen (trim (item.blockLine subject)) = false ∧
      (Line.isSilent (trim (item.blockLine subject)) = true ∨
        (Entry.read (trim (item.blockLine subject))).toOption.any (fun entry =>
          decide (entry.key ≠ Fragment.conditionMark ∧ (item.role = .predicate → entry.value? ≠ some []))) = true))
    (by
      simp only [Option.any_eq_true, decide_eq_true_eq, ← Option.mem_def, mem_toOption_iff]
      exact ⟨fun ⟨brace, entry⟩ => ⟨brace, entry⟩, fun h => ⟨h.brace, h.entry⟩⟩)

instance (dialect : Dialect) (rule : Rule) : Decidable (rule.Fits dialect) :=
  match dialect with
  | .block => inferInstanceAs (Decidable (∀ item ∈ rule.writtenItems, item.FitsBlock rule.subject))
  | .inline => inferInstanceAs (Decidable (∀ fragment ∈ rule.writtenFragments, Fragment.Fits rule.subject fragment))

end Decidable

/-! ## Lines of items -/

namespace Item

/-- The entry of a predicate has a marked key. -/
theorem conditionMark_prefix_of_read {subject : Subject} {item : Item} {entry : Entry} (hrole : item.role = .predicate)
    (h : Entry.read (trim (item.blockLine subject)) = .ok entry) : Fragment.conditionMark <+: entry.key := by
  have hline : item.blockLine subject = ' ' :: ' ' :: ("match".toList ++ ':' :: item.key) := by
    obtain ⟨key, value, role, isMalformed⟩ := item
    cases hrole
    cases subject <;> exact List.append_nil _
  have htrim : trim (item.blockLine subject) = Fragment.conditionMark ++ trimEnd item.key := by
    rw [hline, trim_cons_blank (by decide), trim_cons_blank (by decide)]
    exact trimEnd_append_cons (by decide) "match".toList item.key
  have hmark : ∀ c ∈ Fragment.conditionMark, Entry.isKeyChar c = true := by decide
  rw [Entry.key_of_read h, htrim, List.takeWhile_append_of_pos hmark]
  exact List.prefix_append _ _

/-- The value of an item that is no predicate is not empty when it is read back. -/
theorem Full.value?_ne_nil {subject : Subject} {item : Item} (h : item.Full subject) (hrole : item.role ≠ .predicate)
    {entry : Entry} (hread : Entry.read (trim (item.blockLine subject)) = .ok entry) : entry.value? ≠ some [] := by
  cases hvalue : item.writtenValue? subject with
  | none =>
    obtain ⟨key, value, role, isMalformed⟩ := item
    cases role <;> cases subject <;> simp [writtenValue?] at hvalue hrole
  | some value =>
    obtain ⟨c, hc, hblank⟩ := h.value value hvalue
    have hline : item.blockLine subject = (' ' :: ' ' :: item.writtenKey subject ++ [' ']) ++ '=' :: (' ' :: value) := by
      simp [blockLine, hvalue]
    rw [hline] at hread
    exact Entry.value?_ne_nil hread ⟨c, List.mem_cons_of_mem _ hc, hblank⟩

/-- **The line of a full item fits a block** exactly if it does not end like an opening and gives a well-formed item or
none. -/
theorem Full.fitsBlock_iff {subject : Subject} {item : Item} (h : item.Full subject) (dialect : Dialect) :
    item.FitsBlock subject ↔ Block.endsOpen (trim (item.blockLine subject)) = false ∧
      ∀ read ∈ Block.item? dialect subject (item.blockLine subject), read.isMalformed = false := by
  have hvalue : ∀ {entry}, Entry.read (trim (item.blockLine subject)) = .ok entry →
      ((item.role = .predicate → entry.value? ≠ some []) ↔
        (Fragment.conditionMark <+: entry.key → entry.value? ≠ some [])) := by
    intro entry hread
    by_cases hrole : item.role = .predicate
    · exact imp_congr_left (iff_of_true hrole (conditionMark_prefix_of_read hrole hread))
    · have hne := h.value?_ne_nil hrole hread
      exact iff_of_true (fun _ => hne) fun _ => hne
  rw [Block.wellFormed_item?_iff]
  constructor
  · rintro ⟨hbrace, hsilent | ⟨entry, hread, hkey, hpredicate⟩⟩
    · exact ⟨hbrace, Or.inl hsilent⟩
    · exact ⟨hbrace, Or.inr ⟨entry, hread, hkey, (hvalue hread).mp hpredicate⟩⟩
  · rintro ⟨hbrace, hsilent | ⟨entry, hread, hkey, hmarked⟩⟩
    · exact ⟨hbrace, Or.inl hsilent⟩
    · exact ⟨hbrace, Or.inr ⟨entry, hread, hkey, (hvalue hread).mpr hmarked⟩⟩

end Item

/-! ## Written rules -/

/-- The end of a block is not found behind a line that ends like an opening. -/
theorem Rule.close?_of_not_keepsOpen {rule : Rule} (h : ¬rule.KeepsOpen) {name : Text} (hname : name.IsEntryValue)
    (rest : List Text) : Block.close? (rule.blockBody name ++ ['}'] :: [[]] ++ rest) = none := by
  simp only [KeepsOpen, not_forall, Bool.not_eq_false] at h
  obtain ⟨item, hi, hopens⟩ := h
  have hbody : ∀ line ∈ rule.blockBody name, Block.isClosing (trim line) = false := by
    intro line hl
    rcases List.mem_cons.mp hl with rfl | hl
    · exact (Block.gives_name .block rule.subject hname).closing
    · obtain ⟨other, _, rfl⟩ := List.mem_map.mp hl
      exact other.not_isClosing_blockLine rule.subject
  have hmem : item.blockLine rule.subject ∈ rule.blockBody name := List.mem_cons_of_mem _ (List.mem_map_of_mem hi)
  obtain ⟨before, after, hsplit⟩ := List.append_of_mem hmem
  rw [hsplit] at hbody ⊢
  rw [List.append_assoc, List.append_assoc]
  refine Block.passes_of_not_isClosing (fun line hl => hbody line (List.mem_append_left _ hl)) _ ?_
  exact Block.close?_cons_eq_none_iff.mpr ⟨item.not_isClosing_blockLine rule.subject, Or.inl hopens⟩

namespace Document

/-- The line of a rule is sound, whatever lines follow it, exactly if its fragments fit. -/
theorem sound_inlineText_append_iff {dialect : Dialect} {rule : Rule} (h : rule.OneLine) (rest : List Text) :
    Sound { dialect } (contents { dialect } (textLines rule.inlineText ++ rest)) ↔
      rule.Fits .inline ∧ Sound { dialect } (contents { dialect } rest) := by
  have hline : textLines rule.inlineText = [rule.inlineText] := textLines_of_oneLine (oneLine_inlineText h)
  have hread : Content.ofLine dialect rule.inlineText = .lineRule (rule.fromLine dialect) rule.inlineText := by
    rw [Content.ofLine, rule.read?_inlineText]
  have htrim : ∀ s ∈ rule.writtenFragments, trim s = s := by
    intro s hs
    obtain ⟨fragment, _, rfl⟩ := List.mem_map.mp hs
    exact trim_eq_self_iff.mpr ⟨head?_trim fragment, getLast?_trim fragment⟩
  have hfits : (rule.fromLine dialect).malformed = [] ↔ rule.Fits .inline :=
    Rule.malformed_eq_nil_iff.trans (Line.wellFormed_items_iff htrim)
  rw [hline, List.singleton_append, contents_of_line (opening?_inlineText _ rule), hread, Sound, List.forall_mem_cons,
    Content.IsSound, hfits, Sound]

/-- A block is sound, whatever lines follow it, exactly if the lines of its items fit. -/
theorem sound_blockText_append_iff {dialect : Dialect} {rule : Rule} (hone : rule.OneLine)
    (hfull : ∀ item ∈ rule.items, item.Full rule.subject) {name : Text} (hname : name.IsEntryValue)
    (rest : List Text) :
    Sound { dialect } (contents { dialect } (textLines (rule.blockText name) ++ rest)) ↔
      rule.Fits .block ∧ Sound { dialect } (contents { dialect } rest) := by
  have hitem : ∀ item ∈ rule.writtenItems, item.FitsBlock rule.subject ↔
      Block.endsOpen (trim (item.blockLine rule.subject)) = false ∧
        ∀ read ∈ Block.item? dialect rule.subject (item.blockLine rule.subject), read.isMalformed = false :=
    fun item hi => (hfull item (Rule.mem_writtenItems_iff.mp hi).1).fitsBlock_iff dialect
  have hfits : rule.Fits .block ↔ rule.KeepsOpen ∧ (rule.fromBlock dialect).malformed = [] := by
    rw [Rule.malformed_eq_nil_iff, Rule.Fits, forall₂_congr hitem]
    simp only [forall_and, Rule.KeepsOpen, Rule.fromBlock, List.mem_filterMap]
    refine and_congr_right fun _ => ⟨fun h => ?_, fun h item hi read hr => h read ⟨item, hi, hr⟩⟩
    rintro read ⟨item, hi, hr⟩
    exact h item hi read hr
  rw [hfits]
  by_cases hopen : rule.KeepsOpen
  · have hcontents := contents_blockText dialect hone hopen hname
    have hclosed := (stands_blockText dialect hone hopen hname).closed
    rw [contents_append hclosed, hcontents, sound_append_iff, Sound, List.forall_mem_cons, List.forall_mem_singleton]
    have hlast : Content.IsSound { dialect } (.verbatim []) := rfl
    rw [and_iff_left hlast, Content.IsSound, and_iff_right hopen]
  · -- the block is left open at the line that ends like an opening
    refine iff_of_false (fun hsound => ?_) fun h => hopen h.1.1
    have hclose := Rule.close?_of_not_keepsOpen hopen hname rest
    have hopening := opening?_keyword dialect rule.subject
    rw [Rule.textLines_blockText hone hname.oneLine, Rule.blockLines_eq, List.cons_append,
      contents_of_unterminated hopening hclose] at hsound
    have hnone : opening? { dialect } (rule.subject.keyword ++ [' ', '{']) = none := hsound _ List.mem_cons_self
    rw [hopening] at hnone
    cases hnone

/-- **A written rule is sound, whatever lines follow it, exactly if it fits.** -/
theorem sound_write_append_iff (dialect : Dialect) {rule : Rule} (hone : rule.OneLine)
    (hfull : ∀ item ∈ rule.items, item.Full rule.subject) (counters : Counters) (rest : List Text) :
    Sound { dialect } (contents { dialect } (textLines (rule.write dialect counters) ++ rest)) ↔
      rule.Fits dialect ∧ Sound { dialect } (contents { dialect } rest) := by
  cases dialect with
  | block => exact sound_blockText_append_iff hone hfull (counters.isEntryValue_name rule.subject) rest
  | inline => exact sound_inlineText_append_iff hone rest

theorem sound_write_iff {dialect : Dialect} {rule : Rule} (hone : rule.OneLine)
    (hfull : ∀ item ∈ rule.items, item.Full rule.subject) (counters : Counters) :
    Sound { dialect } (contents { dialect } (textLines (rule.write dialect counters))) ↔ rule.Fits dialect := by
  have hnothing : Sound { dialect } (contents { dialect } []) := by
    rw [contents_nil]
    exact List.forall_mem_nil _
  have hwrite := sound_write_append_iff dialect hone hfull counters []
  rwa [List.append_nil, and_iff_left hnothing] at hwrite

/-! ## Pieces -/

/-- What stands behind the text is sound exactly if it is sound on its own and the text is sound. -/
def Separate (options : Options) (text : Text) : Prop :=
  ∀ rest, Sound options (contents options (textLines text ++ rest)) ↔
    Sound options (contents options (textLines text)) ∧ Sound options (contents options rest)

theorem separate_write {dialect : Dialect} {rule : Rule} (hone : rule.OneLine)
    (hfull : ∀ item ∈ rule.items, item.Full rule.subject) (counters : Counters) :
    Separate { dialect } (rule.write dialect counters) := fun rest =>
  (sound_write_append_iff dialect hone hfull counters rest).trans
    (and_congr_left fun _ => (sound_write_iff hone hfull counters).symm)

theorem separate_of_sound {options : Options} {text : Text} (h : Sound options (contents options (textLines text))) :
    Separate options text := fun rest => by rw [and_iff_right h, sound_contents_append_iff h rest]

/-- **Separate pieces are sound one by one.** -/
theorem sound_flatMap_iff {options : Options} {pieces : List Text} (h : ∀ piece ∈ pieces, Separate options piece) :
    Sound options (contents options (pieces.flatMap textLines)) ↔
      ∀ piece ∈ pieces, Sound options (contents options (textLines piece)) := by
  induction pieces with
  | nil => simp [contents_nil, Sound]
  | cons piece pieces ih =>
    have hrest := ih fun other ho => h other (List.mem_cons_of_mem _ ho)
    rw [List.flatMap_cons, h piece List.mem_cons_self, hrest, List.forall_mem_cons]

end Document

theorem Rule.exists_mem_writeAll (dialect : Dialect) {rules : List Rule} {rule : Rule} (h : rule ∈ rules)
    (counters : Counters) : ∃ number, rule.write dialect number ∈ (Rule.writeAll dialect counters rules).1 := by
  induction rules generalizing counters with
  | nil => cases h
  | cons first rules ih =>
    rcases List.mem_cons.mp h with rfl | h
    · exact ⟨counters, List.mem_cons_self⟩
    · obtain ⟨number, hn⟩ := ih h (counters.advance first.subject)
      exact ⟨number, List.mem_cons_of_mem _ hn⟩

namespace Document

/-- A piece of a text without problems is a written rule or a sound line. -/
theorem Gives.written_or_sound {set : RuleSet} {dialect : Dialect} {before : List Node} {content : Content}
    {pieces lines : List Text} (h : Gives set dialect before content pieces)
    (hsound : Sound { dialect } (contents { dialect } lines)) (hcontent : content ∈ contents { dialect } lines)
    (hlines : ∀ line ∈ content.lines, OneLine line) :
    ∀ piece ∈ pieces, (∃ rule ∈ set.rules, ∃ counters, piece = rule.write dialect counters) ∨
      Sound { dialect } (contents { dialect } (textLines piece)) := by
  intro piece hp
  cases h with
  | entry _ _ hat _ => exact Or.inl ⟨_, List.mem_of_getElem? hat, _, List.mem_singleton.mp hp⟩
  | duplicate => cases hp
  | absorbed => cases hp
  | @copied line _ =>
    have hone : OneLine line := hlines line (List.mem_singleton_self line)
    rw [List.mem_singleton.mp hp, textLines_of_oneLine hone, contents_of_mem_contents hcontent dialect]
    exact Or.inr (List.forall_mem_singleton.mpr (hsound (.verbatim line) hcontent))

/-- **A converted text without problems has none again** exactly if every rule that is written fits. -/
theorem problems_convert_eq_nil_iff {dialect : Dialect} {text : Text} (h : (read { dialect } text).problems = [])
    (hfull : ∀ rule ∈ merge (read { dialect } text).rules, ∀ item ∈ rule.items, item.Full rule.subject) :
    (read { dialect } (convert { dialect } text)).problems = [] ↔
      ∀ rule ∈ merge (read { dialect } text).rules, rule.Fits dialect := by
  obtain ⟨given, hnodes, hconvert, hgives, htexts⟩ := exists_given { dialect } text
  have hsound := problems_eq_nil_iff.mp h
  have hpieces : ∀ piece ∈ given.flatMap Prod.snd,
      (∃ rule ∈ merge (read { dialect } text).rules, ∃ counters, piece = rule.write dialect counters) ∨
        Sound { dialect } (contents { dialect } (textLines piece)) := by
    intro piece hp
    obtain ⟨⟨node, pieces⟩, hpair, hp⟩ := List.mem_flatMap.mp hp
    obtain ⟨before, after, he⟩ := List.append_of_mem hpair
    have hnode : node ∈ (read { dialect } text).nodes := hnodes ▸ List.mem_map_of_mem hpair
    rw [merge_eq_rules]
    exact (hgives before node pieces after he).written_or_sound hsound (List.mem_map_of_mem hnode)
      (oneLine_of_mem_nodes hnode) piece hp
  have hseparate : ∀ piece ∈ given.flatMap Prod.snd, Separate { dialect } piece := by
    intro piece hp
    rcases hpieces piece hp with ⟨rule, hr, counters, rfl⟩ | hline
    · exact separate_write (oneLine_of_mem_merge hr) (hfull rule hr) counters
    · exact separate_of_sound hline
  rw [problems_eq_nil_iff, textLines_convert hnodes hconvert hgives, sound_flatMap_iff hseparate]
  constructor
  · intro hall rule hr
    obtain ⟨counters, hw⟩ := Rule.exists_mem_writeAll dialect hr {}
    rw [← htexts] at hw
    obtain ⟨pair, hpair, hw⟩ := List.mem_flatMap.mp hw
    have hmem := List.mem_flatMap.mpr ⟨pair, (List.mem_filter.mp hpair).1, hw⟩
    exact (sound_write_iff (oneLine_of_mem_merge hr) (hfull rule hr) counters).mp (hall _ hmem)
  · intro hall piece hp
    rcases hpieces piece hp with ⟨rule, hr, counters, rfl⟩ | hline
    · exact (sound_write_iff (oneLine_of_mem_merge hr) (hfull rule hr) counters).mpr (hall rule hr)
    · exact hline

end Document

/-! ## Strict conversions -/

/-- A strict conversion succeeds exactly if the text has no problems. -/
theorem convertStrictly_eq_ok_iff {dialect : Dialect} {text converted : Text} :
    convertStrictly { dialect, strict := true } text = .ok converted ↔
      (Document.read { dialect } text).problems = [] ∧ converted = convert { dialect } text := by
  simp only [convertStrictly, convert, Document.read_strict, true_and]
  split
  · next hne => exact iff_of_false (fun h => by cases h) fun h => hne h.1
  · next hnil => simp [not_not.mp hnil, eq_comm]

/-- **A strict conversion accepts its own output exactly if every rule fits that it writes.** The items of the rules must
have keys, and their values more than blanks. -/
theorem accepted_again_iff {dialect : Dialect} {text converted : Text}
    (h : convertStrictly { dialect, strict := true } text = .ok converted)
    (hfull : ∀ rule ∈ merge (Document.read { dialect } text).rules, ∀ item ∈ rule.items, item.Full rule.subject) :
    (∃ again, convertStrictly { dialect, strict := true } converted = .ok again) ↔
      ∀ rule ∈ merge (Document.read { dialect } text).rules, rule.Fits dialect := by
  obtain ⟨hproblems, rfl⟩ := convertStrictly_eq_ok_iff.mp h
  rw [← Document.problems_convert_eq_nil_iff hproblems hfull]
  constructor
  · rintro ⟨again, hagain⟩
    exact (convertStrictly_eq_ok_iff.mp hagain).1
  · intro hnone
    exact ⟨_, convertStrictly_eq_ok_iff.mpr ⟨hnone, rfl⟩⟩

/-- A comment, rules on lines with a comma in a value and an equals sign in a predicate, and a block with a brace at the
front of a value. -/
def acceptableText : Text :=
  textOfLines ["# rules", "windowrule = float, $n = v, title:x\\, y", "layerrule = blur, my bar", "",
    "windowrule \x7b", "  tag = \x7ba", "  match:class = kitty", "\x7d", ""]

theorem acceptableText_accepted_again :
    (∀ rule ∈ merge (Document.read {} acceptableText).rules, ∀ item ∈ rule.items, item.Full rule.subject) ∧
      (∀ rule ∈ merge (Document.read {} acceptableText).rules, rule.Fits .block) ∧
      convertStrictly { strict := true } acceptableText = .ok (convert {} acceptableText) ∧
      ∃ again, convertStrictly { strict := true } (convert {} acceptableText) = .ok again := by
  have hfull : ∀ rule ∈ merge (Document.read {} acceptableText).rules, ∀ item ∈ rule.items, item.Full rule.subject := by
    decide +kernel
  have hfits : ∀ rule ∈ merge (Document.read {} acceptableText).rules, rule.Fits .block := by decide +kernel
  have haccepted : convertStrictly { strict := true } acceptableText = .ok (convert {} acceptableText) :=
    convertStrictly_eq_ok_iff.mpr ⟨List.isEmpty_iff.mp (by decide +kernel), rfl⟩
  exact ⟨hfull, hfits, haccepted, (accepted_again_iff haccepted hfull).mpr hfits⟩

/-- Some accepted texts are written as texts that are not accepted: a value that looks like the opening of a block ends
the line of its item in a block, and a layer rule whose condition has no value leaves its namespace out on a line. -/
theorem not_accepted_again :
    ¬(∀ text converted, convertStrictly { strict := true } text = .ok converted →
        ∃ again, convertStrictly { strict := true } converted = .ok again) ∧
      ¬∀ text converted, convertStrictly { dialect := .inline, strict := true } text = .ok converted →
        ∃ again, convertStrictly { dialect := .inline, strict := true } converted = .ok again := by
  have hstep : ∀ {dialect : Dialect} (text : Text), (Document.read { dialect } text).problems.isEmpty = true →
      (Document.read { dialect } (convert { dialect } text)).problems.isEmpty = false →
      ¬∀ text converted, convertStrictly { dialect, strict := true } text = .ok converted →
        ∃ again, convertStrictly { dialect, strict := true } converted = .ok again := by
    intro dialect text hnone hsome h
    obtain ⟨again, hagain⟩ := h text _ (convertStrictly_eq_ok_iff.mpr ⟨List.isEmpty_iff.mp hnone, rfl⟩)
    rw [(convertStrictly_eq_ok_iff.mp hagain).1] at hsome
    cases hsome
  constructor
  · exact hstep (textOfLines ["windowrule = float, title:a \x7b"]) (by decide +kernel) (by decide +kernel)
  · exact hstep (textOfLines ["layerrule \x7b", "  match:a", "\x7d"]) (by decide +kernel) (by decide +kernel)

end WindowRules

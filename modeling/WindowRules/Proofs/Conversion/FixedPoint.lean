import WindowRules.Proofs.Conversion.Stability

/-!
# Converting to blocks twice

A text that has been converted to blocks is not changed when it is converted to blocks again (`convert_convert`), if
each merged rule is read back from its own block (`Rule.ReadsBack`), the merged rules have different signatures, and no
block of the text is left open.

* `Layout` — the pieces of a converted text: the blocks of the merged rules in order, under the next numbers, with kept
  lines between them (`layout_of_shown`).
* `Layout.writeContents` — what is read from such pieces is written as the same pieces. Proof: by induction on the
  layout. A block is read as its rule and an empty line; the rule is written again under the same number, and the empty
  line is the one that it absorbs.
-/

namespace WindowRules

open Text

/-! ## Rules that are read back from their blocks -/

namespace Rule

/-- The block of the rule under the next number is read, without a problem, as the rule and a line that is none. -/
def ReadsBack (counters : Counters) (rule : Rule) : Prop :=
  (Document.read {} (rule.write .block counters)).problems = [] ∧
    (Document.read {} (rule.write .block counters)).nodes.map (fun node => node.content.rule?) = [some rule, none]

instance (counters : Counters) (rule : Rule) : Decidable (rule.ReadsBack counters) :=
  inferInstanceAs (Decidable (_ = [] ∧ _ = [some rule, none]))

end Rule

/-- Behind lines without a closing brace of which one ends like an opening, no end of a block is found. -/
theorem Block.close?_eq_none {lines : List Text} (hclosing : ∀ line ∈ lines, isClosing (trim line) = false)
    (hopen : ∃ line ∈ lines, endsOpen (trim line) = true) (rest : List Text) : close? (lines ++ rest) = none := by
  induction lines with
  | nil => simp at hopen
  | cons line lines ih =>
    rw [List.cons_append, close?_cons_eq_none_iff]
    refine ⟨hclosing line List.mem_cons_self, ?_⟩
    obtain ⟨other, ho, hends⟩ := hopen
    rcases List.mem_cons.mp ho with rfl | ho
    · exact Or.inl hends
    · exact Or.inr (ih (fun l hl => hclosing l (List.mem_cons_of_mem _ hl)) ⟨other, ho, hends⟩)

namespace Rule

variable {rule : Rule} {counters : Counters}

theorem ReadsBack.map_rule?_contents (h : rule.ReadsBack counters) :
    (Document.contents {} (Document.textLines (rule.blockText (counters.name rule.subject)))).map Content.rule? =
      [some rule, none] := by
  rw [Document.contents, List.map_map]
  exact h.2

variable (hone : rule.OneLine) (h : rule.ReadsBack counters)

include hone h

/-- A rule that is read back keeps its block open up to the closing brace. -/
theorem ReadsBack.keepsOpen : rule.KeepsOpen := by
  have hread := h.map_rule?_contents
  have hname := counters.isEntryValue_name rule.subject
  intro item hi
  by_contra hends
  -- the opening would be a line without a block
  have hclose : Block.close? (rule.blockBody (counters.name rule.subject) ++ ['}'] :: [[]]) = none := by
    refine Block.close?_eq_none (fun line hl => ?_) ⟨item.blockLine rule.subject, ?_, by simpa using hends⟩ _
    · rcases List.mem_cons.mp hl with rfl | hl
      · exact (Block.gives_name .block rule.subject hname).closing
      · obtain ⟨other, _, rfl⟩ := List.mem_map.mp hl
        exact other.not_isClosing_blockLine rule.subject
    · exact List.mem_cons_of_mem _ (List.mem_map_of_mem hi)
  rw [textLines_blockText hone hname.oneLine, blockLines_eq,
    Document.contents_of_unterminated (Document.opening?_keyword .block rule.subject) hclose] at hread
  cases hread

/-- What is read from its block is the rule. -/
theorem ReadsBack.fromBlock : rule.fromBlock .block = rule := by
  have hread := h.map_rule?_contents
  rw [Document.contents_blockText .block hone (h.keepsOpen hone) (counters.isEntryValue_name rule.subject)] at hread
  simpa [Content.rule?] using hread

/-- So under any other number the block is read as the rule and an empty line, too. -/
theorem ReadsBack.contents (other : Counters) : ∃ opening body closing,
    Document.contents {} (Document.textLines (rule.write .block other)) =
      [.blockRule rule opening body closing, .verbatim []] := by
  have hcontents := Document.contents_blockText .block hone (h.keepsOpen hone) (other.isEntryValue_name rule.subject)
  rw [h.fromBlock hone] at hcontents
  exact ⟨_, _, _, hcontents⟩

end Rule

namespace Document

/-! ## Writing contents -/

/-- The pieces of text for the contents of a document. -/
def writeContents (set : RuleSet) (dialect : Dialect) (progress : Progress) : List Content → List Text
  | [] => []
  | content :: contents =>
    (content.write set dialect progress).1 ++ writeContents set dialect (content.write set dialect progress).2 contents

theorem writeContents_cons (set : RuleSet) (dialect : Dialect) (progress : Progress) (content : Content)
    (contents : List Content) : writeContents set dialect progress (content :: contents) =
      (content.write set dialect progress).1 ++
        writeContents set dialect (content.write set dialect progress).2 contents := rfl

theorem pieces_eq_writeContents (set : RuleSet) (dialect : Dialect) (progress : Progress) (nodes : List Node) :
    pieces set dialect progress nodes = writeContents set dialect progress (nodes.map Node.content) := by
  induction nodes generalizing progress with
  | nil => rfl
  | cons node nodes ih => rw [pieces_cons, ih, List.map_cons, writeContents_cons]

/-! ## Layouts -/

/-- The pieces are the blocks of the rules, numbered from the given counters on, with kept lines between them. -/
inductive Layout : Counters → List Rule → List Text → Prop
  | nil (counters : Counters) : Layout counters [] []
  | block {counters : Counters} {rule : Rule} {rules : List Rule} {pieces : List Text} :
      Layout (counters.advance rule.subject) rules pieces →
      Layout counters (rule :: rules) (rule.write .block counters :: pieces)
  | line {counters : Counters} {line : Text} {rules : List Rule} {pieces : List Text} :
      contents {} (textLines line) = [.verbatim line] → Layout counters rules pieces →
      Layout counters rules (line :: pieces)

/-- What stands in the places of the parts of a text is a layout of the rules whose blocks stand in those of its
rules. -/
theorem layout_of_shown {given : List (Content × List Text)} (h : ∀ pair ∈ given, Shown {} pair.1 pair.2)
    {counters : Counters} {rules : List Rule}
    (htexts : (given.filter (·.1.rule?.isSome)).flatMap Prod.snd = (Rule.writeAll .block counters rules).1) :
    Layout counters rules (given.flatMap Prod.snd) := by
  induction given generalizing counters rules with
  | nil =>
    cases rules with
    | nil => exact .nil counters
    | cons rule rules => cases htexts
  | cons pair given ih =>
    obtain ⟨content, pieces⟩ := pair
    have hrest := fun pair hp => h pair (List.mem_cons_of_mem _ hp)
    have hshown : Shown {} content pieces := h (content, pieces) List.mem_cons_self
    rw [List.flatMap_cons]
    cases hshown with
    | @written _ piece hkept _ =>
      have hrule : content.rule?.isSome := by
        cases content with
        | verbatim => cases hkept
        | lineRule => rfl
        | blockRule => rfl
      rw [List.filter_cons_of_pos (by exact hrule), List.flatMap_cons] at htexts
      cases rules with
      | nil => cases htexts
      | cons rule rules =>
        obtain ⟨rfl, htail⟩ := List.cons.inj htexts
        exact .block (ih hrest htail)
    | @line line hone hkeep =>
      rw [List.filter_cons_of_neg (by simp [Content.rule?])] at htexts
      refine .line ?_ (ih hrest htexts)
      rw [hone, hkeep]
    | omitted =>
      refine ih hrest ?_
      rw [← htexts, List.filter_cons]
      split <;> simp

/-- **Pieces in a layout are read and written again as they are.** -/
theorem Layout.writeContents {set : RuleSet} {counters : Counters} {rules : List Rule} {pieces : List Text}
    (h : Layout counters rules pieces)
    (hread : ∀ rule ∈ rules, ∀ counters, ∃ opening body closing,
      contents {} (textLines (rule.write .block counters)) = [.blockRule rule opening body closing, .verbatim []])
    (hget : ∀ rule ∈ rules, set.get? rule.signature = some rule) (hdifferent : (rules.map Rule.signature).Nodup)
    {written : List Signature} (hnew : ∀ rule ∈ rules, rule.signature ∉ written) :
    writeContents set .block ⟨counters, written, false⟩ (pieces.flatMap fun piece => contents {} (textLines piece)) =
      pieces := by
  induction h generalizing written with
  | nil => rfl
  | @block counters rule rules pieces _ ih =>
    obtain ⟨opening, body, closing, hcontents⟩ := hread rule List.mem_cons_self counters
    obtain ⟨hnot, hdifferent⟩ := List.nodup_cons.mp hdifferent
    have hrest : ∀ r ∈ rules, r.signature ∉ rule.signature :: written := by
      intro r hr hm
      rcases List.mem_cons.mp hm with he | hm
      · exact hnot (he ▸ List.mem_map_of_mem hr)
      · exact hnew r (List.mem_cons_of_mem _ hr) hm
    have ih := ih (fun r hr => hread r (List.mem_cons_of_mem _ hr)) (fun r hr => hget r (List.mem_cons_of_mem _ hr))
      hdifferent hrest
    have hrule : (Content.blockRule rule opening body closing).write set .block ⟨counters, written, false⟩ =
        ([rule.write .block counters], ⟨counters.advance rule.subject, rule.signature :: written, true⟩) := by
      have hlast : (rule.write .block counters).getLast? = some '\n' := rule.getLast?_blockText _
      simp only [Content.write, Content.rule?, if_neg (hnew rule List.mem_cons_self), hget rule List.mem_cons_self, hlast]
      rfl
    have hblank : ∀ progress : Progress, progress.absorbsBlank = true → (Content.verbatim []).write set .block progress =
        ([], { progress with absorbsBlank := false }) := by
      intro progress habsorbs
      simp [Content.write, Content.rule?, Content.lines, habsorbs, trim, trimEnd, trimStart]
    rw [List.flatMap_cons, hcontents]
    simp only [List.cons_append, List.nil_append, writeContents_cons, hrule, hblank]
    exact congrArg (rule.write .block counters :: ·) ih
  | @line counters line rules pieces hkeep _ ih =>
    rw [List.flatMap_cons, hkeep, List.singleton_append, writeContents_cons]
    exact congrArg (line :: ·) (ih hread hget hdifferent hnew)

/-! ## The converted text -/

/-- A converted text is laid out with the merged rules, and its pieces are read one by one. -/
theorem exists_layout {text : Text} (hsettled : Settled {} (contents {} (textLines text)))
    (hopen : ∀ rule ∈ merge (read {} text).rules, rule.KeepsOpen) :
    ∃ pieces, Layout {} (merge (read {} text).rules) pieces ∧ convert {} text = ['\n'].intercalate pieces ∧
      contents {} (textLines (convert {} text)) = pieces.flatMap fun piece => contents {} (textLines piece) := by
  have hstands : ∀ rule ∈ merge (read {} text).rules, ∀ counters,
      Stands {} (textLines (rule.write .block counters)) := fun rule hr counters =>
    stands_blockText .block (oneLine_of_mem_merge hr) (hopen rule hr) (counters.isEntryValue_name rule.subject)
  obtain ⟨given, hparts, hlines, hshown, htexts⟩ := exists_shown hstands
  obtain ⟨hcontents, _⟩ := contents_of_shown hshown (hparts ▸ hsettled)
  rw [← hlines] at hcontents
  refine ⟨given.flatMap Prod.snd, layout_of_shown hshown htexts, ?_, hcontents⟩
  have hne : given.flatMap Prod.snd ≠ [] := by
    intro he
    rw [linesOf, he] at hlines
    exact absurd hlines (List.splitOn_ne_nil '\n' _)
  -- the lines of a text tell the text
  calc convert {} text
      = ['\n'].intercalate (textLines (convert {} text)) := (List.intercalate_splitOn '\n').symm
    _ = ['\n'].intercalate (textLines (['\n'].intercalate (given.flatMap Prod.snd))) := by
        rw [hlines, linesOf, textLines_intercalate hne]
    _ = ['\n'].intercalate (given.flatMap Prod.snd) := List.intercalate_splitOn '\n'

end Document

/-- The rules of a set with grouped items and different signatures are found under their signatures. -/
theorem RuleSet.get?_of_nodup {rules : List Rule} (hgrouped : ∀ rule ∈ rules, Item.Grouped rule.items)
    (hdifferent : (rules.map Rule.signature).Nodup) {rule : Rule} (h : rule ∈ rules) :
    (RuleSet.ofRules rules).get? rule.signature = some rule := by
  obtain ⟨i, hi⟩ := List.mem_iff_getElem?.mp h
  have hentries := RuleSet.entries_of_nodup hgrouped hdifferent
  refine RuleSet.lookup_of_getElem? (i := i) ?_ ?_
  · rw [hentries, List.map_map]
    exact hdifferent
  · rw [hentries, List.getElem?_map, hi]
    rfl

/-- **Converting to blocks twice is converting once**, if no block of the text is left open, the merged rules have
different signatures, and each of them is read back from its own block. -/
theorem convert_convert {text : Text}
    (hclosed : ∀ problem ∈ (Document.read {} text).problems, problem.isUnterminated = false)
    (hdifferent : ((merge (Document.read {} text).rules).map Rule.signature).Nodup)
    (hread : ∀ rule ∈ merge (Document.read {} text).rules, ∃ counters, rule.ReadsBack counters) :
    convert {} (convert {} text) = convert {} text := by
  have hsettled := Document.settled_of_problems hclosed
  have hback : ∀ rule ∈ merge (Document.read {} text).rules, rule.KeepsOpen ∧ rule.fromBlock .block = rule ∧
      ∀ counters, ∃ opening body closing, Document.contents {} (Document.textLines (rule.write .block counters)) =
        [.blockRule rule opening body closing, .verbatim []] := by
    intro rule hr
    obtain ⟨counters, h⟩ := hread rule hr
    have hone := Document.oneLine_of_mem_merge hr
    exact ⟨h.keepsOpen hone, h.fromBlock hone, h.contents hone⟩
  have hopen : ∀ rule ∈ merge (Document.read {} text).rules, rule.KeepsOpen := fun rule hr => (hback rule hr).1
  have hrules : (Document.read {} (convert {} text)).rules = merge (Document.read {} text).rules := by
    rw [(Document.rules_convert_block hsettled hopen .block).2]
    exact (List.map_congr_left fun rule hr => (hback rule hr).2.1).trans (List.map_id _)
  obtain ⟨pieces, hlayout, htext, hcontents⟩ := Document.exists_layout hsettled hopen
  have hwritten : Document.writeContents (RuleSet.ofRules (merge (Document.read {} text).rules)) .block .start
      (Document.contents {} (Document.textLines (convert {} text))) = pieces := by
    rw [hcontents]
    refine hlayout.writeContents (fun rule hr => (hback rule hr).2.2) (fun rule hr => ?_) hdifferent fun rule hr => ?_
    · exact RuleSet.get?_of_nodup (fun rule => grouped_of_mem_merge) hdifferent hr
    · exact List.not_mem_nil
  calc convert {} (convert {} text)
      = ['\n'].intercalate (Document.pieces (RuleSet.ofRules (Document.read {} (convert {} text)).rules) .block .start
          (Document.read {} (convert {} text)).nodes) := rfl
    _ = ['\n'].intercalate pieces := by
        rw [Document.pieces_eq_writeContents, hrules]
        exact congrArg _ hwritten
    _ = convert {} text := htext.symm

/-- Rules on lines and in a block, one of them a duplicate, with comments, another section and blank lines between. -/
def sparseText : Text :=
  textOfLines ["# rules", "", "windowrule = pin, class:^(a|b)$, title:x\\, y", "", "windowrule \x7b", "  float",
    "  match:$tag", "\x7d", "", "", "general \x7b", "\x7d", "windowrule = title:x\\, y, float, class:^(a|b)$", "",
    "layerrule = blur, bar"]

theorem sparseText_converted_twice :
    (∀ problem ∈ (Document.read {} sparseText).problems, problem.isUnterminated = false) ∧
      ((merge (Document.read {} sparseText).rules).map Rule.signature).Nodup ∧
      (∀ rule ∈ merge (Document.read {} sparseText).rules, ∃ counters, rule.ReadsBack counters) ∧
      convert {} (convert {} sparseText) = convert {} sparseText := by
  have hclosed : ∀ problem ∈ (Document.read {} sparseText).problems, problem.isUnterminated = false := by decide +kernel
  have hdifferent : ((merge (Document.read {} sparseText).rules).map Rule.signature).Nodup := by decide +kernel
  have hnext : ∀ rule ∈ merge (Document.read {} sparseText).rules, rule.ReadsBack {} := by decide +kernel
  have hread : ∀ rule ∈ merge (Document.read {} sparseText).rules, ∃ counters, rule.ReadsBack counters := fun rule hr =>
    ⟨{}, hnext rule hr⟩
  exact ⟨hclosed, hdifferent, hread, convert_convert hclosed hdifferent hread⟩

end WindowRules

import WindowRules.Proofs.Writing.Block
import WindowRules.Proofs.Writing.Inline

/-!
# Written rules are read again

A rule is written without its malformed items and with its flags first, then its selectors, then its predicates
(`Rule.written`). Its block is read as exactly that rule, with the empty line at the end behind it and without a problem
(`block_reads_back`), and so is its line (`line_reads_back`), if each item that is written has a form that an entry of a
block or a fragment of a line can show.

* `Block.readBody_blockLines` — the lines of a body give their items one by one. Proof: by induction on the items, since
  each line gives its item wherever it stands.
* `Item.InlineExpressible.encoded_inline` — what a line can show has its commas escaped already, so keeping it for a
  line changes nothing.
-/

namespace WindowRules

open Text

/-! ## The written rule -/

namespace Rule

/-- The rule as it is written: its well-formed items in the written order. -/
def written (rule : Rule) : Rule := ⟨rule.subject, rule.writtenItems⟩

@[simp] theorem writtenItems_written (rule : Rule) : rule.written.writtenItems = rule.writtenItems := by
  have hwell : rule.writtenItems.filter (!·.isMalformed) = rule.writtenItems :=
    List.filter_eq_self.mpr fun item hi => by simp [(mem_writtenItems_iff.mp hi).2]
  rw [writtenItems, written, hwell, writtenItems, Item.byRole_byRole]

theorem blockText_written (rule : Rule) (name : Text) : rule.written.blockText name = rule.blockText name := by
  rw [blockText, blockText, blockLines, blockLines, writtenItems_written]
  rfl

end Rule

/-! ## Blocks -/

/-- An item that an entry can show has no newline. -/
theorem Item.BlockExpressible.oneLine {subject : Subject} {item : Item} (h : item.BlockExpressible subject) :
    item.OneLine := by
  obtain ⟨key, value, role, isMalformed⟩ := item
  cases role with
  | flag =>
    have h : IsBlockFlag ⟨key, value, .flag, isMalformed⟩ := by cases subject <;> exact h
    exact ⟨h.key.oneLine, h.value.oneLine⟩
  | selector =>
    cases subject with
    | window =>
      have h : IsBlockSelector ⟨key, value, .selector, isMalformed⟩ := h
      exact ⟨h.key.oneLine, h.value.oneLine⟩
    | layer =>
      have h : IsBlockNamespace ⟨key, value, .selector, isMalformed⟩ := h
      have henabled : value = Keys.enabled := h.enabled
      exact ⟨h.key.oneLine, henabled ▸ show Text.OneLine Keys.enabled by decide⟩
  | predicate =>
    have h : IsBlockPredicate ⟨key, value, .predicate, isMalformed⟩ := by cases subject <;> exact h
    have hbare : value = [] := h.bare
    exact ⟨h.key.oneLine, hbare ▸ oneLine_nil⟩

namespace Block

theorem readBody_cons {dialect : Dialect} {subject : Subject} {line : Text} {item? : Option Item}
    (h : Gives dialect subject line item?) (number : Nat) (body : List Text) :
    readBody dialect subject number (line :: body) =
      (item?.map (·, none)).toList ++ readBody dialect subject (number + 1) body := by
  have hread := h.reads number
  rw [readBody, List.zipIdx_cons, List.filterMap_cons]
  simp only [hread]
  cases item? <;> rfl

/-- **The lines of a body give their items** and no problem. -/
theorem readBody_blockLines {dialect : Dialect} {subject : Subject} {items : List Item}
    (h : ∀ item ∈ items, Gives dialect subject (item.blockLine subject) (some (item.encoded dialect subject)))
    (number : Nat) : readBody dialect subject number (items.map (Item.blockLine subject)) =
      items.map fun item => (item.encoded dialect subject, none) := by
  induction items generalizing number with
  | nil => rfl
  | cons item items ih =>
    rw [List.map_cons, readBody_cons (h item List.mem_cons_self), ih fun other ho => h other (List.mem_cons_of_mem _ ho)]
    rfl

end Block

namespace Rule

/-- No written item of a rule that a block can show has a newline. -/
theorem BlockExpressible.oneLine_written {rule : Rule} (h : rule.BlockExpressible) : rule.written.OneLine :=
  fun item hi => (h.item item hi).1.oneLine

theorem BlockExpressible.encoded_written {rule : Rule} (h : rule.BlockExpressible) :
    rule.written.encoded .block = rule.written :=
  Bare.encoded_block fun item hi => (h.item item hi).1.encoded_block

theorem BlockExpressible.ofBlock {rule : Rule} (h : rule.BlockExpressible) (dialect : Dialect) {name : Text}
    (hname : name.IsEntryValue) (start : Nat) (opening closing : Text) :
    Node.ofBlock dialect rule.subject start opening (rule.blockBody name) closing =
      ⟨start, .blockRule (rule.written.encoded dialect) opening (rule.blockBody name) closing, []⟩ := by
  have hbody : Block.readBody dialect rule.subject (start + 2) (rule.blockBody name) =
      rule.writtenItems.map fun item => (item.encoded dialect rule.subject, none) := by
    rw [blockBody, Block.readBody_cons (Block.gives_name dialect rule.subject hname),
      Block.readBody_blockLines fun item hi => (h.item item hi).1.gives (h.item item hi).2 dialect]
    rfl
  simp [Node.ofBlock, hbody, Rule.encoded, Rule.written, Function.comp_def]

end Rule

/-- **Reading undoes writing a block.** A rule whose well-formed items all have a form that an entry can show is read
from its block as it is written, whatever its number is: one node holds all lines up to the closing brace, a second one
the empty line behind it, and there is no problem. -/
theorem block_reads_back {rule : Rule} (h : rule.BlockExpressible) (counters : Counters) :
    Document.textLines (rule.write .block counters) = rule.blockLines (counters.name rule.subject) ∧
    (Document.read {} (rule.write .block counters)).problems = [] ∧
    (Document.read {} (rule.write .block counters)).nodes =
      [⟨0, .blockRule rule.written (rule.subject.keyword ++ [' ', '{']) (rule.blockBody (counters.name rule.subject))
          ['}'], []⟩,
        ⟨rule.writtenItems.length + 3, .verbatim [], []⟩] := by
  have hname := counters.isEntryValue_name rule.subject
  have hlines : Document.textLines (rule.write .block counters) = rule.blockLines (counters.name rule.subject) := by
    have hwritten := Rule.textLines_blockText h.oneLine_written hname.oneLine
    rw [Rule.blockText_written] at hwritten
    rw [Rule.write, hwritten, Rule.blockLines, Rule.writtenItems_written]
    rfl
  have hnodes : (Document.read {} (rule.write .block counters)).nodes =
      [⟨0, .blockRule rule.written (rule.subject.keyword ++ [' ', '{']) (rule.blockBody (counters.name rule.subject))
          ['}'], []⟩,
        ⟨rule.writtenItems.length + 3, .verbatim [], []⟩] := by
    have hlast : Document.opening? {} [] = none := rfl
    have hlength : 0 + ((rule.blockBody (counters.name rule.subject)).length + 2) = rule.writtenItems.length + 3 := by
      simp [Rule.blockBody]
    rw [Document.read, hlines, Rule.blockLines_eq,
      Document.readNodes_of_block (Document.opening?_keyword .block rule.subject) (h.keepsOpen.close?_blockBody hname),
      h.ofBlock _ hname, h.encoded_written, Document.readNodes_of_line hlast, Document.readNodes, hlength]
    rfl
  refine ⟨hlines, ?_, hnodes⟩
  rw [Document.problems, hnodes]
  rfl

/-- A window rule with its items in no order, one of them malformed and two flags with one key. -/
def unsortedRule : Rule :=
  ⟨.window, [.predicate "$float".toList, .malformed "x\ny \x7b".toList, .selector "class".toList "^(a|b)$, c".toList,
    .flag "opacity".toList "0.9 = 0.8".toList, .selector "title:x".toList "[a]".toList, .flag "pin".toList "on".toList,
    .flag "pin".toList "off".toList]⟩

theorem unsortedRule_reads_back :
    unsortedRule.BlockExpressible ∧
      (Document.read {} (unsortedRule.write .block ⟨7, 1⟩)).problems = [] ∧
      (Document.read {} (unsortedRule.write .block ⟨7, 1⟩)).nodes =
        [⟨0, .blockRule ⟨.window, [.flag "opacity".toList "0.9 = 0.8".toList, .flag "pin".toList "on".toList,
            .flag "pin".toList "off".toList, .selector "class".toList "^(a|b)$, c".toList,
            .selector "title:x".toList "[a]".toList, .predicate "$float".toList]⟩
            "windowrule \x7b".toList (unsortedRule.blockBody "windowrule-7".toList) "\x7d".toList, []⟩,
          ⟨9, .verbatim [], []⟩] := by
  have h : unsortedRule.BlockExpressible := by decide +kernel
  obtain ⟨_, hproblems, hnodes⟩ := block_reads_back h ⟨7, 1⟩
  exact ⟨h, hproblems, hnodes⟩

/-! ## Lines -/

/-- What a fragment can show is kept for a line as it is. -/
theorem Item.InlineExpressible.encoded_inline {subject : Subject} {item : Item} (h : item.InlineExpressible subject) :
    item.encoded .inline subject = item := by
  obtain ⟨key, value, role, isMalformed⟩ := item
  obtain ⟨_, h⟩ := h
  cases role with
  | flag =>
    have hsafe : Comma.Safe (key ++ ' ' :: value) := by
      cases subject with
      | window => exact IsWindowFlag.toIsFlag h |>.safe
      | layer => exact IsLayerFlag.toIsFlag h |>.safe
    have hvalue : Dialect.inline.encode value = value := hsafe.escape_value
    cases subject <;> simp [encoded, hvalue]
  | selector =>
    cases subject with
    | window =>
      have hvalue : Dialect.inline.encode value = value := (IsWindowSelector.safe h).escape_value
      simp [encoded, hvalue]
    | layer =>
      have hkey : Dialect.inline.encode key = key := (IsLayerSelector.safe h).escaped
      simp [encoded, hkey]
  | predicate => cases subject <;> rfl

namespace Rule

theorem InlineExpressible.encoded_written {rule : Rule} (h : rule.InlineExpressible) :
    rule.written.encoded .inline = rule.written := by
  have hitems : rule.writtenItems.map (Item.encoded .inline rule.subject) = rule.writtenItems :=
    (List.map_congr_left fun item hi => (h.items item (mem_writtenItems_iff.mp hi).1).encoded_inline).trans (List.map_id _)
  rw [encoded, written, hitems]

/-- No dialect makes an item of a written rule malformed. -/
theorem malformed_encoded_written (dialect : Dialect) (rule : Rule) : (rule.written.encoded dialect).malformed = [] := by
  refine List.filter_eq_nil_iff.mpr fun item hi => ?_
  obtain ⟨kept, hk, rfl⟩ := List.mem_map.mp hi
  simp [(mem_writtenItems_iff.mp hk).2]

end Rule

/-- **Reading undoes writing on a line.** A rule whose items all have a form that a fragment can show is read from its
line as it is written, whatever its number is. Read for the other dialect it has its commas as that one keeps them. If
the line has no newline in it, it is the only node of its text and has no problem. -/
theorem line_reads_back {rule : Rule} (h : rule.InlineExpressible) (hne : rule.subject = .layer → rule.items ≠ [])
    (counters : Counters) :
    Line.read? .inline (rule.write .inline counters) = some rule.written ∧
    (∀ dialect, Line.read? dialect (rule.write .inline counters) = some (rule.written.encoded dialect)) ∧
    (rule.OneLine → ∀ options, (Document.read options (rule.write .inline counters)).nodes =
      [⟨0, .lineRule (rule.written.encoded options.dialect) (rule.write .inline counters), []⟩]) := by
  have hread : ∀ dialect, Line.read? dialect (rule.write .inline counters) = some (rule.written.encoded dialect) := by
    intro dialect
    rw [Rule.write, rule.read?_inlineText, h.fromLine hne dialect]
    rfl
  refine ⟨?_, hread, fun hone options => ?_⟩
  · rw [hread, h.encoded_written]
  · have hlines : Document.textLines (rule.write .inline counters) = [rule.write .inline counters] :=
      List.splitOn_eq_singleton (oneLine_inlineText hone)
    have hopening : Document.opening? options (rule.write .inline counters) = none :=
      Document.opening?_inlineText options rule
    rw [Document.read, hlines, Document.readNodes_of_line hopening, Document.readNodes, Node.ofLine, hread]
    simp only [Rule.malformed_encoded_written, List.map_nil]

/-- A window rule with arguments that are expressions already and commas behind backslashes. -/
def windowLine : Rule :=
  ⟨.window, [.predicate "$float b\\, c".toList, .selector "class".toList "^(a|b)$\\, c d".toList,
    .flag "size".toList "100 (monitor_h*0.5)".toList, .predicate "floating".toList,
    .flag "move".toList "(min(1\\,2)) (3)".toList]⟩

/-- A layer rule with colons in its namespace and in the key of its flag. -/
def layerLine : Rule :=
  ⟨.layer, [.selector "bar: top".toList "on".toList, .flag "blur:x".toList "0.5 1".toList]⟩

theorem windowLine_and_layerLine_read_back :
    (windowLine.InlineExpressible ∧ (windowLine.subject = .layer → windowLine.items ≠ []) ∧
        Line.read? .inline (windowLine.write .inline {}) = some windowLine.written ∧
        (Document.read { dialect := .inline } (windowLine.write .inline {})).rules = [windowLine.written]) ∧
      layerLine.InlineExpressible ∧ (layerLine.subject = .layer → layerLine.items ≠ []) ∧
        Line.read? .inline (layerLine.write .inline {}) = some layerLine.written := by
  have hwindow : windowLine.InlineExpressible := by decide +kernel
  have hlayer : layerLine.InlineExpressible := by decide +kernel
  have hone : windowLine.OneLine := by decide +kernel
  have hnowindow : windowLine.subject = .layer → windowLine.items ≠ [] := by decide
  have hsome : layerLine.subject = .layer → layerLine.items ≠ [] := by decide
  obtain ⟨hline, _, hnodes⟩ := line_reads_back hwindow hnowindow {}
  refine ⟨⟨hwindow, hnowindow, hline, ?_⟩, hlayer, hsome, (line_reads_back hlayer hsome {}).1⟩
  rw [Document.rules, hnodes hone { dialect := .inline }]
  exact congrArg (fun read => [read]) hwindow.encoded_written

end WindowRules

import WindowRules.Conversion
import WindowRules.Proofs.Merging.Grouping
import WindowRules.Proofs.Reading.OneLine

/-!
# The pieces of a converted text

A conversion runs through the nodes of a document with three things in hand: the signatures that have been written, the
numbers of the next rules, and whether a blank line is to be left out. All three can be told from the nodes that were
passed alone, and so can the piece of text that each node gives (`Document.Gives`).

* `Reached.step` — one node keeps this true. Proof: a rule whose signature is new stands for the next entry of the set,
  since the entries are in the order in which the signatures came (`getElem?_entries_of_new`); a rule that is written as
  a block ends with a newline and one on a line has none (`oneLine_inlineText`), so that only blocks absorb a blank line.
* `pieces_of_reached` — so all nodes give their pieces, and the rule nodes together the texts of the merged rules.
-/

namespace WindowRules

/-- The numbers of the next rules after the given ones: for each subject one more than there are rules about it. -/
def Counters.after (rules : List Rule) : Counters :=
  ⟨1 + rules.countP (·.subject = .window), 1 + rules.countP (·.subject = .layer)⟩

namespace Document

/-! ## What a node gives -/

/-- The rules of some nodes. -/
def rulesOf (nodes : List Node) : List Rule := nodes.filterMap fun node => node.content.rule?

/-- The signatures of the rules of some nodes. -/
def signatures (nodes : List Node) : List Signature := (rulesOf nodes).map Rule.signature

/-- How many different signatures the rules of some nodes have. -/
def rank (nodes : List Node) : Nat := (signatures nodes).eraseDups.length

/-- The node is a rule whose signature comes in an earlier node. -/
def IsDuplicate (before : List Node) (node : Node) : Prop :=
  ∃ rule, node.content.rule? = some rule ∧ rule.signature ∈ signatures before

/-- The nearest node before that is not left out as a duplicate is a rule of more than one line. -/
inductive FollowsBlock : List Node → Prop
  | block {before : List Node} {node : Node} : node.content.rule?.isSome → 1 < node.lines.length →
      ¬IsDuplicate before node → FollowsBlock (before ++ [node])
  | duplicate {before : List Node} {node : Node} : IsDuplicate before node → FollowsBlock before →
      FollowsBlock (before ++ [node])

/-- **What a node gives** in a conversion with the merged rules of a set, if the given nodes come before it: a rule with
a new signature the next merged rule under the next number of its subject, a duplicate nothing, and any other line
itself, unless it is blank and follows a block that was written as a block. -/
inductive Gives (set : RuleSet) (dialect : Dialect) (before : List Node) : Content → List Text → Prop
  | entry {content : Content} {rule merged : Rule} : content.rule? = some rule → rule.signature ∉ signatures before →
      set.rules[rank before]? = some merged → set.get? rule.signature = some merged →
      Gives set dialect before content [merged.write dialect (.after (set.rules.take (rank before)))]
  | duplicate {content : Content} {rule : Rule} : content.rule? = some rule → rule.signature ∈ signatures before →
      Gives set dialect before content []
  | absorbed {line : Text} : dialect = .block ∧ Text.trim line = [] ∧ FollowsBlock before →
      Gives set dialect before (.verbatim line) []
  | copied {line : Text} : ¬(dialect = .block ∧ Text.trim line = [] ∧ FollowsBlock before) →
      Gives set dialect before (.verbatim line) [line]

@[simp] theorem rulesOf_append (nodes others : List Node) : rulesOf (nodes ++ others) = rulesOf nodes ++ rulesOf others :=
  List.filterMap_append ..

@[simp] theorem signatures_append (nodes others : List Node) :
    signatures (nodes ++ others) = signatures nodes ++ signatures others := by simp [signatures]

theorem signatures_of_rule {node : Node} {rule : Rule} (h : node.content.rule? = some rule) :
    signatures [node] = [rule.signature] := by simp [signatures, rulesOf, h]

theorem signatures_of_verbatim {node : Node} (h : node.content.rule? = none) : signatures [node] = [] := by
  simp [signatures, rulesOf, h]

/-- The rank grows with every new signature and with nothing else. -/
theorem rank_concat (before : List Node) {node : Node} {rule : Rule} (h : node.content.rule? = some rule) :
    rank (before ++ [node]) = if rule.signature ∈ signatures before then rank before else rank before + 1 := by
  rw [rank, signatures_append, signatures_of_rule h, eraseDups_concat, rank]
  split <;> simp

theorem rank_concat_verbatim (before : List Node) {node : Node} (h : node.content.rule? = none) :
    rank (before ++ [node]) = rank before := by
  rw [rank, signatures_append, signatures_of_verbatim h, List.append_nil, rank]

/-! ### The nearest node that is not left out -/

theorem followsBlock_concat_iff {before : List Node} {node : Node} :
    FollowsBlock (before ++ [node]) ↔
      (node.content.rule?.isSome ∧ 1 < node.lines.length ∧ ¬IsDuplicate before node) ∨
        (IsDuplicate before node ∧ FollowsBlock before) := by
  constructor
  · intro h
    generalize he : before ++ [node] = nodes at h
    cases h with
    | block hrule hlines hnew =>
      obtain ⟨rfl, hn⟩ := List.append_inj' he rfl
      cases hn
      exact Or.inl ⟨hrule, hlines, hnew⟩
    | duplicate hdup hbefore =>
      obtain ⟨rfl, hn⟩ := List.append_inj' he rfl
      cases hn
      exact Or.inr ⟨hdup, hbefore⟩
  · rintro (⟨hrule, hlines, hnew⟩ | ⟨hdup, hbefore⟩)
    · exact FollowsBlock.block hrule hlines hnew
    · exact FollowsBlock.duplicate hdup hbefore

theorem not_followsBlock_nil : ¬FollowsBlock [] := by
  intro h
  generalize he : ([] : List Node) = nodes at h
  cases h <;> simp at he

/-- Blocks are the rules of more than one line. -/
theorem isBlock_iff {content : Content} : content.isBlock ↔ content.rule?.isSome ∧ 1 < content.lines.length := by
  cases content <;> simp [Content.isBlock, Content.rule?, Content.lines]

end Document

/-! ## Numbers of rules -/

namespace Counters

theorem after_concat (rules : List Rule) (rule : Rule) : after (rules ++ [rule]) = (after rules).advance rule.subject := by
  cases h : rule.subject <;> simp [after, advance, h, List.countP_append, Nat.add_assoc]

end Counters

theorem Rule.writeAll_concat (dialect : Dialect) (counters : Counters) (rules : List Rule) (rule : Rule) :
    Rule.writeAll dialect counters (rules ++ [rule]) =
      ((Rule.writeAll dialect counters rules).1 ++ [rule.write dialect (Rule.writeAll dialect counters rules).2],
        (Rule.writeAll dialect counters rules).2.advance rule.subject) := by
  induction rules generalizing counters with
  | nil => rfl
  | cons first rules ih => simp [Rule.writeAll, ih]

theorem Rule.counters_writeAll (dialect : Dialect) (rules : List Rule) :
    (Rule.writeAll dialect {} rules).2 = Counters.after rules := by
  induction rules using List.reverseRecOn with
  | nil => rfl
  | append_singleton rules rule ih => rw [Rule.writeAll_concat, ih, Counters.after_concat]

/-! ## Entries in the order of the nodes -/

namespace RuleSet

/-- Merged rules have no newline if the rules that went into them have none. -/
theorem oneLine_of_get? {rules : List Rule} (h : ∀ rule ∈ rules, rule.OneLine) {signature : Signature} {merged : Rule}
    (hm : (ofRules rules).get? signature = some merged) : merged.OneLine := by
  rw [get?_ofRules] at hm
  intro item hi
  obtain ⟨rule, hr, _, hir⟩ := Rule.exists_of_mem_group hm hi
  exact h rule hr item (List.mem_filter.mp hir).1

theorem lookup_of_getElem? {entries : List (Signature × Rule)} (h : (entries.map Prod.fst).Nodup) {i : Nat}
    {signature : Signature} {rule : Rule} (he : entries[i]? = some (signature, rule)) :
    entries.lookup signature = some rule := by
  induction entries generalizing i with
  | nil => simp at he
  | cons entry entries ih =>
    obtain ⟨hnot, h⟩ := List.nodup_cons.mp h
    cases i with
    | zero =>
      simp only [List.getElem?_cons_zero, Option.some.injEq] at he
      rw [he, List.lookup_cons_self]
    | succ i =>
      have he : entries[i]? = some (signature, rule) := by simpa using he
      have hne : (signature == entry.1) = false := by
        refine beq_eq_false_iff_ne.mpr fun e => hnot ?_
        exact List.mem_map.mpr ⟨(signature, rule), List.mem_of_getElem? he, e⟩
      rw [List.lookup_cons, hne]
      exact ih h he

theorem length_rules_ofRules (rules : List Rule) :
    (ofRules rules).rules.length = (rules.map Rule.signature).eraseDups.length := by
  rw [RuleSet.rules, List.length_map, ← map_fst_entries_ofRules, List.length_map]

/-- A signature that comes after some others and is not among them has the entry behind theirs. -/
theorem getElem?_entries_of_new {before : List Rule} {rule : Rule} (after : List Rule)
    (h : rule.signature ∉ before.map Rule.signature) :
    ∃ merged, (ofRules (before ++ rule :: after)).rules[(before.map Rule.signature).eraseDups.length]? = some merged ∧
      (ofRules (before ++ rule :: after)).get? rule.signature = some merged := by
  have hfst := map_fst_entries_ofRules (before ++ rule :: after)
  have hnodup : ((ofRules (before ++ rule :: after)).entries.map Prod.fst).Nodup := by
    rw [hfst]; exact nodup_eraseDups _
  have hat : ((ofRules (before ++ rule :: after)).entries.map Prod.fst)[(before.map Rule.signature).eraseDups.length]? =
      some rule.signature := by
    have hnew : (rule.signature :: after.map Rule.signature).removeAll (before.map Rule.signature) =
        rule.signature :: (after.map Rule.signature).removeAll (before.map Rule.signature) :=
      List.filter_cons_of_pos (by simpa using h)
    rw [hfst, List.map_append, List.map_cons, List.eraseDups_append, hnew, List.eraseDups_cons,
      List.getElem?_append_right (Nat.le_refl _)]
    simp
  rw [List.getElem?_map, Option.map_eq_some_iff] at hat
  obtain ⟨⟨signature, merged⟩, he, rfl⟩ := hat
  refine ⟨merged, ?_, lookup_of_getElem? hnodup he⟩
  rw [RuleSet.rules, List.getElem?_map, he]
  rfl

end RuleSet

/-! ## The last character of a written rule -/

theorem Rule.getLast?_blockText (rule : Rule) (name : Text) : (rule.blockText name).getLast? = some '\n' := by
  have hjoin : ∀ lines : List Text, ['\n'].intercalate (lines ++ [['}'], []]) =
      lines.flatMap (· ++ ['\n']) ++ ['}', '\n'] := by
    intro lines
    induction lines with
    | nil => rfl
    | cons line lines ih =>
      cases lines with
      | nil => simp [List.intercalate, List.intersperse]
      | cons next lines =>
        rw [List.cons_append, List.cons_append, List.intercalate_cons_cons, ← List.cons_append, ih]
        simp
  have hlines : rule.blockLines name = ((rule.subject.keyword ++ [' ', '{']) :: ("  name = ".toList ++ name) ::
    rule.writtenItems.map (Item.blockLine rule.subject)) ++ [['}'], []] := rfl
  rw [blockText, hlines, hjoin, List.getLast?_append]
  rfl

/-- Only a rule that is written as a block ends with a newline. -/
theorem Rule.getLast?_write_iff {rule : Rule} (h : rule.OneLine) (dialect : Dialect) (counters : Counters) :
    (rule.write dialect counters).getLast? = some '\n' ↔ dialect = .block := by
  cases dialect with
  | block => simp [write, getLast?_blockText]
  | inline =>
    have hline : Text.OneLine rule.inlineText := oneLine_inlineText h
    simp only [write, reduceCtorEq, iff_false]
    exact fun he => hline (List.mem_of_getLast? he)

namespace Document

/-! ## Running through the nodes -/

/-- The state of a conversion after some nodes, told from these nodes alone. -/
structure Reached (set : RuleSet) (dialect : Dialect) (before : List Node) (progress : Progress) : Prop where
  written : ∀ signature, signature ∈ progress.written ↔ signature ∈ signatures before
  counters : progress.counters = .after (set.rules.take (rank before))
  absorbs : progress.absorbsBlank = true ↔ dialect = .block ∧ FollowsBlock before

theorem reached_start (set : RuleSet) (dialect : Dialect) : Reached set dialect [] .start where
  written := by simp [Progress.start, signatures, rulesOf]
  counters := by simp [Progress.start, rank, signatures, rulesOf, Counters.after]
  absorbs := by simp [Progress.start, not_followsBlock_nil]

/-- A node that is no rule gives its line, or nothing. -/
theorem Reached.verbatim {set : RuleSet} {dialect : Dialect} {before : List Node} {progress : Progress}
    (h : Reached set dialect before progress) {node : Node} (hnode : node.content.rule? = none) :
    Gives set dialect before node.content (node.content.write set dialect progress).1 ∧
      Reached set dialect (before ++ [node]) (node.content.write set dialect progress).2 := by
  have hnot : ¬IsDuplicate before node := by
    rintro ⟨rule, hr, _⟩
    rw [hnode] at hr
    cases hr
  obtain ⟨start, content, problems⟩ := node
  cases content with
  | lineRule rule line => cases hnode
  | blockRule rule opening body closing => cases hnode
  | verbatim line =>
    have hblank : (Content.verbatim line).lines.all (Text.trim · == []) = true ↔ Text.trim line = [] := by
      simp [Content.lines]
    have hdrop : (progress.absorbsBlank && (Content.verbatim line).lines.all (Text.trim · == [])) = true ↔
        dialect = .block ∧ Text.trim line = [] ∧ FollowsBlock before := by
      rw [Bool.and_eq_true, h.absorbs, hblank]
      constructor
      · rintro ⟨⟨hd, hf⟩, ht⟩
        exact ⟨hd, ht, hf⟩
      · rintro ⟨hd, ht, hf⟩
        exact ⟨⟨hd, hf⟩, ht⟩
    refine ⟨?_, ?_, ?_, ?_⟩
    · simp only [Content.write, Content.rule?]
      split
      · next hc => exact Gives.absorbed (hdrop.mp hc)
      · next hc => exact Gives.copied fun hd => hc (hdrop.mpr hd)
    · intro signature
      rw [signatures_append, signatures_of_verbatim hnode, List.append_nil]
      exact h.written signature
    · rw [rank_concat_verbatim before hnode]
      exact h.counters
    · rw [followsBlock_concat_iff]
      simp [Content.write, Content.rule?, hnot]

/-- A duplicate gives nothing and changes nothing. -/
theorem Reached.duplicate {set : RuleSet} {dialect : Dialect} {before : List Node} {progress : Progress}
    (h : Reached set dialect before progress) {node : Node} {rule : Rule} (hnode : node.content.rule? = some rule)
    (hdup : rule.signature ∈ signatures before) :
    Gives set dialect before node.content (node.content.write set dialect progress).1 ∧
      Reached set dialect (before ++ [node]) (node.content.write set dialect progress).2 := by
  have hwrite : node.content.write set dialect progress = ([], progress) := by
    simp only [Content.write, hnode, if_pos ((h.written _).mpr hdup)]
  have hduplicate : IsDuplicate before node := ⟨rule, hnode, hdup⟩
  rw [hwrite]
  refine ⟨Gives.duplicate hnode hdup, ?_, ?_, ?_⟩
  · intro signature
    rw [h.written, signatures_append, signatures_of_rule hnode, List.mem_append, List.mem_singleton]
    exact ⟨Or.inl, fun hs => hs.elim id fun e => e ▸ hdup⟩
  · rw [rank_concat before hnode, if_pos hdup]
    exact h.counters
  · rw [followsBlock_concat_iff, h.absorbs]
    simp [hduplicate]

/-- A rule with a new signature gives the next merged rule. -/
theorem Reached.entry {set : RuleSet} {dialect : Dialect} {before : List Node} {progress : Progress}
    (h : Reached set dialect before progress) {node : Node} {rule merged : Rule}
    (hnode : node.content.rule? = some rule) (hnew : rule.signature ∉ signatures before)
    (hat : set.rules[rank before]? = some merged) (hget : set.get? rule.signature = some merged)
    (hline : merged.OneLine) :
    Gives set dialect before node.content (node.content.write set dialect progress).1 ∧
      Reached set dialect (before ++ [node]) (node.content.write set dialect progress).2 := by
  have hwritten : rule.signature ∉ progress.written := fun hm => hnew ((h.written _).mp hm)
  have hnot : ¬IsDuplicate before node := by
    rintro ⟨other, ho, hs⟩
    rw [hnode] at ho
    cases ho
    exact hnew hs
  have hwrite : node.content.write set dialect progress =
      ([merged.write dialect progress.counters], ⟨progress.counters.advance merged.subject,
        rule.signature :: progress.written,
        node.content.isBlock && (merged.write dialect progress.counters).getLast? == some '\n'⟩) := by
    simp only [Content.write, hnode, if_neg hwritten, hget]
  rw [hwrite]
  refine ⟨?_, ?_, ?_, ?_⟩
  · rw [h.counters]
    exact Gives.entry hnode hnew hat hget
  · intro signature
    rw [signatures_append, signatures_of_rule hnode, List.mem_append, List.mem_singleton, List.mem_cons, h.written]
    exact or_comm
  · rw [rank_concat before hnode, if_neg hnew, List.take_add_one, hat, h.counters]
    exact (Counters.after_concat _ merged).symm
  · have hblock : node.content.isBlock ↔ node.content.rule?.isSome ∧ 1 < node.lines.length := isBlock_iff
    rw [followsBlock_concat_iff, Bool.and_eq_true, beq_iff_eq, Rule.getLast?_write_iff hline, hblock]
    constructor
    · rintro ⟨⟨hrule, hlines⟩, hd⟩
      exact ⟨hd, Or.inl ⟨hrule, hlines, hnot⟩⟩
    · rintro ⟨hd, ⟨hrule, hlines, _⟩ | ⟨hdup, _⟩⟩
      · exact ⟨⟨hrule, hlines⟩, hd⟩
      · exact absurd hdup hnot

/-- **One node gives its piece and keeps the state told.** -/
theorem Reached.step {dialect : Dialect} {before after : List Node} {node : Node} {progress : Progress} {set : RuleSet}
    (hset : set = RuleSet.ofRules (rulesOf (before ++ node :: after)))
    (hline : ∀ rule ∈ rulesOf (before ++ node :: after), rule.OneLine) (h : Reached set dialect before progress) :
    Gives set dialect before node.content (node.content.write set dialect progress).1 ∧
      Reached set dialect (before ++ [node]) (node.content.write set dialect progress).2 := by
  cases hnode : node.content.rule? with
  | none => exact h.verbatim hnode
  | some rule =>
    by_cases hdup : rule.signature ∈ signatures before
    · exact h.duplicate hnode hdup
    · have hrules : rulesOf (before ++ node :: after) = rulesOf before ++ rule :: rulesOf after := by
        simp [rulesOf, hnode]
      obtain ⟨merged, hat, hget⟩ := RuleSet.getElem?_entries_of_new (rulesOf after) hdup
      rw [← hrules, ← hset] at hat hget
      exact h.entry hnode hdup hat hget (RuleSet.oneLine_of_get? hline (hset ▸ hget))

theorem pieces_cons (set : RuleSet) (dialect : Dialect) (progress : Progress) (node : Node) (nodes : List Node) :
    pieces set dialect progress (node :: nodes) = (node.content.write set dialect progress).1 ++
      pieces set dialect (node.content.write set dialect progress).2 nodes := rfl

/-- From a told state on, every node gives its piece. -/
theorem Reached.pieces {set : RuleSet} {dialect : Dialect} {before after : List Node} {progress : Progress}
    (hset : set = RuleSet.ofRules (rulesOf (before ++ after)))
    (hline : ∀ rule ∈ rulesOf (before ++ after), rule.OneLine) (h : Reached set dialect before progress) :
    ∃ given : List (Node × List Text), given.map Prod.fst = after ∧
      pieces set dialect progress after = given.flatMap Prod.snd ∧
      ∀ passed node piece rest, given = passed ++ (node, piece) :: rest →
        Gives set dialect (before ++ passed.map Prod.fst) node.content piece := by
  induction after generalizing before progress with
  | nil => exact ⟨[], rfl, rfl, fun passed node piece rest he => by simp at he⟩
  | cons node after ih =>
    obtain ⟨hgives, hnext⟩ := h.step hset hline
    have happend : before ++ node :: after = (before ++ [node]) ++ after := by simp
    rw [happend] at hset hline
    obtain ⟨given, hnodes, hpieces, hall⟩ := ih hset hline hnext
    refine ⟨(node, (node.content.write set dialect progress).1) :: given, by simp [hnodes], ?_, ?_⟩
    · rw [pieces_cons, hpieces, List.flatMap_cons]
    · intro passed other piece rest he
      cases passed with
      | nil =>
        simp only [List.nil_append, List.cons.injEq, Prod.mk.injEq] at he
        obtain ⟨⟨rfl, rfl⟩, _⟩ := he
        simpa using hgives
      | cons first passed =>
        simp only [List.cons_append, List.cons.injEq] at he
        obtain ⟨rfl, he⟩ := he
        simpa using hall passed other piece rest he

/-- Together the rule nodes give the texts of the next merged rules. -/
theorem texts_of_gives {set : RuleSet} {dialect : Dialect} {given : List (Node × List Text)}
    (h : ∀ passed node piece rest, given = passed ++ (node, piece) :: rest →
      Gives set dialect (passed.map Prod.fst) node.content piece) :
    (given.filter (·.1.content.rule?.isSome)).flatMap Prod.snd =
      (Rule.writeAll dialect {} (set.rules.take (rank (given.map Prod.fst)))).1 := by
  induction given using List.reverseRecOn with
  | nil => simp [rank, signatures, rulesOf, Rule.writeAll]
  | append_singleton given last ih =>
    have ih := ih fun passed node piece rest he => h passed node piece (rest ++ [last]) (by simp [he])
    obtain ⟨node, piece⟩ := last
    have hlast := h given node piece [] rfl
    rw [List.filter_append, List.flatMap_append, ih, List.map_append, List.map_singleton]
    generalize hcontent : node.content = content at hlast
    cases hlast with
    | entry hrule hnew hat hget =>
      rw [rank_concat _ (hcontent ▸ hrule), if_neg hnew, List.take_add_one, hat]
      simp [hcontent, hrule, Rule.writeAll_concat, Rule.counters_writeAll]
    | duplicate hrule hdup =>
      rw [rank_concat _ (hcontent ▸ hrule), if_pos hdup]
      simp
    | absorbed hd =>
      have hnone : node.content.rule? = none := by rw [hcontent]; rfl
      rw [rank_concat_verbatim _ hnone]
      simp
    | copied hd =>
      have hnone : node.content.rule? = none := by rw [hcontent]; rfl
      rw [rank_concat_verbatim _ hnone]
      simp [hnone]

/-- **The nodes of a text give the pieces of the converted text**, and the rules among them each merged rule once. -/
theorem exists_given (options : Options) (text : Text) :
    ∃ given : List (Node × List Text),
      given.map Prod.fst = (read options text).nodes ∧
      convert options text = ['\n'].intercalate (given.flatMap Prod.snd) ∧
      (∀ before node piece after, given = before ++ (node, piece) :: after →
        Gives (RuleSet.ofRules (read options text).rules) options.dialect (before.map Prod.fst) node.content piece) ∧
      (given.filter (·.1.content.rule?.isSome)).flatMap Prod.snd =
        (Rule.writeAll options.dialect {} (merge (read options text).rules)).1 := by
  have hline : ∀ rule ∈ (read options text).rules, rule.OneLine := fun rule => oneLine_of_mem_rules
  have hset : RuleSet.ofRules (read options text).rules =
      RuleSet.ofRules (rulesOf ([] ++ (read options text).nodes)) := rfl
  have hstart := reached_start (RuleSet.ofRules (read options text).rules) options.dialect
  obtain ⟨given, hnodes, hpieces, hgives⟩ := hstart.pieces hset hline
  refine ⟨given, hnodes, ?_, hgives, ?_⟩
  · rw [← hpieces]
    rfl
  · have hrank : rank (given.map Prod.fst) = (merge (read options text).rules).length := by
      rw [hnodes, merge_eq_rules]
      exact (RuleSet.length_rules_ofRules (read options text).rules).symm
    rw [texts_of_gives hgives, hrank, merge_eq_rules]
    exact congrArg (fun rules => (Rule.writeAll options.dialect {} rules).1) List.take_length

/-- Without rules all lines are copied. -/
theorem pieces_of_no_rules {set : RuleSet} {dialect : Dialect} {progress : Progress} {nodes : List Node}
    (hrules : rulesOf nodes = []) (hstart : progress.absorbsBlank = false) :
    pieces set dialect progress nodes = nodes.flatMap Node.lines := by
  induction nodes generalizing progress with
  | nil => rfl
  | cons node nodes ih =>
    have hall : ∀ other ∈ node :: nodes, other.content.rule? = none := List.filterMap_eq_nil_iff.mp hrules
    have hnode : node.content.rule? = none := hall node List.mem_cons_self
    have hrest : rulesOf nodes = [] :=
      List.filterMap_eq_nil_iff.mpr fun other ho => hall other (List.mem_cons_of_mem _ ho)
    have hwrite : node.content.write set dialect progress = (node.lines, { progress with absorbsBlank := false }) := by
      simp [Content.write, hnode, hstart, Node.lines]
    rw [pieces_cons, hwrite, List.flatMap_cons, ih hrest rfl]

end Document

/-- **The shape of a conversion.** The nodes of the text give the lines of the converted text one after another. A rule
with a new signature gives the next of the merged rules, so that together the rules give each merged rule once and in
order, and the numbers of each subject run from one on. A duplicate gives nothing. Any other line gives itself, with one
exception: a blank line gives nothing if blocks are written and the nearest node before it that is no duplicate is a
rule of more than one line. -/
theorem convert_gives_pieces (options : Options) (text : Text) :
    (∃ given : List (Node × List Text),
      given.map Prod.fst = (Document.read options text).nodes ∧
      convert options text = ['\n'].intercalate (given.flatMap Prod.snd) ∧
      (∀ before node piece after, given = before ++ (node, piece) :: after →
        Document.Gives (RuleSet.ofRules (Document.read options text).rules) options.dialect (before.map Prod.fst)
          node.content piece) ∧
      (given.filter (·.1.content.rule?.isSome)).flatMap Prod.snd =
        (Rule.writeAll options.dialect {} (merge (Document.read options text).rules)).1 ∧
      (options.dialect = .inline → ∀ before node piece after, given = before ++ (node, piece) :: after →
        node.content.rule? = none → piece = node.lines)) ∧
    ((Document.read options text).rules = [] → convert options text = text) := by
  constructor
  · obtain ⟨given, hnodes, hconvert, hgives, htexts⟩ := Document.exists_given options text
    refine ⟨given, hnodes, hconvert, hgives, htexts, ?_⟩
    intro hinline before node piece after he hnode
    have hgive := hgives before node piece after he
    obtain ⟨start, content, problems⟩ := node
    cases hgive with
    | entry hrule =>
      rw [hrule] at hnode
      cases hnode
    | duplicate hrule =>
      rw [hrule] at hnode
      cases hnode
    | absorbed hd =>
      rw [hinline] at hd
      cases hd.1
    | copied hd => rfl
  · intro hrules
    have hlines : (Document.read options text).nodes.flatMap Node.lines = Document.textLines text :=
      Document.flatMap_lines_read options text
    rw [convert, Document.writeMerged, Document.write, Document.pieces_of_no_rules hrules rfl, hlines]
    exact List.intercalate_splitOn '\n'

end WindowRules

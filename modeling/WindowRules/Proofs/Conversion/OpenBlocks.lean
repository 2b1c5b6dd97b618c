import WindowRules.Proofs.Conversion.Stability
import WindowRules.Proofs.Reading.Tiling
import Mathlib.Order.Monotone.Basic

/-!
# Blocks that are left open

A line that opens a block and is kept, since the block is never closed, stands in the converted text where the nodes
before it end (`Document.place`). There it is kept again unless a brace closes it now. Such a brace is always one that
was kept as well, and no line between the two ends like an opening (`opening_kept_again_iff`): what is written for a
rule closes no block that stands open before it.

* `Document.kept_at_iff` — a line that opens a block is kept exactly if the block closes nowhere. Proof: it starts a
  node, since no line of a block ends like an opening.
* `Document.exists_gives_at` — the lines that a node gives stand at its place. Proof: the nodes before it give what they
  give on their own (`pieces_append`).
* `Document.exists_closer` — a line that closes the block of a kept opening was kept itself. Proof: the node whose lines
  it is one of is no rule, since the lines of a rule begin with one that ends like an opening or are a single line with
  an equals sign.
-/

namespace WindowRules

open Text

/-! ## Openings -/

namespace Document

/-- A line that ends like an opening starts a node. -/
theorem exists_node_of_brace (options : Options) {lines : List Text} {index : Nat} {line : Text}
    (hat : lines[index]? = some line) (hbrace : (trim line).getLast? = some '{') :
    ∃ node ∈ readNodes options 0 lines, node.start = index := by
  have hindex : index ∈ (readNodes options 0 lines).flatMap Node.indices := by
    rw [flatMap_indices_readNodes, List.mem_range'_1]
    have := (List.getElem?_eq_some_iff.mp hat).1
    omega
  obtain ⟨node, hnode, hin⟩ := List.mem_flatMap.mp hindex
  rw [Node.indices, List.mem_range'_1] at hin
  refine ⟨node, hnode, ?_⟩
  by_contra hne
  -- behind the first line of a node stand the lines of a block, and none of them ends like an opening
  have hlong : 1 < node.lines.length := by omega
  cases hrule : node.content.rule? with
  | none =>
    rw [Node.lines] at hlong
    cases hcontent : node.content <;> simp [hcontent, Content.rule?, Content.lines] at hrule hlong
  | some rule =>
    obtain ⟨_, hcloses⟩ := closes_of_mem hnode hrule hlong
    rw [Node.stop] at hcloses
    by_cases hlast : index = node.start + node.lines.length - 1
    · obtain ⟨closing, hclosing, htrim⟩ := hcloses.brace
      rw [← hlast, hat] at hclosing
      cases hclosing
      rw [htrim] at hbrace
      cases hbrace
    · exact (hcloses.between index line (by omega) (by omega) hat).2 hbrace

/-- **A line that opens a block is kept exactly if the block closes nowhere.** -/
theorem kept_at_iff {options : Options} {lines : List Text} {index : Nat} {line : Text} {subject : Subject}
    (hat : lines[index]? = some line) (hopening : opening? options line = some subject) :
    (∃ node ∈ readNodes options 0 lines, node.start = index ∧ node.content = .verbatim line) ↔
      ∀ closing, ¬Block.Closes lines index closing := by
  obtain ⟨hblocks, hopens⟩ := opening?_eq_some_iff.mp hopening
  constructor
  · rintro ⟨node, hnode, rfl, hcontent⟩
    obtain ⟨before, after, hnodes⟩ := List.append_of_mem hnode
    rcases opening_cases hblocks hnodes hat hopens with ⟨_, hnowhere, _⟩ | ⟨rule, hrule, _⟩
    · exact hnowhere
    · rw [hcontent] at hrule
      cases hrule
  · intro hnowhere
    have hbrace : (trim line).getLast? = some '{' := by
      simpa [Block.endsOpen] using Block.endsOpen_of_opening? hopens
    obtain ⟨node, hnode, rfl⟩ := exists_node_of_brace options hat hbrace
    refine ⟨node, hnode, rfl, ?_⟩
    obtain ⟨before, after, hnodes⟩ := List.append_of_mem hnode
    rcases opening_cases hblocks hnodes hat hopens with ⟨hnone, _⟩ | ⟨rule, _, _, hcloses⟩
    · have hfirst := getElem?_start_add hnode 0 (List.length_pos_iff.mpr node.content.lines_ne_nil)
      rw [Nat.add_zero, hat] at hfirst
      obtain ⟨start, content, problems⟩ := node
      cases content with
      | verbatim kept => simpa [Node.lines, Content.lines, eq_comm] using hfirst
      | lineRule => cases hnone
      | blockRule => cases hnone
    · have hpos : 0 < node.lines.length := List.length_pos_iff.mpr node.content.lines_ne_nil
      refine absurd ((hcloses (node.stop - 1)).mpr ?_) (hnowhere _)
      rw [Node.stop]
      omega

/-! ## What the nodes before a place give -/

/-- How far a document has been written behind some nodes. -/
def progressAfter (set : RuleSet) (dialect : Dialect) (progress : Progress) (nodes : List Node) : Progress :=
  nodes.foldl (fun progress node => (node.content.write set dialect progress).2) progress

/-- Nodes give what they give without the nodes behind them. -/
theorem pieces_append (set : RuleSet) (dialect : Dialect) (progress : Progress) (nodes others : List Node) :
    pieces set dialect progress (nodes ++ others) =
      pieces set dialect progress nodes ++ pieces set dialect (progressAfter set dialect progress nodes) others := by
  induction nodes generalizing progress with
  | nil => rfl
  | cons node nodes ih =>
    rw [List.cons_append, pieces_cons, pieces_cons, ih, List.append_assoc]
    rfl

/-- Behind some nodes the state of a conversion is told from these nodes. -/
theorem reached_progressAfter {set : RuleSet} (dialect : Dialect) {nodes others : List Node}
    (hset : set = RuleSet.ofRules (rulesOf (nodes ++ others)))
    (hline : ∀ rule ∈ rulesOf (nodes ++ others), rule.OneLine) :
    Reached set dialect nodes (progressAfter set dialect .start nodes) := by
  induction nodes using List.reverseRecOn generalizing others with
  | nil => exact reached_start set dialect
  | append_singleton nodes node ih =>
    rw [List.append_assoc, List.singleton_append] at hset hline
    rw [progressAfter, List.foldl_append, List.foldl_cons, List.foldl_nil, ← progressAfter]
    exact ((ih hset hline).step hset hline).2

variable (options : Options) (text : Text)

/-- The lines that the first nodes of a text give in the converted text. -/
def linesBefore (count : Nat) : List Text :=
  (pieces (RuleSet.ofRules (read options text).rules) options.dialect .start
    ((read options text).nodes.take count)).flatMap textLines

/-- The index in the converted text at which the node stands that has the given index. -/
def place (index : Nat) : Nat := (linesBefore options text index).length

variable {options text}

/-- The lines of the converted text are those that all nodes give. -/
theorem textLines_convert_eq : textLines (convert options text) =
    (pieces (RuleSet.ofRules (read options text).rules) options.dialect .start (read options text).nodes).flatMap
      textLines := by
  refine textLines_intercalate ?_
  have hline : ∀ rule ∈ rulesOf (read options text).nodes, rule.OneLine := fun rule => oneLine_of_mem_rules
  have hset : RuleSet.ofRules (read options text).rules = RuleSet.ofRules (rulesOf (read options text).nodes) := rfl
  cases hnodes : (read options text).nodes with
  | nil => exact absurd hnodes (nodes_ne_nil options text)
  | cons node nodes =>
    rw [hnodes] at hline hset
    have hfirst := ((reached_start _ options.dialect).step hset hline).1.ne_nil
    rw [pieces_cons]
    exact fun he => hfirst (List.append_eq_nil_iff.mp he).1

/-- **The lines that a node gives stand at its place.** -/
theorem exists_gives_at {index : Nat} {node : Node} (hnode : (read options text).nodes[index]? = some node) :
    ∃ given, Gives (RuleSet.ofRules (read options text).rules) options.dialect ((read options text).nodes.take index)
        node.content given ∧
      place options text (index + 1) = place options text index + (given.flatMap textLines).length ∧
      ∀ i line, (given.flatMap textLines)[i]? = some line →
        (textLines (convert options text))[place options text index + i]? = some line := by
  obtain ⟨hindex, hget⟩ := List.getElem?_eq_some_iff.mp hnode
  have hsplit : (read options text).nodes.take index ++ node :: (read options text).nodes.drop (index + 1) =
      (read options text).nodes := by
    rw [← hget, ← List.drop_eq_getElem_cons hindex, List.take_append_drop]
  have htake : (read options text).nodes.take (index + 1) = (read options text).nodes.take index ++ [node] := by
    rw [List.take_add_one, hnode]
    rfl
  have hline : ∀ rule ∈ rulesOf ((read options text).nodes.take index ++ node ::
      (read options text).nodes.drop (index + 1)), rule.OneLine := by
    rw [hsplit]
    exact fun rule => oneLine_of_mem_rules
  have hset : RuleSet.ofRules (read options text).rules = RuleSet.ofRules (rulesOf
      ((read options text).nodes.take index ++ node :: (read options text).nodes.drop (index + 1))) := by
    rw [hsplit]
    rfl
  have hreached := reached_progressAfter options.dialect hset hline
  refine ⟨_, (hreached.step hset hline).1, ?_, fun i line hat => ?_⟩
  · rw [place, linesBefore, htake, pieces_append, List.flatMap_append, List.length_append, place, linesBefore,
      pieces_cons, pieces, List.append_nil]
  · have hlong := (List.getElem?_eq_some_iff.mp hat).1
    rw [textLines_convert_eq, ← hsplit, pieces_append, pieces_cons, List.flatMap_append, List.flatMap_append, place,
      linesBefore, List.getElem?_append_right (Nat.le_add_right _ _), Nat.add_sub_cancel_left,
      List.getElem?_append_left hlong, hat]

/-- Later nodes have later places. -/
theorem place_mono : Monotone (place options text) := by
  refine monotone_nat_of_le_succ fun index => ?_
  cases hnode : (read options text).nodes[index]? with
  | none =>
    have hlength := List.getElem?_eq_none_iff.mp hnode
    rw [place, linesBefore, List.take_of_length_le hlength, place, linesBefore,
      List.take_of_length_le (Nat.le_succ_of_le hlength)]
  | some node =>
    obtain ⟨given, _, hnext, _⟩ := exists_gives_at hnode
    omega

/-- Every line of the converted text stands at the place of one node. -/
theorem exists_place_le {index count : Nat} (h : index < place options text count) :
    ∃ i < count, place options text i ≤ index ∧ index < place options text (i + 1) := by
  induction count with
  | zero => simp [place, linesBefore, pieces] at h
  | succ count ih =>
    by_cases hbefore : index < place options text count
    · obtain ⟨i, hi, hin⟩ := ih hbefore
      exact ⟨i, by omega, hin⟩
    · exact ⟨count, by omega, by omega, h⟩

theorem place_length :
    place options text (read options text).nodes.length = (textLines (convert options text)).length := by
  rw [place, linesBefore, List.take_length, textLines_convert_eq]

/-! ## What closes a block -/

end Document

/-- The first line of a written rule closes no block, and it ends like an opening if more lines follow. -/
theorem Rule.exists_first_line {rule : Rule} (h : rule.OneLine) (dialect : Dialect) (counters : Counters) :
    ∃ first rest, Document.textLines (rule.write dialect counters) = first :: rest ∧
      Block.isClosing (trim first) = false ∧ (rest = [] ∨ (trim first).getLast? = some '{') := by
  cases dialect with
  | block =>
    have hname := counters.isEntryValue_name rule.subject
    refine ⟨_, _, Rule.textLines_blockText h hname.oneLine, ?_, Or.inr ?_⟩ <;> cases rule.subject <;> rfl
  | inline =>
    refine ⟨_, [], Document.textLines_of_oneLine (oneLine_inlineText h), ?_, Or.inl rfl⟩
    obtain ⟨rest, htrim⟩ := rule.trim_inlineText
    rw [Rule.write, htrim]
    cases rule.subject <;> rfl

namespace Document

/-- A line that is not blank is copied. -/
theorem Gives.eq_of_verbatim {set : RuleSet} {dialect : Dialect} {before : List Node} {line : Text} {given : List Text}
    (h : Gives set dialect before (.verbatim line) given) (hline : trim line ≠ []) : given = [line] := by
  cases h with
  | entry hrule => cases hrule
  | duplicate hrule => cases hrule
  | absorbed hd => exact absurd hd.2.1 hline
  | copied => rfl

theorem oneLine_of_verbatim {index : Nat} {node : Node} {line : Text}
    (hnode : (read options text).nodes[index]? = some node) (hcontent : node.content = .verbatim line) :
    OneLine line := by
  refine oneLine_of_mem_nodes (List.mem_of_getElem? hnode) line ?_
  rw [Node.lines, hcontent]
  exact List.mem_singleton_self line

/-- A kept line that is not blank stands at its place. -/
theorem getElem?_place {index : Nat} {line : Text}
    (hcontent : ((read options text).nodes.map Node.content)[index]? = some (.verbatim line)) (hline : trim line ≠ []) :
    (textLines (convert options text))[place options text index]? = some line ∧
      place options text (index + 1) = place options text index + 1 := by
  rw [List.getElem?_map, Option.map_eq_some_iff] at hcontent
  obtain ⟨node, hnode, hcontent⟩ := hcontent
  obtain ⟨given, hgives, hnext, hat⟩ := exists_gives_at hnode
  rw [hcontent] at hgives
  have hlines : given.flatMap textLines = [line] := by
    rw [hgives.eq_of_verbatim hline, List.flatMap_singleton, textLines_of_oneLine (oneLine_of_verbatim hnode hcontent)]
  rw [hlines] at hnext hat
  exact ⟨hat 0 line rfl, hnext⟩

/-- **A line that closes the block of a kept opening was kept itself.** -/
theorem exists_closer {index closing : Nat} {line : Text}
    (hcontent : ((read options text).nodes.map Node.content)[index]? = some (.verbatim line)) (hline : trim line ≠ [])
    (hcloses : Block.Closes (textLines (convert options text)) (place options text index) closing) :
    ∃ i brace, index < i ∧ ((read options text).nodes.map Node.content)[i]? = some (.verbatim brace) ∧
      trim brace = ['}'] ∧ place options text i = closing := by
  obtain ⟨hbehind, ⟨brace, hbrace, hclosing⟩, hbetween⟩ := hcloses
  have hlength := (List.getElem?_eq_some_iff.mp hbrace).1
  rw [← place_length] at hlength
  obtain ⟨i, hi, hlow, hhigh⟩ := exists_place_le hlength
  have hopening := (getElem?_place hcontent hline).2
  have hlater : index < i := by
    by_contra hle
    have hmono : place options text (i + 1) ≤ place options text (index + 1) := place_mono (by omega)
    omega
  have hafter : place options text index < place options text i := by
    have hmono : place options text (index + 1) ≤ place options text i := place_mono hlater
    omega
  obtain ⟨node, hnode⟩ : ∃ node, (read options text).nodes[i]? = some node := ⟨_, List.getElem?_eq_getElem hi⟩
  have hnodeContent : ((read options text).nodes.map Node.content)[i]? = some node.content := by
    rw [List.getElem?_map, hnode]
    rfl
  obtain ⟨given, hgives, hnext, hat⟩ := exists_gives_at hnode
  generalize hnodeLine : node.content = content at hgives hnodeContent
  cases hgives with
  | entry _ _ _ hget =>
    have hone := RuleSet.oneLine_of_get? (fun rule => oneLine_of_mem_rules) hget
    obtain ⟨first, rest, hlines, hfirst, hrest⟩ := Rule.exists_first_line hone options.dialect (.after _)
    rw [List.flatMap_singleton, hlines] at hnext hat
    have hfirstAt := hat 0 first rfl
    rw [Nat.add_zero] at hfirstAt
    rcases Nat.eq_or_lt_of_le hlow with heq | hlt
    · -- the first line of a rule closes no block
      rw [heq, hbrace] at hfirstAt
      cases hfirstAt
      rw [hclosing] at hfirst
      cases hfirst
    · -- a later line of a rule stands behind one that ends like an opening
      rcases hrest with rfl | hopens
      · rw [List.length_singleton] at hnext
        omega
      · exact absurd hopens (hbetween _ first hafter hlt hfirstAt).2
  | duplicate =>
    rw [List.flatMap_nil, List.length_nil] at hnext
    omega
  | absorbed =>
    rw [List.flatMap_nil, List.length_nil] at hnext
    omega
  | @copied kept _ =>
    rw [List.flatMap_singleton, textLines_of_oneLine (oneLine_of_verbatim hnode hnodeLine)] at hnext hat
    rw [List.length_singleton] at hnext
    have heq : place options text i = closing := by omega
    have hkept := hat 0 kept rfl
    rw [Nat.add_zero, heq, hbrace] at hkept
    cases hkept
    exact ⟨i, brace, hlater, hnodeContent, hclosing, heq⟩

end Document

/-- If a brace stands alone on a later line and no line before it ends like an opening, the block closes there or
earlier. -/
theorem Block.exists_closes {lines : List Text} {opening limit : Nat} (hbehind : opening < limit)
    (hbrace : ∃ line, lines[limit]? = some line ∧ trim line = ['}'])
    (hbetween : ∀ index line, opening < index → index < limit → lines[index]? = some line →
      (trim line).getLast? ≠ some '{') : ∃ closing, Closes lines opening closing := by
  induction limit using Nat.strongRecOn with
  | ind limit ih =>
    by_cases hearlier : ∃ index, opening < index ∧ index < limit ∧ ∃ line, lines[index]? = some line ∧ trim line = ['}']
    · obtain ⟨index, hlow, hhigh, hline⟩ := hearlier
      exact ih index hhigh hlow hline fun other line ho hi => hbetween other line ho (by omega)
    · refine ⟨limit, hbehind, hbrace, fun index line hlow hhigh hat => ⟨fun htrim => ?_, ?_⟩⟩
      · exact hearlier ⟨index, hlow, hhigh, line, hat, htrim⟩
      · exact hbetween index line hlow hhigh hat

/-- **A block that is left open is left open again**, unless a brace that was kept closes it now: the line that opens it
stands in the converted text and is kept there exactly if a line that ends like an opening stands between it and each
later line that was kept and is a brace alone. -/
theorem opening_kept_again_iff {options : Options} {text : Text} {index : Nat} {line : Text} {subject : Subject}
    (hcontent : ((Document.read options text).nodes.map Node.content)[index]? = some (.verbatim line))
    (hopening : Document.opening? options line = some subject) :
    (Document.textLines (convert options text))[Document.place options text index]? = some line ∧
      ((∃ node ∈ (Document.read options (convert options text)).nodes,
          node.start = Document.place options text index ∧ node.content = .verbatim line) ↔
        ∀ i brace, index < i → ((Document.read options text).nodes.map Node.content)[i]? = some (.verbatim brace) →
          trim brace = ['}'] → ∃ k other, Document.place options text index < k ∧ k < Document.place options text i ∧
            (Document.textLines (convert options text))[k]? = some other ∧ (trim other).getLast? = some '{') := by
  have hline : trim line ≠ [] := by
    intro hnil
    have hopens := Block.endsOpen_of_opening? (Document.opening?_eq_some_iff.mp hopening).2
    rw [hnil] at hopens
    cases hopens
  obtain ⟨hat, hnext⟩ := Document.getElem?_place hcontent hline
  refine ⟨hat, (Document.kept_at_iff hat hopening).trans ⟨fun hnowhere i brace hi hkept hbrace => ?_, ?_⟩⟩
  · by_contra hnone
    have hplace : Document.place options text (index + 1) ≤ Document.place options text i := Document.place_mono hi
    have hclosing := (Document.getElem?_place hkept (by simp [hbrace])).1
    obtain ⟨closing, hcloses⟩ := Block.exists_closes (by omega) ⟨brace, hclosing, hbrace⟩
      fun k other hlow hhigh ho hopens => hnone ⟨k, other, hlow, hhigh, ho, hopens⟩
    exact hnowhere closing hcloses
  · intro hall closing hcloses
    obtain ⟨i, brace, hi, hkept, hbrace, rfl⟩ := Document.exists_closer hcontent hline hcloses
    obtain ⟨k, other, hlow, hhigh, ho, hopens⟩ := hall i brace hi hkept hbrace
    exact (hcloses.between k other hlow hhigh ho).2 hopens

/-- An open block in front of a block, and behind that another section. -/
def openText : Text :=
  textOfLines ["windowrule \x7b", "windowrule \x7b", "  float = on", "\x7d", "general \x7b", "\x7d"]

/-- On lines the first block is left open as before: the brace at the end belongs to the other section. -/
theorem openText_kept_again :
    ((Document.read { dialect := .inline } openText).nodes.map Node.content)[0]? =
        some (.verbatim "windowrule \x7b".toList) ∧
      Document.opening? { dialect := .inline } "windowrule \x7b".toList = some .window ∧
      (∃ node ∈ (Document.read { dialect := .inline } (convert { dialect := .inline } openText)).nodes,
        node.start = Document.place { dialect := .inline } openText 0 ∧
          node.content = .verbatim "windowrule \x7b".toList) ∧
      ∃ k other, Document.place { dialect := .inline } openText 0 < k ∧
        k < Document.place { dialect := .inline } openText 3 ∧
        (Document.textLines (convert { dialect := .inline } openText))[k]? = some other ∧
        (trim other).getLast? = some '{' := by
  have hcontent : ((Document.read { dialect := .inline } openText).nodes.map Node.content)[0]? =
      some (.verbatim "windowrule \x7b".toList) := by decide +kernel
  have hopening : Document.opening? { dialect := .inline } "windowrule \x7b".toList = some .window := by decide +kernel
  have hkept : ∃ node ∈ (Document.read { dialect := .inline } (convert { dialect := .inline } openText)).nodes,
      node.start = Document.place { dialect := .inline } openText 0 ∧
        node.content = .verbatim "windowrule \x7b".toList := by decide +kernel
  refine ⟨hcontent, hopening, hkept, ?_⟩
  exact (opening_kept_again_iff hcontent hopening).2.mp hkept 3 "\x7d".toList (by decide) (by decide +kernel) (by decide)

/-- Every line that is kept as the opening of a block without an end is kept in the converted text. -/
def Document.KeepsOpenings (options : Options) : Prop :=
  ∀ text index line subject, ((read options text).nodes.map Node.content)[index]? = some (.verbatim line) →
    opening? options line = some subject →
      ∃ node ∈ (read options (convert options text)).nodes,
        node.start = place options text index ∧ node.content = .verbatim line

/-- A brace that was kept can close a block that was left open, when the block between the two is written on a line or
left out as a duplicate. -/
theorem not_keepsOpenings :
    ¬Document.KeepsOpenings { dialect := .inline } ∧ ¬Document.KeepsOpenings { dialect := .block } := by
  constructor
  · intro h
    have hkept := h (textOfLines ["windowrule \x7b", "windowrule \x7b", "  float = on", "\x7d", "\x7d"]) 0
      "windowrule \x7b".toList .window (by decide +kernel) (by decide +kernel)
    exact absurd hkept (by decide +kernel)
  · intro h
    have hkept := h (textOfLines ["windowrule \x7b", "  float = on", "\x7d", "windowrule \x7b", "windowrule \x7b",
      "  float = on", "\x7d", "\x7d"]) 1 "windowrule \x7b".toList .window (by decide +kernel) (by decide +kernel)
    exact absurd hkept (by decide +kernel)

end WindowRules

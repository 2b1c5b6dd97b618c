import WindowRules.Conversion
import WindowRules.Proofs.Grammar.Entries
import WindowRules.Proofs.Reading.Tiling

/-!
# All problems are reported

What is reported of a text can be told from what its lines were read as (`Content.report`): one problem for each
malformed item and one for each block that is left open, and nothing else (`problems_reported`).

* `Block.readLine?_eq`, `Block.eq_malformed_of_item?` — a line of a block has a problem exactly if its item is
  malformed, and such an item is the line as it is written. So the malformed items and the problems of a block come
  from the same lines (`Block.faults`), in one order.
* `Entry.verdict_iff` — what is reported of such a line is the one verdict of the grammar of entries: it is unparsable
  exactly if the grammar takes no entry there. Proof: the reader tells the same two cases (`verdict_report`), and the
  grammar has at most one run (`Verdict.unique`).
* `Document.problems_eq_report` — each node reports its own problems. Proof: by the three kinds of nodes.
* `Document.numbered_readNodes` — the numbers of the problems never decrease. Proof: by induction over the nodes; the
  problems of a node lie on its lines, and the next node starts behind them.
-/

namespace WindowRules

open Text

/-! ## What is reported -/

/-- The number of the line where a problem of a text lies. -/
def Problem.line? : Problem → Option Nat
  | unparsable line _ _ => some line
  | malformed line _ => some line
  | unterminated line => some line
  | unknownDialect _ => none
  | several _ => none

/-- What is reported of a trimmed line of a block that gives a malformed item: where it leaves the grammar of an entry,
and otherwise the line as it is written. -/
def Entry.report (number : Nat) (line : Text) : Problem :=
  match Entry.read line with
  | .error fault => .unparsable number fault.column fault.explanation
  | .ok _ => .malformed number line

/-- **The verdict of the grammar on a line of a block that gives a malformed item**: the line is unparsable at the
furthest place to which the grammar comes, if the grammar takes no entry there, and otherwise malformed as it is
written. -/
inductive Entry.Verdict (number : Nat) (line : Text) : Problem → Prop where
  /-- The grammar takes no entry. -/
  | unparsable {missed : List Text} {place : Text} {column : Nat} : Grammar.Runs Grammar.blockEntry line missed none →
      Grammar.Furthest missed place → column = line.length - place.length + 1 →
      Verdict number line (.unparsable number column (expected column))
  /-- The grammar takes an entry. -/
  | malformed {tokens : List Grammar.Token} : Grammar.Matches Grammar.blockEntry line [] tokens →
      Verdict number line (.malformed number line)

/-- The lines of a body that give malformed items, with their numbers. -/
def Block.faults (dialect : Dialect) (subject : Subject) (number : Nat) (body : List Text) : List (Text × Nat) :=
  (body.zipIdx number).filter fun entry => (item? dialect subject entry.1).any Item.isMalformed

/-- What is to be reported of lines that start at an index: an opening of a block that was kept, since it is never
closed, the malformed items of a rule on a line, by their keys, and the lines of a block that give malformed items. -/
def Content.report (options : Options) (start : Nat) : Content → List Problem
  | .verbatim line => if (Document.opening? options line).isSome then [.unterminated (start + 1)] else []
  | .lineRule rule _ => rule.malformed.map fun item => .malformed (start + 1) item.key
  | .blockRule rule _ body _ => (Block.faults options.dialect rule.subject (start + 2) body).map fun entry =>
      Entry.report entry.2 (trim entry.1)

/-- Whether a line was kept that opens a block. -/
def Content.leavesOpen (options : Options) : Content → Bool
  | .verbatim line => (Document.opening? options line).isSome
  | _ => false

/-! ## Lines of a block -/

/-- An entry gives no malformed item but the line as it is written. -/
theorem Entry.eq_malformed_of_item? {dialect : Dialect} {subject : Subject} {line : Text} {entry : Entry} {item : Item}
    (h : entry.item? dialect subject line = some item) (hform : item.isMalformed = true) : item = .malformed line := by
  unfold Entry.item? at h
  split at h
  · cases h
  · cases h
    revert hform
    split
    · unfold Fragment.flag
      split <;> exact nofun
    · exact fun _ => rfl
    · split
      · exact nofun
      · exact fun _ => rfl
      · exact nofun
      · exact nofun

/-- The grammar has one verdict on a line, since it has at most one run there. -/
theorem Entry.Verdict.unique {number : Nat} {line : Text} {problem other : Problem} (h : Verdict number line problem)
    (hother : Verdict number line other) : problem = other := by
  cases h with
  | unparsable hruns hfurthest hcolumn =>
    cases hother with
    | unparsable hruns' hfurthest' hcolumn' =>
      obtain ⟨rfl, _⟩ := hruns.unique hruns'
      have hlength := Nat.le_antisymm (hfurthest.least _ hfurthest'.mem) (hfurthest'.least _ hfurthest.mem)
      rw [hcolumn, hcolumn', hlength]
    | malformed hmatches => exact absurd ⟨_, hruns⟩ hmatches.not_fails
  | malformed hmatches =>
    cases hother with
    | unparsable hruns' => exact absurd ⟨_, hruns'⟩ hmatches.not_fails
    | malformed => rfl

/-- **What is reported of a line is the verdict of the grammar.** -/
theorem Entry.verdict_report (number : Nat) (line : Text) : Verdict number line (report number line) := by
  obtain ⟨key, blanks, rest, hcut⟩ := exists_cut line
  by_cases hmisfit : Misfit key rest
  · obtain ⟨fault, hread, _, missed, place, hruns, hfurthest, hcolumn, hexpected⟩ := hcut.exists_fault hmisfit
    rw [report, hread]
    simp only [hexpected]
    exact .unparsable hruns hfurthest hcolumn
  · obtain ⟨hread, value?, hmatches, _⟩ := hcut.read_of_not_misfit hmisfit
    rw [report, hread]
    exact .malformed hmatches

theorem Entry.verdict_iff {number : Nat} {line : Text} {problem : Problem} :
    Verdict number line problem ↔ problem = report number line :=
  ⟨fun h => h.unique (verdict_report number line), fun h => h ▸ verdict_report number line⟩

namespace Block

/-- **A line of a block has a problem exactly if its item is malformed.** -/
theorem readLine?_eq (dialect : Dialect) (subject : Subject) (number : Nat) (line : Text) :
    readLine? dialect subject number line = (item? dialect subject line).map fun item =>
      (item, if item.isMalformed then some (Entry.report number (trim line)) else none) := by
  simp only [item?, readLine?, Entry.report]
  split
  · rfl
  · cases Entry.read (trim line) with
    | error fault => rfl
    | ok entry => simp [Function.comp_def]

theorem eq_malformed_of_item? {dialect : Dialect} {subject : Subject} {line : Text} {item : Item}
    (h : item? dialect subject line = some item) (hform : item.isMalformed = true) : item = .malformed (trim line) := by
  simp only [item?, readLine?] at h
  split at h
  · cases h
  · split at h
    · cases h
      rfl
    · simp only [Option.map_map, Function.comp_def, Option.map_id'] at h
      exact Entry.eq_malformed_of_item? h hform

section Line

variable (dialect : Dialect) (subject : Subject) {line : Text} (hne : trim line ≠ [])
  (hcomment : (trim line).head? ≠ some '#')

include hne hcomment

theorem isSilent_trim : Line.isSilent (trim line) = false := by
  simp [Line.isSilent, trim_trim, hne, hcomment]

/-- A line that is no entry is kept as it is written. -/
theorem item?_of_error {fault : Entry.Fault} (hread : Entry.read (trim line) = .error fault) :
    item? dialect subject line = some (.malformed (trim line)) := by
  simp [item?, readLine?, isSilent_trim hne hcomment, hread]

theorem item?_of_ok {entry : Entry} (hread : Entry.read (trim line) = .ok entry) :
    item? dialect subject line = entry.item? dialect subject (trim line) := by
  simp [item?, readLine?, isSilent_trim hne hcomment, hread, Function.comp_def]

end Line

theorem readBody_cons_eq (dialect : Dialect) (subject : Subject) (number : Nat) (line : Text) (body : List Text) :
    readBody dialect subject number (line :: body) =
      (readLine? dialect subject number line).toList ++ readBody dialect subject (number + 1) body := by
  rw [readBody, List.zipIdx_cons, List.filterMap_cons, readBody]
  cases hline : readLine? dialect subject number line <;> simp [hline]

theorem faults_cons (dialect : Dialect) (subject : Subject) (number : Nat) (line : Text) (body : List Text) :
    faults dialect subject number (line :: body) =
      (if (item? dialect subject line).any Item.isMalformed then [(line, number)] else []) ++
        faults dialect subject (number + 1) body := by
  rw [faults, List.zipIdx_cons, List.filter_cons, faults]
  split <;> rfl

/-- A line of a body is among the faulty ones, at its number, if its item is malformed. -/
theorem mem_faults_iff {dialect : Dialect} {subject : Subject} {body : List Text} {index : Nat} {line : Text}
    (hline : body[index]? = some line) (number : Nat) :
    (line, number + index) ∈ faults dialect subject number body ↔
      (item? dialect subject line).any Item.isMalformed = true := by
  refine List.mem_filter.trans (and_iff_right (List.mk_mem_zipIdx_iff_le_and_getElem?_sub.mpr ⟨by omega, ?_⟩))
  rwa [Nat.add_sub_cancel_left]

/-- A line of a body that is no entry by the grammar is faulty. -/
theorem mem_faults_of_fails {dialect : Dialect} {subject : Subject} {body : List Text} {index : Nat} {line : Text}
    (hline : body[index]? = some line) (hne : trim line ≠ []) (hcomment : (trim line).head? ≠ some '#')
    (hfails : Grammar.Fails Grammar.blockEntry (trim line)) (number : Nat) :
    (line, number + index) ∈ faults dialect subject number body := by
  obtain ⟨fault, hread⟩ := (Entry.exists_error_iff _).mpr hfails
  rw [mem_faults_iff hline, item?_of_error dialect subject hne hcomment hread]
  rfl

/-- The malformed items of a body are its faulty lines as they are written. -/
theorem filter_isMalformed_eq (dialect : Dialect) (subject : Subject) (number : Nat) (body : List Text) :
    (body.filterMap (item? dialect subject)).filter Item.isMalformed =
      (faults dialect subject number body).map fun entry => .malformed (trim entry.1) := by
  induction body generalizing number with
  | nil => rfl
  | cons line body ih =>
    rw [faults_cons, List.map_append, ← ih (number + 1)]
    cases hitem : item? dialect subject line with
    | none => simp [hitem]
    | some item =>
      cases hform : item.isMalformed with
      | true => simp [hitem, hform, ← eq_malformed_of_item? hitem hform]
      | false => simp [hitem, hform]

/-- The problems of a body are those of its faulty lines. -/
theorem filterMap_snd_readBody (dialect : Dialect) (subject : Subject) (number : Nat) (body : List Text) :
    (readBody dialect subject number body).filterMap Prod.snd =
      (faults dialect subject number body).map fun entry => Entry.report entry.2 (trim entry.1) := by
  induction body generalizing number with
  | nil => rfl
  | cons line body ih =>
    rw [readBody_cons_eq, faults_cons, List.filterMap_append, List.map_append, ih, readLine?_eq]
    cases hitem : item? dialect subject line with
    | none => rfl
    | some item => cases hform : item.isMalformed <;> simp [hform]

end Block

/-! ## Nodes -/

namespace Document

/-- **Each node reports its own problems.** -/
theorem problems_eq_report {options : Options} {start : Nat} {lines : List Text} {node : Node}
    (h : node ∈ readNodes options start lines) : node.problems = node.content.report options node.start := by
  rcases mem_readNodes h with ⟨index, line, ho, rfl⟩ | ⟨index, line, subject, ho, rfl⟩ |
    ⟨subject, index, opening, body, closing, _, rfl⟩
  · rw [Node.ofLine]
    cases Line.read? options.dialect line with
    | none => simp [Content.report, ho]
    | some rule => rfl
  · simp [Node.ofUnterminated, Content.report, ho]
  · rw [Node.content_ofBlock]
    exact Block.filterMap_snd_readBody options.dialect subject (index + 2) body

/-- The malformed items of a block come from the lines of its body. -/
theorem malformed_eq_faults {options : Options} {start : Nat} {lines : List Text} {node : Node}
    (h : node ∈ readNodes options start lines) {rule : Rule} {opening closing : Text} {body : List Text}
    (hcontent : node.content = .blockRule rule opening body closing) (number : Nat) :
    rule.malformed = (Block.faults options.dialect rule.subject number body).map fun entry =>
      .malformed (trim entry.1) := by
  rcases mem_readNodes h with ⟨index, line, _, rfl⟩ | ⟨index, line, subject, _, rfl⟩ |
    ⟨subject, index, first, inner, last, _, rfl⟩
  · rw [Node.content_ofLine, Content.ofLine] at hcontent
    split at hcontent <;> cases hcontent
  · cases hcontent
  · rw [Node.content_ofBlock] at hcontent
    cases hcontent
    exact Block.filter_isMalformed_eq options.dialect subject number body

/-- A node has as many problems as malformed items, and one more if it leaves a block open. -/
theorem length_problems {options : Options} {start : Nat} {lines : List Text} {node : Node}
    (h : node ∈ readNodes options start lines) :
    node.problems.length = (node.content.rule?.map fun rule => rule.malformed.length).getD 0 +
      if node.content.leavesOpen options then 1 else 0 := by
  rw [problems_eq_report h]
  cases hcontent : node.content with
  | verbatim line =>
    simp only [Content.report, Content.rule?, Content.leavesOpen, Option.map_none, Option.getD_none, Nat.zero_add]
    by_cases hopen : (opening? options line).isSome <;> simp [hopen]
  | lineRule rule line => simp [Content.report, Content.rule?, Content.leavesOpen]
  | blockRule rule opening body closing =>
    have hmalformed := malformed_eq_faults h hcontent (node.start + 2)
    simp [Content.report, Content.rule?, Content.leavesOpen, hmalformed]

theorem length_flatMap_problems {options : Options} {nodes : List Node}
    (h : ∀ node ∈ nodes, node.problems.length = (node.content.rule?.map fun rule => rule.malformed.length).getD 0 +
      if node.content.leavesOpen options then 1 else 0) :
    (nodes.flatMap Node.problems).length =
      ((nodes.filterMap fun node => node.content.rule?).flatMap Rule.malformed).length +
        nodes.countP fun node => node.content.leavesOpen options := by
  induction nodes with
  | nil => rfl
  | cons node nodes ih =>
    have hnode := h node List.mem_cons_self
    have hrest := ih fun other ho => h other (List.mem_cons_of_mem _ ho)
    rw [List.flatMap_cons, List.length_append, hnode, hrest, List.countP_cons]
    cases hrule : node.content.rule? with
    | none =>
      simp only [List.filterMap_cons, hrule, Option.map_none, Option.getD_none]
      omega
    | some rule =>
      simp only [List.filterMap_cons, hrule, List.flatMap_cons, List.length_append, Option.map_some, Option.getD_some]
      omega

end Document

/-! ## Numbers of lines -/

/-- The problems lie on lines behind the number `low` and up to the number `high`, none before the one before it. -/
def Problem.Numbered (problems : List Problem) (low high : Nat) : Prop :=
  ∃ numbers : List Nat, problems.map Problem.line? = numbers.map some ∧ numbers.Pairwise (· ≤ ·) ∧
    ∀ number ∈ numbers, low < number ∧ number ≤ high

namespace Problem

theorem numbered_nil (low high : Nat) : Numbered [] low high := ⟨[], rfl, .nil, nofun⟩

/-- Problems behind others lie on later lines. -/
theorem Numbered.append {problems others : List Problem} {low middle high : Nat} (h : Numbered problems low middle)
    (hothers : Numbered others middle high) (hlow : low ≤ middle) (hhigh : middle ≤ high) :
    Numbered (problems ++ others) low high := by
  obtain ⟨numbers, hlines, hsorted, hin⟩ := h
  obtain ⟨more, hmore, hmoreSorted, hmoreIn⟩ := hothers
  refine ⟨numbers ++ more, by rw [List.map_append, List.map_append, hlines, hmore], ?_, fun number hn => ?_⟩
  · refine List.pairwise_append.mpr ⟨hsorted, hmoreSorted, fun a ha b hb => ?_⟩
    have := (hin a ha).2
    have := (hmoreIn b hb).1
    omega
  · rcases List.mem_append.mp hn with hn | hn
    · have := hin number hn
      omega
    · have := hmoreIn number hn
      omega

end Problem

namespace Block

/-- The numbers of the faulty lines are different and grow. -/
theorem pairwise_faults (dialect : Dialect) (subject : Subject) (number : Nat) (body : List Text) :
    ((faults dialect subject number body).map Prod.snd).Pairwise (· < ·) := by
  have hsublist : ((faults dialect subject number body).map Prod.snd).Sublist ((body.zipIdx number).map Prod.snd) :=
    List.filter_sublist.map Prod.snd
  rw [List.zipIdx_map_snd] at hsublist
  exact List.Pairwise.sublist hsublist List.pairwise_lt_range'

/-- A faulty line stands in the body at its number. -/
theorem getElem?_of_mem_faults {dialect : Dialect} {subject : Subject} {number : Nat} {body : List Text}
    {entry : Text × Nat} (h : entry ∈ faults dialect subject number body) :
    ∃ i, entry.2 = number + i ∧ body[i]? = some entry.1 := by
  obtain ⟨hle, hget⟩ := List.mk_mem_zipIdx_iff_le_and_getElem?_sub.mp (List.mem_filter.mp h).1
  exact ⟨entry.2 - number, by omega, hget⟩

end Block

theorem Entry.line?_report (number : Nat) (line : Text) : (report number line).line? = some number := by
  unfold report
  split <;> rfl

namespace Document

/-- The problems of a node lie on its lines. -/
theorem numbered_problems {options : Options} {start : Nat} {lines : List Text} {node : Node}
    (h : node ∈ readNodes options start lines) : Problem.Numbered node.problems node.start node.stop := by
  rw [problems_eq_report h]
  obtain ⟨start, content, problems⟩ := node
  have hsame : ∀ numbers : List Nat, (∀ number ∈ numbers, number = start + 1) → numbers.Pairwise (· ≤ ·) := by
    intro numbers hall
    refine List.pairwise_of_forall_mem_list fun a ha b hb => ?_
    exact Nat.le_of_eq ((hall a ha).trans (hall b hb).symm)
  cases content with
  | verbatim line =>
    simp only [Content.report]
    split
    · exact ⟨[start + 1], rfl, hsame _ (by simp), by simp [Node.stop, Node.lines, Content.lines]⟩
    · exact Problem.numbered_nil _ _
  | lineRule rule line =>
    refine ⟨rule.malformed.map fun _ => start + 1, ?_, hsame _ (by simp), ?_⟩
    · rw [Content.report, List.map_map, List.map_map]
      rfl
    · simp [Node.stop, Node.lines, Content.lines]
  | blockRule rule opening body closing =>
    refine ⟨(Block.faults options.dialect rule.subject (start + 2) body).map Prod.snd, ?_, ?_, fun number hn => ?_⟩
    · simp [Content.report, Entry.line?_report]
    · exact (Block.pairwise_faults ..).imp Nat.le_of_lt
    · obtain ⟨entry, he, rfl⟩ := List.mem_map.mp hn
      obtain ⟨i, hi, hget⟩ := Block.getElem?_of_mem_faults he
      obtain ⟨hlength, _⟩ := List.getElem?_eq_some_iff.mp hget
      simp only [Node.stop, Node.lines, Content.lines, List.length_append, List.length_cons, List.length_nil]
      omega

/-- **The numbers of the problems never decrease**, and are numbers of lines. -/
theorem numbered_readNodes {options : Options} {start : Nat} {lines : List Text} {nodes : List Node}
    (h : readNodes options start lines = nodes) :
    Problem.Numbered (nodes.flatMap Node.problems) start (start + lines.length) := by
  induction nodes generalizing start lines with
  | nil => exact Problem.numbered_nil _ _
  | cons node after ih =>
    cases lines with
    | nil => simp [readNodes] at h
    | cons line rest =>
      have hnode := numbered_problems (h ▸ List.mem_cons_self : node ∈ readNodes options start (line :: rest))
      obtain ⟨hstart, others, hlines, hothers⟩ := readNodes_cons_lines h
      have hrest := ih hothers
      rw [Node.stop, hstart] at hnode
      rw [List.flatMap_cons, hlines, List.length_append, ← Nat.add_assoc]
      exact hnode.append hrest (by omega) (by omega)

/-- The items of a block are those of its lines, in order. -/
theorem items_eq_filterMap {options : Options} {start : Nat} {lines : List Text} {node : Node}
    (h : node ∈ readNodes options start lines) {rule : Rule} {opening closing : Text} {body : List Text}
    (hcontent : node.content = .blockRule rule opening body closing) :
    rule.items = body.filterMap (Block.item? options.dialect rule.subject) := by
  rcases mem_readNodes h with ⟨index, line, _, rfl⟩ | ⟨index, line, subject, _, rfl⟩ |
    ⟨subject, index, first, inner, last, _, rfl⟩
  · rw [Node.content_ofLine, Content.ofLine] at hcontent
    split at hcontent <;> cases hcontent
  · cases hcontent
  · rw [Node.content_ofBlock] at hcontent
    cases hcontent
    rfl

/-- A line of the body of a block stands in the text behind the opening. -/
theorem getElem?_body {options : Options} {lines : List Text} {node : Node} (h : node ∈ readNodes options 0 lines)
    {rule : Rule} {opening closing line : Text} {body : List Text} {i : Nat}
    (hcontent : node.content = .blockRule rule opening body closing) (hline : body[i]? = some line) :
    lines[node.start + 1 + i]? = some line := by
  obtain ⟨hlength, hget⟩ := List.getElem?_eq_some_iff.mp hline
  have hlines : node.lines = opening :: body ++ [closing] := by rw [Node.lines, hcontent, Content.lines]
  have hin : i + 1 < node.lines.length := by simp [hlines]; omega
  rw [Nat.add_assoc, Nat.add_comm 1 i, getElem?_start_add h (i + 1) hin]
  simp [hlines, List.getElem_append_left hlength, hget]

/-- A faulty line of a block stands in the text at its number, between the opening and the closing line. -/
theorem getElem?_of_mem_faults {options : Options} {lines : List Text} {node : Node}
    (h : node ∈ readNodes options 0 lines) {rule : Rule} {opening closing : Text} {body : List Text}
    (hcontent : node.content = .blockRule rule opening body closing) {entry : Text × Nat}
    (hentry : entry ∈ Block.faults options.dialect rule.subject (node.start + 2) body) :
    node.start + 1 < entry.2 ∧ entry.2 < node.stop ∧ lines[entry.2 - 1]? = some entry.1 := by
  obtain ⟨i, hi, hget⟩ := Block.getElem?_of_mem_faults hentry
  obtain ⟨hlength, _⟩ := List.getElem?_eq_some_iff.mp hget
  have hlines : node.lines = opening :: body ++ [closing] := by rw [Node.lines, hcontent, Content.lines]
  refine ⟨by omega, by simp [Node.stop, hlines]; omega, ?_⟩
  rw [show entry.2 - 1 = node.start + 1 + i by omega]
  exact getElem?_body h hcontent hget

/-- A kept line leaves a block open exactly if blocks are read and it opens one that closes nowhere. -/
theorem leavesOpen_iff {options : Options} {lines : List Text} {node : Node} (h : node ∈ readNodes options 0 lines)
    {line : Text} (hcontent : node.content = .verbatim line) :
    node.content.leavesOpen options = true ↔ options.parseBlocks = true ∧
      (∃ subject, Block.opening? (trim line) = some subject) ∧ ∀ index, ¬Block.Closes lines node.start index := by
  rw [hcontent, Content.leavesOpen, opening?]
  constructor
  · intro hopen
    split at hopen
    · obtain ⟨subject, hopening⟩ := Option.isSome_iff_exists.mp hopen
      have hat : lines[node.start]? = some line := by
        have hget := getElem?_start_add h 0 (by simp [Node.lines, hcontent, Content.lines])
        simpa [Node.lines, hcontent, Content.lines] using hget
      obtain ⟨before, after, hnodes⟩ := List.append_of_mem h
      rcases opening_cases ‹_› hnodes hat hopening with ⟨_, hnowhere, _⟩ | ⟨rule, hrule, _⟩
      · exact ⟨‹_›, ⟨subject, hopening⟩, hnowhere⟩
      · rw [hcontent] at hrule
        cases hrule
    · cases hopen
  · rintro ⟨hblocks, ⟨subject, hopening⟩, _⟩
    rw [if_pos hblocks, hopening]
    rfl

/-! ## The report of a text -/

/-- **What is reported of a text.** -/
structure Reported (options : Options) (text : Text) : Prop where
  /-- The problems of a text are those of its nodes, one node after another. -/
  problems : (read options text).problems =
    (read options text).nodes.flatMap fun node => node.content.report options node.start
  /-- A kept line leaves a block open exactly if it opens one that closes nowhere. -/
  leftOpen : ∀ node ∈ (read options text).nodes, ∀ line, node.content = .verbatim line →
    (node.content.leavesOpen options = true ↔ options.parseBlocks = true ∧
      (∃ subject, Block.opening? (trim line) = some subject) ∧
      ∀ index, ¬Block.Closes (textLines text) node.start index)
  /-- The items of a block come from its lines in order. The malformed ones are the faulty lines as they are written,
  and the numbers of these lines grow and lie between the opening and the closing line. -/
  block : ∀ node ∈ (read options text).nodes, ∀ rule opening body closing,
    node.content = .blockRule rule opening body closing →
      rule.items = body.filterMap (Block.item? options.dialect rule.subject) ∧
      rule.malformed = (Block.faults options.dialect rule.subject (node.start + 2) body).map (fun entry =>
        .malformed (trim entry.1)) ∧
      ((Block.faults options.dialect rule.subject (node.start + 2) body).map Prod.snd).Pairwise (· < ·) ∧
      ∀ entry ∈ Block.faults options.dialect rule.subject (node.start + 2) body,
        node.start + 1 < entry.2 ∧ entry.2 < node.stop ∧ (textLines text)[entry.2 - 1]? = some entry.1
  /-- Whether a line of a block is unparsable is told by the grammar of entries: what is reported of a faulty line is its
  verdict on it and nothing else, and each line that is neither blank nor a comment and on which it fails is faulty. -/
  judged : ∀ node ∈ (read options text).nodes, ∀ rule opening body closing,
    node.content = .blockRule rule opening body closing →
      (∀ entry ∈ Block.faults options.dialect rule.subject (node.start + 2) body,
        ∀ problem, Entry.Verdict entry.2 (trim entry.1) problem ↔ problem = Entry.report entry.2 (trim entry.1)) ∧
      ∀ index line, body[index]? = some line → trim line ≠ [] → (trim line).head? ≠ some '#' →
        Grammar.Fails Grammar.blockEntry (trim line) →
          (line, node.start + 2 + index) ∈ Block.faults options.dialect rule.subject (node.start + 2) body
  /-- There is one problem for each malformed item and one for each block that is left open. -/
  count : (read options text).problems.length =
    ((read options text).rules.flatMap Rule.malformed).length +
      (read options text).nodes.countP fun node => node.content.leavesOpen options
  /-- Each problem has the number of a line, and these numbers never decrease. -/
  numbers : ∃ numbers : List Nat, (read options text).problems.map Problem.line? = numbers.map some ∧
    numbers.Pairwise (· ≤ ·) ∧ ∀ number ∈ numbers, 1 ≤ number ∧ number ≤ (textLines text).length
  /-- A strict conversion tells a single problem as it is. -/
  refusedOne : ∀ problem, options.strict = true → (read options text).problems = [problem] →
    convertStrictly options text = .error problem
  /-- A strict conversion tells several problems together. -/
  refusedSeveral : options.strict = true → 2 ≤ (read options text).problems.length →
    convertStrictly options text = .error (.several (read options text).problems)
  /-- Without problems, or if it need not be strict, a conversion succeeds. -/
  accepted : options.strict = false ∨ (read options text).problems = [] →
    convertStrictly options text = .ok (convert options text)

end Document

theorem Problem.combine_of_two_le {problems : List Problem} (h : 2 ≤ problems.length) :
    combine problems = several problems := by
  match problems, h with
  | first :: second :: others, _ => rfl

theorem convertStrictly_of_ne_nil {options : Options} {text : Text} (hstrict : options.strict = true)
    (h : (Document.read options text).problems ≠ []) :
    convertStrictly options text = .error (Problem.combine (Document.read options text).problems) :=
  if_pos ⟨hstrict, h⟩

/-- **The report of a text is complete and exact.** Its problems are, node after node, one for each malformed item and
one for each block that is left open. A line of a block that is neither blank nor a comment is unparsable exactly if the
grammar of entries fails on it. The problems have the numbers of their lines, which never decrease, and a strict
conversion fails with exactly these problems, if there are any. -/
theorem problems_reported (options : Options) (text : Text) : Document.Reported options text where
  problems := by
    simp only [Document.problems, List.flatMap_def]
    exact congrArg List.flatten (List.map_congr_left fun node hnode => Document.problems_eq_report hnode)
  leftOpen := fun node hnode line hcontent => Document.leavesOpen_iff hnode hcontent
  block := fun node hnode rule opening body closing hcontent =>
    ⟨Document.items_eq_filterMap hnode hcontent, Document.malformed_eq_faults hnode hcontent _,
      Block.pairwise_faults .., fun entry hentry => Document.getElem?_of_mem_faults hnode hcontent hentry⟩
  judged := fun node hnode rule opening body closing hcontent =>
    ⟨fun entry hentry problem => Entry.verdict_iff, fun index line hline hne hcomment hfails =>
      Block.mem_faults_of_fails hline hne hcomment hfails _⟩
  count := Document.length_flatMap_problems fun node hnode => Document.length_problems hnode
  numbers := by
    obtain ⟨numbers, hlines, hsorted, hin⟩ := Document.numbered_readNodes (Eq.refl (Document.read options text).nodes)
    refine ⟨numbers, hlines, hsorted, fun number hn => ⟨(hin number hn).1, ?_⟩⟩
    have hhigh := (hin number hn).2
    rwa [Nat.zero_add] at hhigh
  refusedOne := fun problem hstrict hone => by
    rw [convertStrictly_of_ne_nil hstrict (by simp [hone]), hone, Problem.combine_singleton]
  refusedSeveral := fun hstrict htwo => by
    have hne : (Document.read options text).problems ≠ [] := List.ne_nil_of_length_pos (by omega)
    rw [convertStrictly_of_ne_nil hstrict hne, Problem.combine_of_two_le htwo]
  accepted := fun h => by
    refine if_neg fun ⟨hstrict, hne⟩ => ?_
    rcases h with hloose | hnone
    · rw [hloose] at hstrict
      cases hstrict
    · exact hne hnone

end WindowRules

import WindowRules.Proofs.Reading.Nodes

/-!
# The nodes tile the lines

The nodes of a text cover the indices of its lines without a gap and without an overlap, and each node holds the lines
at its indices (`nodes_tile`). Which lines a block covers is told by their indices alone: it runs from its opening to
the first closing brace behind it, with no line between that ends like an opening (`Block.Closes`).

* `exists_readNodes_of_append` — the reader stands at the first line of each node, with the lines of the nodes before it
  behind. Proof: by induction on these nodes; each step of the reader drops the lines of one node.
* `Block.closes_iff` — the search for the end of a block finds the line at which the block closes.
-/

namespace WindowRules

open Text

/-! ## Where a block closes -/

namespace Block

/-- The block that is opened at one index is closed at the other: a brace stands alone on that line, and between the
two there is no such line and none that ends with an opening brace. -/
structure Closes (lines : List Text) (opening closing : Nat) : Prop where
  behind : opening < closing
  brace : ∃ line, lines[closing]? = some line ∧ trim line = ['}']
  between : ∀ index line, opening < index → index < closing → lines[index]? = some line →
    trim line ≠ ['}'] ∧ (trim line).getLast? ≠ some '{'

theorem isClosing_iff {line : Text} : isClosing line = true ↔ line = ['}'] := by simp [isClosing]

/-- A line leaves a block open if it neither closes it nor ends like an opening. -/
theorem leavesOpen_iff {line : Text} :
    isClosing line = false ∧ endsOpen line = false ↔ line ≠ ['}'] ∧ line.getLast? ≠ some '{' := by
  simp [isClosing, endsOpen]

/-- **The search finds the line at which the block closes**, as many lines behind the opening as the body is long. -/
theorem closes_iff {passed rest : List Text} {line : Text} {index : Nat} :
    Closes (passed ++ line :: rest) passed.length index ↔
      ∃ body closing after, close? rest = some (body, closing, after) ∧ index = passed.length + 1 + body.length := by
  -- a line behind the opening is a line of the rest
  have hrest : ∀ k, (passed ++ line :: rest)[passed.length + 1 + k]? = rest[k]? := by
    intro k
    rw [List.getElem?_append_right (by omega), show passed.length + 1 + k - passed.length = k + 1 by omega,
      List.getElem?_cons_succ]
  constructor
  · rintro ⟨hbehind, ⟨closing, hat, hbrace⟩, hbetween⟩
    obtain ⟨k, rfl⟩ := Nat.exists_eq_add_of_le (show passed.length + 1 ≤ index by omega)
    rw [hrest] at hat
    obtain ⟨hk, hget⟩ := List.getElem?_eq_some_iff.mp hat
    refine ⟨rest.take k, closing, rest.drop (k + 1), close?_eq_some_iff.mpr ⟨?_, isClosing_iff.mpr hbrace, fun other hm => ?_⟩, ?_⟩
    · rw [← hget, List.getElem_cons_drop, List.take_append_drop]
    · obtain ⟨i, hi, rfl⟩ := List.mem_iff_getElem.mp hm
      rw [List.length_take] at hi
      refine leavesOpen_iff.mpr (hbetween (passed.length + 1 + i) _ (by omega) (by omega) ?_)
      rw [hrest, List.getElem_take, List.getElem?_eq_getElem]
    · rw [List.length_take, Nat.min_eq_left (by omega)]
  · rintro ⟨body, closing, after, hclose, rfl⟩
    obtain ⟨rfl, hbrace, hbody⟩ := close?_eq_some_iff.mp hclose
    refine ⟨by omega, ⟨closing, ?_, isClosing_iff.mp hbrace⟩, fun index other hlow hhigh hat => ?_⟩
    · rw [hrest, List.getElem?_append_right (Nat.le_refl _), Nat.sub_self, List.getElem?_cons_zero]
    · obtain ⟨k, rfl⟩ := Nat.exists_eq_add_of_le (show passed.length + 1 ≤ index by omega)
      rw [hrest, List.getElem?_append_left (by omega)] at hat
      exact leavesOpen_iff.mp (hbody other (List.mem_of_getElem? hat))

theorem dropLabel_suffix (s : Text) : dropLabel s <:+ s := by
  unfold dropLabel
  split
  · next s =>
    cases hcut : cutAt? (· == ']') s with
    | none => exact List.suffix_rfl
    | some pieces =>
      obtain ⟨_, c, _, hs⟩ := cutAt?_eq_some_iff.mp hcut
      exact ⟨'[' :: pieces.1 ++ [c], by simp [hs]⟩
  · exact List.suffix_rfl

/-- A line that opens a block ends like an opening. -/
theorem endsOpen_of_opening? {line : Text} {subject : Subject} (h : opening? line = some subject) :
    endsOpen line = true := by
  simp only [opening?, Option.bind_eq_bind, Option.bind_eq_some_iff] at h
  obtain ⟨found, _, hbrace⟩ := h
  split at hbrace
  · next hrest =>
    have hsuffix : ['{'] <:+ line := by
      rw [← hrest]
      exact (List.dropWhile_suffix _).trans ((dropLabel_suffix _).trans ((List.dropWhile_suffix _).trans
        ((List.dropWhile_suffix _).trans (List.drop_suffix _ _))))
    obtain ⟨front, rfl⟩ := hsuffix
    simp [endsOpen]
  · cases hbrace

end Block

/-! ## Where a node stands -/

/-- The indices of the lines of the node. -/
def Node.indices (node : Node) : List Nat := List.range' node.start node.lines.length

theorem Node.start_ofLine (dialect : Dialect) (start : Nat) (line : Text) : (ofLine dialect start line).start = start := by
  rw [ofLine]
  split <;> rfl

namespace Document

theorem opening?_eq_some_iff {options : Options} {line : Text} {subject : Subject} :
    opening? options line = some subject ↔ options.parseBlocks = true ∧ Block.opening? (trim line) = some subject := by
  rw [opening?]
  split <;> simp_all

/-- A node at the first of some lines and nodes for the lines behind it have the indices of all these lines. -/
theorem flatMap_indices_cons {start : Nat} {node : Node} {nodes : List Node} {rest : List Text}
    (hstart : node.start = start)
    (h : nodes.flatMap Node.indices = List.range' (start + node.lines.length) rest.length) :
    (node :: nodes).flatMap Node.indices = List.range' start (node.lines ++ rest).length := by
  rw [List.flatMap_cons, h, Node.indices, hstart, List.length_append]
  exact List.range'_append_1

/-- The indices of the nodes, one after another, are the indices of the lines. -/
theorem flatMap_indices_readNodes (options : Options) (start : Nat) (lines : List Text) :
    (readNodes options start lines).flatMap Node.indices = List.range' start lines.length := by
  fun_induction readNodes options start lines with
  | case1 => rfl
  | case2 start line rest ho ih =>
    have hlines : line :: rest = (Node.ofLine options.dialect start line).lines ++ rest := by
      rw [Node.lines_ofLine]
      rfl
    rw [hlines]
    refine flatMap_indices_cons (Node.start_ofLine _ _ _) ?_
    rw [Node.lines_ofLine]
    exact ih
  | case3 start line rest subject ho hc ih =>
    have hlines : line :: rest = (Node.ofUnterminated start line).lines ++ rest := rfl
    rw [hlines]
    exact flatMap_indices_cons rfl ih
  | case4 start line rest subject ho body closing after hc ih =>
    have hlines : line :: rest = (Node.ofBlock options.dialect subject start line body closing).lines ++ after := by
      rw [Node.lines_ofBlock, Block.eq_of_close? hc]
      simp
    have hlength : (line :: body ++ [closing]).length = body.length + 2 := by simp
    rw [hlines]
    refine flatMap_indices_cons rfl ?_
    rw [Node.lines_ofBlock, hlength]
    exact ih

/-- **One step of the reader**: a line, an opening without an end, or a block, and the reader goes on behind it. -/
theorem readNodes_cons_cases {options : Options} {start : Nat} {line : Text} {rest : List Text} {node : Node}
    {after : List Node} (h : readNodes options start (line :: rest) = node :: after) :
    (opening? options line = none ∧ node = .ofLine options.dialect start line ∧
        readNodes options (start + 1) rest = after) ∨
      (∃ subject, opening? options line = some subject ∧ Block.close? rest = none ∧
        node = .ofUnterminated start line ∧ readNodes options (start + 1) rest = after) ∨
      ∃ subject body closing others, opening? options line = some subject ∧
        Block.close? rest = some (body, closing, others) ∧
        node = .ofBlock options.dialect subject start line body closing ∧
        readNodes options (start + (body.length + 2)) others = after := by
  cases ho : opening? options line with
  | none =>
    rw [readNodes_of_line ho] at h
    obtain ⟨rfl, hafter⟩ := List.cons.inj h
    exact Or.inl ⟨rfl, rfl, hafter⟩
  | some subject =>
    cases hc : Block.close? rest with
    | none =>
      rw [readNodes_of_unterminated ho hc] at h
      obtain ⟨rfl, hafter⟩ := List.cons.inj h
      exact Or.inr (Or.inl ⟨subject, rfl, rfl, rfl, hafter⟩)
    | some parts =>
      obtain ⟨body, closing, others⟩ := parts
      rw [readNodes_of_block ho hc] at h
      obtain ⟨rfl, hafter⟩ := List.cons.inj h
      exact Or.inr (Or.inr ⟨subject, body, closing, others, rfl, rfl, rfl, hafter⟩)

/-- The first node starts where the reader stands and has the first lines, and the reader goes on behind these. -/
theorem readNodes_cons_lines {options : Options} {start : Nat} {line : Text} {rest : List Text} {node : Node}
    {after : List Node} (h : readNodes options start (line :: rest) = node :: after) :
    node.start = start ∧ ∃ others, line :: rest = node.lines ++ others ∧
      readNodes options (start + node.lines.length) others = after := by
  rcases readNodes_cons_cases h with ⟨_, rfl, hafter⟩ | ⟨_, _, _, rfl, hafter⟩ |
    ⟨subject, body, closing, others, _, hc, rfl, hafter⟩
  · refine ⟨Node.start_ofLine _ _ _, rest, ?_, ?_⟩ <;> rw [Node.lines_ofLine]
    · rfl
    · exact hafter
  · exact ⟨rfl, rest, rfl, hafter⟩
  · refine ⟨rfl, others, ?_, ?_⟩ <;> rw [Node.lines_ofBlock]
    · rw [Block.eq_of_close? hc]
      simp
    · have hlength : (line :: body ++ [closing]).length = body.length + 2 := by simp
      rwa [hlength]

/-- **The reader stands at the first line of each node**, with the lines of the nodes before it behind. -/
theorem exists_readNodes_of_append {options : Options} {start : Nat} {lines : List Text} {before after : List Node}
    {node : Node} (h : readNodes options start lines = before ++ node :: after) :
    ∃ passed line rest, lines = passed ++ line :: rest ∧
      readNodes options (start + passed.length) (line :: rest) = node :: after := by
  induction before generalizing start lines with
  | nil =>
    cases lines with
    | nil => simp [readNodes] at h
    | cons line rest => exact ⟨[], line, rest, rfl, h⟩
  | cons first before ih =>
    cases lines with
    | nil => simp [readNodes] at h
    | cons line rest =>
      obtain ⟨_, others, hlines, hothers⟩ := readNodes_cons_lines h
      obtain ⟨passed, next, last, rfl, hread⟩ := ih hothers
      refine ⟨first.lines ++ passed, next, last, ?_, ?_⟩
      · rw [hlines, List.append_assoc]
      · rwa [List.length_append, ← Nat.add_assoc]

/-! ## The tiling -/

/-- **What the nodes of a text are, told by the indices of its lines.** -/
structure Tiled (options : Options) (lines : List Text) (nodes : List Node) : Prop where
  /-- Each index of a line is an index of one node, in order. -/
  covers : nodes.flatMap Node.indices = List.range lines.length
  /-- The lines of a node are found at its indices. -/
  inRange : ∀ node ∈ nodes, ∀ (i : Nat) (h : i < node.lines.length), lines[node.start + i]? = some node.lines[i]
  /-- A node that is no rule has one line. -/
  single : ∀ node ∈ nodes, node.content.rule? = none → node.lines.length = 1
  /-- A rule of more than one line stands between its opening and the line at which its block closes. -/
  block : ∀ node ∈ nodes, ∀ rule, node.content.rule? = some rule → 1 < node.lines.length →
    (∃ line, lines[node.start]? = some line ∧ Block.opening? (trim line) = some rule.subject) ∧
      Block.Closes lines node.start (node.stop - 1)
  /-- If blocks are read, a node at an opening is no rule exactly if the block closes nowhere, and then the next node
  starts at the next line; otherwise it is the rule up to the line at which the block closes. -/
  opening : options.parseBlocks = true → ∀ before node after, nodes = before ++ node :: after →
    ∀ line subject, lines[node.start]? = some line → Block.opening? (trim line) = some subject →
      (node.content.rule? = none ↔ ¬∃ index, Block.Closes lines node.start index) ∧
      (node.content.rule? = none → lines.length = node.start + 1 ∧ after = [] ∨
        ∃ next others, after = next :: others ∧ next.start = node.start + 1) ∧
      ∀ index, Block.Closes lines node.start index →
        (∃ rule, node.content.rule? = some rule ∧ rule.subject = subject) ∧ node.stop = index + 1

theorem getElem?_append_length {passed rest : List Text} {line : Text} :
    (passed ++ line :: rest)[passed.length]? = some line := by simp

/-- The reader of all lines stands at the first line of each of its nodes. -/
theorem exists_readNodes_of_mem {options : Options} {lines : List Text} {node : Node}
    (h : node ∈ readNodes options 0 lines) :
    ∃ passed line rest after, lines = passed ++ line :: rest ∧
      readNodes options passed.length (line :: rest) = node :: after := by
  obtain ⟨before, after, hnodes⟩ := List.append_of_mem h
  obtain ⟨passed, line, rest, hlines, hread⟩ := exists_readNodes_of_append hnodes
  rw [Nat.zero_add] at hread
  exact ⟨passed, line, rest, after, hlines, hread⟩

/-- A node holds the lines that stand at its indices. -/
theorem getElem?_start_add {options : Options} {lines : List Text} {node : Node} (h : node ∈ readNodes options 0 lines)
    (i : Nat) (hi : i < node.lines.length) : lines[node.start + i]? = some node.lines[i] := by
  obtain ⟨passed, line, rest, after, rfl, hread⟩ := exists_readNodes_of_mem h
  obtain ⟨hstart, others, hlines, _⟩ := readNodes_cons_lines hread
  rw [hstart, hlines, List.getElem?_append_right (by omega), Nat.add_sub_cancel_left, List.getElem?_append_left hi,
    List.getElem?_eq_getElem]

/-- A rule of more than one line is a block that closes at the last of them. -/
theorem closes_of_mem {options : Options} {lines : List Text} {node : Node} (h : node ∈ readNodes options 0 lines)
    {rule : Rule} (hrule : node.content.rule? = some rule) (hlong : 1 < node.lines.length) :
    (∃ line, lines[node.start]? = some line ∧ Block.opening? (trim line) = some rule.subject) ∧
      Block.Closes lines node.start (node.stop - 1) := by
  obtain ⟨passed, line, rest, after, rfl, hread⟩ := exists_readNodes_of_mem h
  rcases readNodes_cons_cases hread with ⟨_, rfl, _⟩ | ⟨_, _, _, rfl, _⟩ |
    ⟨subject, body, closing, others, ho, hc, rfl, _⟩
  · rw [Node.lines_ofLine] at hlong
    exact absurd hlong (Nat.lt_irrefl 1)
  · cases hrule
  · cases hrule
    refine ⟨⟨line, ?_, ?_⟩, ?_⟩
    · exact getElem?_append_length
    · simp only [opening?] at ho
      split at ho
      · exact ho
      · cases ho
    · refine Block.closes_iff.mpr ⟨body, closing, others, hc, ?_⟩
      simp [Node.stop, Node.ofBlock, Node.lines, Content.lines]
      omega

/-- If there are lines, the first node starts where the reader stands. -/
theorem exists_readNodes_cons (options : Options) (start : Nat) (line : Text) (rest : List Text) :
    ∃ node after, readNodes options start (line :: rest) = node :: after ∧ node.start = start := by
  cases hnodes : readNodes options start (line :: rest) with
  | nil =>
    have hlines := flatMap_lines_readNodes options start (line :: rest)
    rw [hnodes] at hlines
    cases hlines
  | cons node after => exact ⟨node, after, rfl, (readNodes_cons_lines hnodes).1⟩

section Opening

variable {options : Options} {lines : List Text} {before after : List Node} {node : Node} {line : Text}
  {subject : Subject} (hblocks : options.parseBlocks = true)
  (hnodes : readNodes options 0 lines = before ++ node :: after) (hat : lines[node.start]? = some line)
  (hopening : Block.opening? (trim line) = some subject)

include hblocks hnodes hat hopening

/-- **A node at an opening** is the line alone, if the block closes nowhere, or the rule up to the line at which it
closes. -/
theorem opening_cases :
    (node.content.rule? = none ∧ (∀ index, ¬Block.Closes lines node.start index) ∧
      (lines.length = node.start + 1 ∧ after = [] ∨
        ∃ next others, after = next :: others ∧ next.start = node.start + 1)) ∨
    ∃ rule, node.content.rule? = some rule ∧ rule.subject = subject ∧
      ∀ index, Block.Closes lines node.start index ↔ node.stop = index + 1 := by
  obtain ⟨passed, first, rest, rfl, hread⟩ := exists_readNodes_of_append hnodes
  rw [Nat.zero_add] at hread
  rw [(readNodes_cons_lines hread).1] at hat ⊢
  rw [getElem?_append_length] at hat
  cases hat
  have hopen : opening? options line = some subject := by rw [opening?, if_pos hblocks, hopening]
  rcases readNodes_cons_cases hread with ⟨hnone, _⟩ | ⟨other, _, hc, rfl, hafter⟩ |
    ⟨other, body, closing, others, ho, hc, rfl, _⟩
  · rw [hopen] at hnone
    cases hnone
  · refine Or.inl ⟨rfl, fun index hcloses => ?_, ?_⟩
    · obtain ⟨body, closing, others, hclose, _⟩ := Block.closes_iff.mp hcloses
      rw [hc] at hclose
      cases hclose
    · cases rest with
      | nil => exact Or.inl ⟨by simp, by rw [← hafter, readNodes]⟩
      | cons next rest =>
        obtain ⟨next, others, hnext, hstart⟩ := exists_readNodes_cons options (passed.length + 1) next rest
        exact Or.inr ⟨next, others, by rw [← hafter, hnext], hstart⟩
  · rw [hopen] at ho
    cases ho
    refine Or.inr ⟨_, rfl, rfl, fun index => ?_⟩
    have hstop : (Node.ofBlock options.dialect subject passed.length line body closing).stop =
        passed.length + 1 + body.length + 1 := by
      simp [Node.stop, Node.ofBlock, Node.lines, Content.lines]
      omega
    rw [Block.closes_iff, hstop]
    constructor
    · rintro ⟨body', closing', others', hclose, rfl⟩
      rw [hc] at hclose
      cases hclose
      rfl
    · intro hindex
      exact ⟨body, closing, others, hc, by omega⟩

end Opening

end Document

/-- **The nodes of a text tile its lines.** They cover the index of each line once and in order, and hold the lines at
their indices, so every line is found that a node asks for. A rule of more than one line runs from an opening to the
first closing brace behind it, with no line between that ends like an opening. Where blocks are read, a node at an
opening is a single line exactly if the block closes nowhere, and then the next line starts the next node. -/
theorem nodes_tile (options : Options) (text : Text) :
    Document.Tiled options (Document.textLines text) (Document.read options text).nodes where
  covers := by
    rw [List.range_eq_range']
    exact Document.flatMap_indices_readNodes options 0 (Document.textLines text)
  inRange := fun node hnode i hi => Document.getElem?_start_add hnode i hi
  single := fun node hnode hrule => by
    obtain ⟨start, content, problems⟩ := node
    cases content with
    | verbatim line => rfl
    | lineRule rule line => cases hrule
    | blockRule rule opening body closing => cases hrule
  block := fun node hnode rule hrule hlong => Document.closes_of_mem hnode hrule hlong
  opening := by
    intro hblocks before node after hnodes line subject hat hopening
    rcases Document.opening_cases hblocks hnodes hat hopening with ⟨hnone, hnowhere, hnext⟩ | ⟨rule, hrule, hsubject, hcloses⟩
    · refine ⟨⟨fun _ ⟨index, hindex⟩ => hnowhere index hindex, fun _ => hnone⟩, fun _ => hnext, fun index hindex => ?_⟩
      exact absurd hindex (hnowhere index)
    · refine ⟨⟨fun hnone => ?_, fun hnowhere => ?_⟩, fun hnone => ?_, fun index hindex => ?_⟩
      · rw [hrule] at hnone
        cases hnone
      · refine absurd ⟨node.stop - 1, (hcloses _).mpr ?_⟩ hnowhere
        have hne := node.content.lines_ne_nil
        have hpos : 0 < node.lines.length := List.length_pos_iff.mpr hne
        rw [Node.stop]
        omega
      · rw [hrule] at hnone
        cases hnone
      · exact ⟨⟨rule, hrule, hsubject⟩, (hcloses index).mp hindex⟩

end WindowRules

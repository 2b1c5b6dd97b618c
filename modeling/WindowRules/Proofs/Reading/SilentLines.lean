import WindowRules.Proofs.Reading.Joined
import WindowRules.Proofs.Reading.OneLine
import WindowRules.Proofs.Reading.Problems

/-!
# Silent lines in a block

A blank line or a comment between the lines of a block gives no item and no problem. So a text with one more of them
there has the same rules, and what lies behind that line lies one line further down (`IgnoresLine`). But the search for
the end of a block looks at every line: it stops at a comment that ends with an opening brace, and then the opening is
kept as a block without an end (`silent_line_in_block`).

* `Document.readNodes_append_of_endsOpen` — the lines in front of an opening are read on their own, whatever comes
  behind it. Proof: by induction over the reader; no search for the end of a block comes past a line that ends like an
  opening.
* `Node.problems_ofBlock_insert` — the problems of a block with one more silent line. The problems of the lines before it
  and behind it are told apart by their numbers, so both are moved by one function (`Problem.moved`).
* `Document.exists_block_at` — a block of a document, cut out of the lines of its text.
-/

namespace WindowRules

open Text

/-! ## Problems behind a line -/

/-- The problem in a text with one more line at the index: it lies one line further down, unless it lies before that
line. -/
def Problem.moved (index : Nat) (problem : Problem) : Problem :=
  if problem.line?.any (index < ·) then problem.shifted 1 else problem

namespace Problem

theorem Numbered.exists_line {problems : List Problem} {low high : Nat} (h : Numbered problems low high)
    {problem : Problem} (hm : problem ∈ problems) : ∃ number, problem.line? = some number ∧ low < number ∧ number ≤ high := by
  obtain ⟨numbers, hlines, _, hin⟩ := h
  have hline : problem.line? ∈ problems.map line? := List.mem_map_of_mem hm
  rw [hlines] at hline
  obtain ⟨number, hn, heq⟩ := List.mem_map.mp hline
  exact ⟨number, heq.symm, hin number hn⟩

theorem Numbered.mono {problems : List Problem} {low high low' high' : Nat} (h : Numbered problems low high)
    (hlow : low' ≤ low) (hhigh : high ≤ high') : Numbered problems low' high' := by
  obtain ⟨numbers, hlines, hsorted, hin⟩ := h
  refine ⟨numbers, hlines, hsorted, fun number hn => ?_⟩
  obtain ⟨hlt, hle⟩ := hin number hn
  exact ⟨by omega, by omega⟩

/-- Problems before the line stay where they are. -/
theorem Numbered.map_moved_eq_self {problems : List Problem} {low high index : Nat} (h : Numbered problems low high)
    (hindex : high ≤ index) : problems.map (moved index) = problems := by
  refine (List.map_congr_left fun problem hm => ?_).trans (List.map_id problems)
  obtain ⟨number, hline, _, hle⟩ := h.exists_line hm
  have hbefore : ¬index < number := by omega
  simp [moved, hline, hbefore]

/-- Problems behind the line are moved. -/
theorem Numbered.map_moved_eq_shifted {problems : List Problem} {low high index : Nat} (h : Numbered problems low high)
    (hindex : index ≤ low) : problems.map (moved index) = problems.map (shifted 1) := by
  refine List.map_congr_left fun problem hm => ?_
  obtain ⟨number, hline, hlt, _⟩ := h.exists_line hm
  have hbehind : index < number := by omega
  simp [moved, hline, hbehind]

end Problem

/-! ## A silent line among the lines of a block -/

theorem Line.isSilent_trim (line : Text) : isSilent (trim line) = isSilent line := by rw [isSilent, trim_trim, isSilent]

namespace Block

variable {dialect : Dialect} {subject : Subject} {line : Text}

/-- A silent line closes no block. -/
theorem isClosing_of_isSilent (h : Line.isSilent line = true) : isClosing (trim line) = false := by
  rw [Line.isSilent, Bool.or_eq_true, beq_iff_eq, beq_iff_eq] at h
  rw [isClosing, beq_eq_false_iff_ne]
  rintro hbrace
  rw [hbrace] at h
  rcases h with h | h <;> cases h

theorem readLine?_of_isSilent (h : Line.isSilent line = true) (number : Nat) :
    readLine? dialect subject number line = none := by
  simp [readLine?, Line.isSilent_trim, h]

theorem readBody_append (dialect : Dialect) (subject : Subject) (number : Nat) (front back : List Text) :
    readBody dialect subject number (front ++ back) =
      readBody dialect subject number front ++ readBody dialect subject (number + front.length) back := by
  rw [readBody, List.zipIdx_append, List.filterMap_append]
  rfl

/-- **A silent line among the lines of a body only counts**: the lines behind it are read one line further down. -/
theorem readBody_insert (h : Line.isSilent line = true) (number : Nat) (front back : List Text) :
    readBody dialect subject number (front ++ line :: back) =
      readBody dialect subject number front ++
        (readBody dialect subject (number + front.length) back).map (Prod.map id (Option.map (Problem.shifted 1))) := by
  rw [readBody_append, readBody_cons_eq, readLine?_of_isSilent h, Option.toList_none, List.nil_append, readBody_add]

/-- The problems of a body lie on its lines. -/
theorem numbered_readBody (dialect : Dialect) (subject : Subject) (number : Nat) (body : List Text) :
    Problem.Numbered ((readBody dialect subject (number + 1) body).filterMap Prod.snd) number (number + body.length) := by
  rw [filterMap_snd_readBody]
  refine ⟨(faults dialect subject (number + 1) body).map Prod.snd, ?_, ?_, fun n hn => ?_⟩
  · simp [Entry.line?_report]
  · exact (pairwise_faults ..).imp Nat.le_of_lt
  · obtain ⟨entry, he, rfl⟩ := List.mem_map.mp hn
    obtain ⟨i, hi, hget⟩ := getElem?_of_mem_faults he
    obtain ⟨hlength, _⟩ := List.getElem?_eq_some_iff.mp hget
    omega

end Block

namespace Node

variable {dialect : Dialect} {subject : Subject} {opening closing line : Text} {front back : List Text}

theorem problems_ofBlock_insert (h : Line.isSilent line = true) {start index : Nat}
    (hindex : index = start + 1 + front.length) :
    (ofBlock dialect subject start opening (front ++ line :: back) closing).problems =
      (ofBlock dialect subject start opening (front ++ back) closing).problems.map (Problem.moved index) := by
  subst hindex
  have hfront := Block.numbered_readBody dialect subject (start + 1) front
  have hback := Block.numbered_readBody dialect subject (start + 1 + front.length) back
  have hnumber : start + 2 + front.length = start + 1 + front.length + 1 := by omega
  simp only [ofBlock, Block.readBody_insert h, Block.readBody_append, List.filterMap_append, List.map_append, hnumber]
  rw [hfront.map_moved_eq_self (Nat.le_refl _), hback.map_moved_eq_shifted (Nat.le_refl _), List.filterMap_map,
    List.map_filterMap]
  rfl

theorem rule?_ofBlock_insert (h : Line.isSilent line = true) (start : Nat) :
    (ofBlock dialect subject start opening (front ++ line :: back) closing).content.rule? =
      (ofBlock dialect subject start opening (front ++ back) closing).content.rule? := by
  have hnothing : Block.item? dialect subject line = none := by rw [Block.item?, Block.readLine?_of_isSilent h]; rfl
  rw [content_ofBlock, content_ofBlock]
  simp [Content.rule?, hnothing]

theorem stop_ofBlock (start : Nat) (body : List Text) :
    (ofBlock dialect subject start opening body closing).stop = start + (body.length + 2) := by
  rw [stop, lines_ofBlock]
  simp [ofBlock]

end Node

/-! ## The lines in front of an opening -/

namespace Block

theorem isClosing_of_endsOpen {line : Text} (h : endsOpen line = true) : isClosing line = false := by
  rw [isClosing, beq_eq_false_iff_ne]
  rintro rfl
  cases h

/-- No search for the end of a block comes past a line that ends like an opening. -/
theorem close?_append_eq_none {opening : Text} (h : endsOpen (trim opening) = true) {lines : List Text}
    (hlines : close? lines = none) (rest : List Text) : close? (lines ++ opening :: rest) = none := by
  induction lines with
  | nil => exact close?_cons_eq_none_iff.mpr ⟨isClosing_of_endsOpen h, Or.inl h⟩
  | cons line lines ih =>
    obtain ⟨hclosing, hend⟩ := close?_cons_eq_none_iff.mp hlines
    exact close?_cons_eq_none_iff.mpr ⟨hclosing, hend.imp id ih⟩

end Block

namespace Document

/-- **The lines in front of an opening are read on their own**, whatever comes behind it. -/
theorem readNodes_append_of_endsOpen (options : Options) {opening : Text} (h : Block.endsOpen (trim opening) = true)
    (start : Nat) (lines rest : List Text) : readNodes options start (lines ++ opening :: rest) =
      readNodes options start lines ++ readNodes options (start + lines.length) (opening :: rest) := by
  fun_induction readNodes options start lines with
  | case1 => rfl
  | case2 start line lines ho ih =>
    rw [List.cons_append, readNodes_of_line ho, ih, List.cons_append, List.length_cons, Nat.add_right_comm, Nat.add_assoc]
  | case3 start line lines subject ho hc ih =>
    rw [List.cons_append, readNodes_of_unterminated ho (Block.close?_append_eq_none h hc rest), ih, List.cons_append,
      List.length_cons, Nat.add_right_comm, Nat.add_assoc]
  | case4 start line lines subject ho body closing after hc ih =>
    have hlength : start + (line :: lines).length = start + (body.length + 2) + after.length := by
      rw [Block.eq_of_close? hc, List.length_cons, List.length_append, List.length_cons]
      omega
    rw [List.cons_append, readNodes_of_block ho (Block.close?_append hc _), ih, List.cons_append, hlength]

/-- **A block of a document, cut out of the lines of its text**, with the lines in front of it and behind it. -/
theorem exists_block_at {options : Options} {lines : List Text} {before after : List Node} {node : Node} {rule : Rule}
    {opening closing : Text} {body : List Text} (hnodes : readNodes options 0 lines = before ++ node :: after)
    (hcontent : node.content = .blockRule rule opening body closing) :
    ∃ passed others, lines = passed ++ opening :: (body ++ closing :: others) ∧
      opening? options opening = some rule.subject ∧
      Block.close? (body ++ closing :: others) = some (body, closing, others) ∧
      node = .ofBlock options.dialect rule.subject passed.length opening body closing ∧
      readNodes options 0 passed = before ∧ readNodes options (passed.length + (body.length + 2)) others = after := by
  obtain ⟨passed, first, rest, rfl, hread⟩ := exists_readNodes_of_append hnodes
  rw [Nat.zero_add] at hread
  rcases readNodes_cons_cases hread with ⟨_, rfl, _⟩ | ⟨_, _, _, rfl, _⟩ |
    ⟨subject, inner, last, others, ho, hc, rfl, hafter⟩
  · rw [Node.content_ofLine, Content.ofLine] at hcontent
    split at hcontent <;> cases hcontent
  · cases hcontent
  · cases hcontent
    have hends := Block.endsOpen_of_opening? (opening?_eq_some_iff.mp ho).2
    rw [readNodes_append_of_endsOpen options hends, Nat.zero_add, hread] at hnodes
    refine ⟨passed, others, by rw [Block.eq_of_close? hc], ho, ?_, rfl, List.append_cancel_right hnodes, hafter⟩
    rw [← Block.eq_of_close? hc, hc]

/-! ## One more line in a text -/

/-- The text with one more line, at the index. -/
def insertLine (text : Text) (index : Nat) (line : Text) : Text :=
  ['\n'].intercalate ((textLines text).insertIdx index line)

theorem insertIdx_append (front back : List Text) (line : Text) :
    (front ++ back).insertIdx front.length line = front ++ line :: back := by
  induction front with
  | nil => rfl
  | cons first front ih => rw [List.cons_append, List.length_cons, List.insertIdx_succ_cons, ih, List.cons_append]

theorem textLines_insertLine {text line : Text} {front back : List Text} (htext : textLines text = front ++ back)
    (hline : OneLine line) : textLines (insertLine text front.length line) = front ++ line :: back := by
  have hlines : ∀ other ∈ front ++ line :: back, OneLine other := by
    intro other hm
    rcases List.mem_append.mp hm with hm | hm
    · exact oneLine_of_mem_textLines (htext ▸ List.mem_append_left _ hm)
    · rcases List.mem_cons.mp hm with rfl | hm
      · exact hline
      · exact oneLine_of_mem_textLines (htext ▸ List.mem_append_right _ hm)
  rw [insertLine, htext, insertIdx_append, textLines, List.splitOn_intercalate '\n' hlines (by simp)]

/-- **A line that is inserted into a block is ignored**, where the nodes of the text are those before the block, the node
of the block and those after it. -/
structure IgnoresLine (options : Options) (text : Text) (index : Nat) (line : Text) (before : List Node) (node : Node)
    (after : List Node) : Prop where
  /-- The block has the same rule and one more line, and the nodes after it stand one line further down. -/
  nodes : ∃ longer : Node, (read options (insertLine text index line)).nodes =
      before ++ longer :: after.map (Node.shifted 1) ∧
    longer.start = node.start ∧ longer.stop = node.stop + 1 ∧ longer.content.rule? = node.content.rule?
  /-- The rules are the same. -/
  rules : (read options (insertLine text index line)).rules = (read options text).rules
  /-- The problems behind the line lie one line further down, and the others where they were. -/
  problems : (read options (insertLine text index line)).problems =
    (read options text).problems.map (Problem.moved index)

/-- The rules and the problems are told by the nodes. -/
theorem ignoresLine_of_nodes {options : Options} {text line : Text} {index : Nat} {before after : List Node}
    {node longer : Node} (hnodes : (read options text).nodes = before ++ node :: after)
    (hmore : (read options (insertLine text index line)).nodes = before ++ longer :: after.map (Node.shifted 1))
    (hstart : longer.start = node.start) (hstop : longer.stop = node.stop + 1)
    (hrule : longer.content.rule? = node.content.rule?)
    (hproblems : longer.problems = node.problems.map (Problem.moved index))
    (hbefore : Problem.Numbered (before.flatMap Node.problems) 0 index)
    {high : Nat} (hafter : Problem.Numbered (after.flatMap Node.problems) index high) :
    IgnoresLine options text index line before node after where
  nodes := ⟨longer, hmore, hstart, hstop, hrule⟩
  rules := by
    rw [rules, rules, hnodes, hmore, List.filterMap_append, List.filterMap_append, List.filterMap_cons,
      List.filterMap_cons, hrule, List.filterMap_map]
    rfl
  problems := by
    rw [problems, problems, hnodes, hmore, List.flatMap_append, List.flatMap_append, List.flatMap_cons,
      List.flatMap_cons, List.map_append, List.map_append, hproblems, hbefore.map_moved_eq_self (Nat.le_refl _),
      hafter.map_moved_eq_shifted (Nat.le_refl _), List.flatMap_map, List.map_flatMap]
    rfl

section Insertion

variable {options : Options} {passed front back others : List Text} {opening closing line : Text} {subject : Subject}
  (ho : opening? options opening = some subject)
  (hc : Block.close? (front ++ back ++ closing :: others) = some (front ++ back, closing, others))
  (hsilent : Line.isSilent line = true)

include ho hc hsilent

/-- A block with one more silent line closes as before, if the line does not end like an opening. -/
theorem readNodes_insert (hends : Block.endsOpen (trim line) = false) :
    readNodes options 0 (passed ++ opening :: (front ++ line :: back ++ closing :: others)) =
      readNodes options 0 passed ++
        .ofBlock options.dialect subject passed.length opening (front ++ line :: back) closing ::
          (readNodes options (passed.length + ((front ++ back).length + 2)) others).map (Node.shifted 1) := by
  have hopens := Block.endsOpen_of_opening? (opening?_eq_some_iff.mp ho).2
  obtain ⟨_, hclosing, hbody⟩ := Block.close?_eq_some_iff.mp hc
  have hlonger : ∀ other ∈ front ++ line :: back,
      Block.isClosing (trim other) = false ∧ Block.endsOpen (trim other) = false := by
    intro other hm
    rcases List.mem_append.mp hm with hm | hm
    · exact hbody other (List.mem_append_left _ hm)
    · rcases List.mem_cons.mp hm with rfl | hm
      · exact ⟨Block.isClosing_of_isSilent hsilent, hends⟩
      · exact hbody other (List.mem_append_right _ hm)
  have hclose : Block.close? (front ++ line :: back ++ closing :: others) =
      some (front ++ line :: back, closing, others) := Block.close?_eq_some_iff.mpr ⟨rfl, hclosing, hlonger⟩
  have hlength : 0 + passed.length + ((front ++ line :: back).length + 2) =
      passed.length + ((front ++ back).length + 2) + 1 := by
    simp only [List.length_append, List.length_cons]
    omega
  rw [readNodes_append_of_endsOpen options hopens, readNodes_of_block ho hclose, hlength, readNodes_add, Nat.zero_add]

/-- A silent line that ends like an opening leaves the block without an end. -/
theorem readNodes_insert_of_endsOpen (hends : Block.endsOpen (trim line) = true) :
    readNodes options 0 (passed ++ opening :: (front ++ line :: back ++ closing :: others)) =
      readNodes options 0 passed ++ .ofUnterminated passed.length opening ::
        readNodes options (passed.length + 1) (front ++ line :: back ++ closing :: others) := by
  have hopens := Block.endsOpen_of_opening? (opening?_eq_some_iff.mp ho).2
  obtain ⟨_, _, hbody⟩ := Block.close?_eq_some_iff.mp hc
  have hstops : Block.close? (line :: (back ++ closing :: others)) = none :=
    Block.close?_cons_eq_none_iff.mpr ⟨Block.isClosing_of_isSilent hsilent, Or.inl hends⟩
  have hfront : ∀ other ∈ front, Block.isClosing (trim other) = false := fun other hm =>
    (hbody other (List.mem_append_left _ hm)).1
  have hclose : Block.close? (front ++ line :: back ++ closing :: others) = none := by
    rw [List.append_assoc, List.cons_append]
    exact Block.passes_of_not_isClosing hfront _ hstops
  rw [readNodes_append_of_endsOpen options hopens, readNodes_of_unterminated ho hclose, Nat.zero_add]

/-- **A silent line that does not end like an opening is ignored.** -/
theorem ignoresLine_of_not_endsOpen {text : Text} {index : Nat}
    (htext : textLines text = passed ++ opening :: (front ++ back ++ closing :: others))
    (hmore : textLines (insertLine text index line) =
      passed ++ opening :: (front ++ line :: back ++ closing :: others))
    (hindex : index = passed.length + 1 + front.length) (hends : Block.endsOpen (trim line) = false) :
    IgnoresLine options text index line (readNodes options 0 passed)
      (.ofBlock options.dialect subject passed.length opening (front ++ back) closing)
      (readNodes options (passed.length + ((front ++ back).length + 2)) others) := by
  have hopens := Block.endsOpen_of_opening? (opening?_eq_some_iff.mp ho).2
  have hnodes : (read options text).nodes = readNodes options 0 passed ++
      .ofBlock options.dialect subject passed.length opening (front ++ back) closing ::
        readNodes options (passed.length + ((front ++ back).length + 2)) others := by
    rw [read, htext, readNodes_append_of_endsOpen options hopens, readNodes_of_block ho hc, Nat.zero_add]
  have hlonger : (read options (insertLine text index line)).nodes = readNodes options 0 passed ++
      .ofBlock options.dialect subject passed.length opening (front ++ line :: back) closing ::
        (readNodes options (passed.length + ((front ++ back).length + 2)) others).map (Node.shifted 1) := by
    rw [read, hmore, readNodes_insert ho hc hsilent hends]
  have hstop : (Node.ofBlock options.dialect subject passed.length opening (front ++ line :: back) closing).stop =
      (Node.ofBlock options.dialect subject passed.length opening (front ++ back) closing).stop + 1 := by
    simp only [Node.stop_ofBlock, List.length_append, List.length_cons]
    omega
  have hpassed := (numbered_readNodes (rfl : readNodes options 0 passed = _)).mono (Nat.le_refl 0)
    (show 0 + passed.length ≤ index by omega)
  have hothers := (numbered_readNodes
    (rfl : readNodes options (passed.length + ((front ++ back).length + 2)) others = _)).mono
    (show index ≤ _ by rw [hindex, List.length_append]; omega) (Nat.le_refl _)
  exact ignoresLine_of_nodes hnodes hlonger rfl hstop (Node.rule?_ofBlock_insert hsilent _)
    (Node.problems_ofBlock_insert hsilent hindex) hpassed hothers

end Insertion

end Document

/-- **A silent line in a block is ignored, unless it ends with an opening brace.** Let a blank line or a comment be
inserted into a text behind the opening of a block and not behind its end. If the line does not end like an opening, the
rules of the text are the same, the block is one line longer, and all that lies behind the line lies one line further
down. Otherwise the opening is kept as a block without an end, and the lines behind it are read on their own. -/
theorem silent_line_in_block {options : Options} {text : Text} {before after : List Node} {node : Node} {rule : Rule}
    {opening closing : Text} {body : List Text} {index : Nat} {line : Text}
    (hnodes : (Document.read options text).nodes = before ++ node :: after)
    (hcontent : node.content = .blockRule rule opening body closing) (hbehind : node.start < index)
    (hbefore : index < node.stop) (hline : OneLine line) (hsilent : Line.isSilent line = true) :
    (Document.IgnoresLine options text index line before node after ↔ Block.endsOpen (trim line) = false) ∧
      (Block.endsOpen (trim line) = true → (Document.read options (Document.insertLine text index line)).nodes =
        before ++ .ofUnterminated node.start opening :: Document.readNodes options (node.start + 1)
          ((Document.textLines (Document.insertLine text index line)).drop (node.start + 1))) := by
  obtain ⟨passed, others, hlines, ho, hc, rfl, rfl, rfl⟩ := Document.exists_block_at hnodes hcontent
  rw [Node.stop_ofBlock] at hbefore
  have hstart : (Node.ofBlock options.dialect rule.subject passed.length opening body closing).start = passed.length := rfl
  rw [hstart] at hbehind ⊢
  -- the body is cut where the line goes
  obtain ⟨front, back, rfl, hindex⟩ : ∃ front back, body = front ++ back ∧ index = passed.length + 1 + front.length := by
    refine ⟨body.take (index - passed.length - 1), body.drop (index - passed.length - 1),
      (List.take_append_drop _ _).symm, ?_⟩
    rw [List.length_take]
    omega
  have htext : Document.textLines text = (passed ++ opening :: front) ++ (back ++ closing :: others) := by
    rw [hlines]
    simp
  have hlength : index = (passed ++ opening :: front).length := by
    rw [hindex, List.length_append, List.length_cons]
    omega
  have hmore : Document.textLines (Document.insertLine text index line) =
      passed ++ opening :: (front ++ line :: back ++ closing :: others) := by
    rw [hlength, Document.textLines_insertLine htext hline]
    simp
  have hopen : Block.endsOpen (trim line) = true →
      (Document.read options (Document.insertLine text index line)).nodes =
        Document.readNodes options 0 passed ++ .ofUnterminated passed.length opening ::
          Document.readNodes options (passed.length + 1) (front ++ line :: back ++ closing :: others) := by
    intro hends
    rw [Document.read, hmore, Document.readNodes_insert_of_endsOpen ho hc hsilent hends]
  refine ⟨⟨fun hignores => ?_, Document.ignoresLine_of_not_endsOpen ho hc hsilent hlines hmore hindex⟩, fun hends => ?_⟩
  · -- an opening that is kept is one line long
    by_contra hends
    obtain ⟨longer, hlonger, hsame, hstop, _⟩ := hignores.nodes
    rw [hopen (by simpa using hends)] at hlonger
    obtain ⟨rfl, _⟩ := List.cons.inj (List.append_cancel_left hlonger)
    rw [Node.stop_ofBlock, Node.stop, Node.lines_ofUnterminated, hsame, hstart, List.length_singleton] at hstop
    omega
  · rw [hopen hends, hmore]
    simp

/-- A comment, a block with an entry that has no key, and a rule on a line. -/
def silentText : Text :=
  "# top\nwindowrule \x7b\n  float = on\n  = on\n\x7d\nwindowrule = match:, class:a".toList

/-- The block of that text. -/
def silentBlock : Node :=
  .ofBlock .block .window 1 "windowrule \x7b".toList ["  float = on".toList, "  = on".toList] "\x7d".toList

/-- A comment in front of the faulty entry moves its problem and that of the last line. -/
theorem silentText_ignores_comment :
    (Document.read {} silentText).nodes = [.ofLine .block 0 "# top".toList] ++ silentBlock ::
        [.ofLine .block 5 "windowrule = match:, class:a".toList] ∧
      silentBlock.content = .blockRule ⟨.window, [.flag "float".toList "on".toList, .malformed "= on".toList]⟩
        "windowrule \x7b".toList ["  float = on".toList, "  = on".toList] "\x7d".toList ∧
      OneLine "  # \x7b on \x7d".toList ∧ Line.isSilent "  # \x7b on \x7d".toList = true ∧
      Document.IgnoresLine {} silentText 3 "  # \x7b on \x7d".toList [.ofLine .block 0 "# top".toList] silentBlock
        [.ofLine .block 5 "windowrule = match:, class:a".toList] ∧
      (Document.read {} (Document.insertLine silentText 3 "  # \x7b on \x7d".toList)).problems.map Problem.message =
        ["Parse error at line 5, column 1: parsing error: expected entry_key".toList,
          "Malformed rule fragment at line 7: 'match:'".toList] := by
  have hlines : Document.textLines silentText = ["# top".toList, "windowrule \x7b".toList, "  float = on".toList,
      "  = on".toList, "\x7d".toList, "windowrule = match:, class:a".toList] := by decide +kernel
  have hopening : Document.opening? {} "windowrule \x7b".toList = some .window := by decide +kernel
  have hclose : Block.close? ["  float = on".toList, "  = on".toList, "\x7d".toList,
      "windowrule = match:, class:a".toList] = some (["  float = on".toList, "  = on".toList], "\x7d".toList,
        ["windowrule = match:, class:a".toList]) := by decide +kernel
  have hnodes : (Document.read {} silentText).nodes = [.ofLine .block 0 "# top".toList] ++ silentBlock ::
      [.ofLine .block 5 "windowrule = match:, class:a".toList] := by
    rw [Document.read, hlines, Document.readNodes_of_line (by decide +kernel),
      Document.readNodes_of_block hopening hclose, Document.readNodes_of_line (by decide +kernel),
      Document.readNodes]
    rfl
  have hcontent : silentBlock.content = .blockRule
      ⟨.window, [.flag "float".toList "on".toList, .malformed "= on".toList]⟩ "windowrule \x7b".toList
        ["  float = on".toList, "  = on".toList] "\x7d".toList := by decide +kernel
  have hline : OneLine "  # \x7b on \x7d".toList := by simp [OneLine]
  have hsilent : Line.isSilent "  # \x7b on \x7d".toList = true := by decide +kernel
  refine ⟨hnodes, hcontent, hline, hsilent, ?_, by decide +kernel⟩
  exact (silent_line_in_block hnodes hcontent (by decide) (by decide) hline hsilent).1.mpr (by decide +kernel)

/-- Every silent line that is inserted into a block is ignored. -/
def Document.IgnoresSilentLines (options : Options) : Prop :=
  ∀ text before node after rule opening body closing index line,
    (read options text).nodes = before ++ node :: after → node.content = .blockRule rule opening body closing →
      node.start < index → index < node.stop → OneLine line → Line.isSilent line = true →
        IgnoresLine options text index line before node after

/-- A block without comments. -/
def uncommentedText : Text := "windowrule \x7b\n  float = on\n  match:class = a\n\x7d".toList

/-- A comment that ends with an opening brace takes the rule of the block away. -/
theorem not_ignoresSilentLines :
    ¬Document.IgnoresSilentLines {} ∧ Line.isSilent "  # general \x7b".toList = true ∧
      (Document.read {} uncommentedText).rules =
        [⟨.window, [.flag "float".toList "on".toList, .selector "class".toList "a".toList]⟩] ∧
      (Document.read {} (Document.insertLine uncommentedText 1 "  # general \x7b".toList)).rules = [] ∧
      (Document.read {} (Document.insertLine uncommentedText 1 "  # general \x7b".toList)).problems.map Problem.message =
        ["Rule block opened at line 1 is never closed".toList] := by
  refine ⟨fun h => ?_, by decide +kernel, by decide +kernel, by decide +kernel, by decide +kernel⟩
  have hlines : Document.textLines uncommentedText = ["windowrule \x7b".toList, "  float = on".toList,
      "  match:class = a".toList, "\x7d".toList] := by decide +kernel
  have hopening : Document.opening? {} "windowrule \x7b".toList = some .window := by decide +kernel
  have hclose : Block.close? ["  float = on".toList, "  match:class = a".toList, "\x7d".toList] =
      some (["  float = on".toList, "  match:class = a".toList], "\x7d".toList, []) := by decide +kernel
  have hnodes : (Document.read {} uncommentedText).nodes = [] ++ .ofBlock .block .window 0 "windowrule \x7b".toList
      ["  float = on".toList, "  match:class = a".toList] "\x7d".toList :: [] := by
    rw [Document.read, hlines, Document.readNodes_of_block hopening hclose, Document.readNodes]
    rfl
  have hrules := (h _ _ _ _ _ _ _ _ 1 "  # general \x7b".toList hnodes rfl (by decide) (by decide) (by simp [OneLine])
    (by decide +kernel)).rules
  exact absurd hrules (by decide +kernel)

end WindowRules

import WindowRules.Proofs.Reading.Nodes
import Mathlib.Data.List.Basic

/-!
# Texts that are joined

Where a text stands is told by numbers only: the nodes of lines that are read further down are the same nodes with their
lines counted from there (`readNodes_add`). So a text in which no block is left open and the text behind it are read one
after the other (`read_append`). Proof: by induction over the reader; every block of the first text is closed in it, so
the search for its end never comes to the second text.
-/

namespace WindowRules

/-! ## Counting lines from further up -/

namespace Problem

mutual
/-- The problem in a text with so many lines in front. -/
def shifted (count : Nat) : Problem → Problem
  | unparsable line column explanation => unparsable (line + count) column explanation
  | malformed line fragment => malformed (line + count) fragment
  | unterminated line => unterminated (line + count)
  | unknownDialect name => unknownDialect name
  | several problems => several (allShifted count problems)

/-- The problems in a text with so many lines in front. -/
def allShifted (count : Nat) : List Problem → List Problem
  | [] => []
  | problem :: problems => shifted count problem :: allShifted count problems
end

end Problem

/-- The node in a text with so many lines in front. -/
def Node.shifted (count : Nat) (node : Node) : Node :=
  ⟨node.start + count, node.content, node.problems.map (Problem.shifted count)⟩

namespace Block

theorem readLine?_add (dialect : Dialect) (subject : Subject) (number count : Nat) (line : Text) :
    readLine? dialect subject (number + count) line =
      (readLine? dialect subject number line).map (Prod.map id (Option.map (Problem.shifted count))) := by
  simp only [readLine?]
  split
  · rfl
  · split
    · rfl
    · next entry _ =>
      cases entry.item? dialect subject (Text.trim line) with
      | none => rfl
      | some item => cases hform : item.isMalformed <;> simp [hform, Problem.shifted]

theorem readBody_add (dialect : Dialect) (subject : Subject) (number count : Nat) (body : List Text) :
    readBody dialect subject (number + count) body =
      (readBody dialect subject number body).map (Prod.map id (Option.map (Problem.shifted count))) := by
  rw [readBody, Nat.add_comm, ← List.map_snd_add_zipIdx_eq_zipIdx, List.filterMap_map, readBody, List.map_filterMap]
  refine List.filterMap_congr fun entry _ => ?_
  exact readLine?_add dialect subject entry.2 count entry.1

end Block

namespace Node

theorem ofLine_add (dialect : Dialect) (start count : Nat) (line : Text) :
    ofLine dialect (start + count) line = (ofLine dialect start line).shifted count := by
  rw [ofLine, ofLine]
  cases Line.read? dialect line with
  | none => rfl
  | some rule =>
    have hnumber : start + count + 1 = start + 1 + count := Nat.add_right_comm start count 1
    simp only [shifted, List.map_map, Function.comp_def, Problem.shifted, hnumber]

theorem ofUnterminated_add (start count : Nat) (line : Text) :
    ofUnterminated (start + count) line = (ofUnterminated start line).shifted count := by
  rw [ofUnterminated, Nat.add_right_comm]
  rfl

theorem ofBlock_add (dialect : Dialect) (subject : Subject) (start count : Nat) (opening : Text) (body : List Text)
    (closing : Text) : ofBlock dialect subject (start + count) opening body closing =
      (ofBlock dialect subject start opening body closing).shifted count := by
  have hbody := Block.readBody_add dialect subject (start + 2) count body
  rw [show start + 2 + count = start + count + 2 by omega] at hbody
  simp [ofBlock, shifted, hbody, Function.comp_def, List.filterMap_map, List.map_filterMap]

end Node

namespace Document

/-- **Lines further down are read as the same nodes**, counted from there. -/
theorem readNodes_add (options : Options) (start count : Nat) (lines : List Text) :
    readNodes options (start + count) lines = (readNodes options start lines).map (Node.shifted count) := by
  fun_induction readNodes options start lines with
  | case1 => rw [readNodes]; rfl
  | case2 start line rest h ih =>
    rw [readNodes_of_line h, List.map_cons, ← ih, Node.ofLine_add, Nat.add_right_comm]
  | case3 start line rest subject h hc ih =>
    rw [readNodes_of_unterminated h hc, List.map_cons, ← ih, Node.ofUnterminated_add, Nat.add_right_comm]
  | case4 start line rest subject h body closing after hc ih =>
    rw [readNodes_of_block h hc, List.map_cons, ← ih, Node.ofBlock_add, Nat.add_right_comm]

/-! ## One text behind another -/

/-- **Lines of which no block is left open are read before the lines behind them.** -/
theorem readNodes_append {options : Options} {start : Nat} {lines : List Text}
    (h : ∀ problem ∈ (readNodes options start lines).flatMap Node.problems, problem.isUnterminated = false)
    (more : List Text) : readNodes options start (lines ++ more) =
      readNodes options start lines ++ readNodes options (start + lines.length) more := by
  fun_induction readNodes options start lines with
  | case1 => rfl
  | case2 start line rest ho ih =>
    rw [List.flatMap_cons, List.forall_mem_append] at h
    have hlength : start + (line :: rest).length = start + 1 + rest.length := by
      rw [List.length_cons]
      omega
    rw [List.cons_append, readNodes_of_line ho, ih h.2, List.cons_append, hlength]
  | case3 start line rest subject ho hc ih =>
    have hopen := h (.unterminated (start + 1)) (List.mem_flatMap.mpr ⟨_, List.mem_cons_self, List.mem_singleton_self _⟩)
    cases hopen
  | case4 start line rest subject ho body closing after hc ih =>
    rw [List.flatMap_cons, List.forall_mem_append] at h
    have hlength : start + (line :: rest).length = start + (body.length + 2) + after.length := by
      rw [Block.eq_of_close? hc, List.length_cons, List.length_append, List.length_cons]
      omega
    rw [List.cons_append, readNodes_of_block ho (Block.close?_append hc more), ih h.2, List.cons_append, hlength]

/-- **Texts compose.** If no block of a text is left open, then the text and another one behind a newline are read as the
nodes of both, one after the other, and have the problems of both; the lines of the second text are counted from the end
of the first. -/
theorem read_append (options : Options) (text more : Text)
    (h : ∀ problem ∈ (read options text).problems, problem.isUnterminated = false) :
    (read options (text ++ '\n' :: more)).nodes =
        (read options text).nodes ++ (read options more).nodes.map (Node.shifted (textLines text).length) ∧
      (read options (text ++ '\n' :: more)).problems =
        (read options text).problems ++ (read options more).problems.map (Problem.shifted (textLines text).length) := by
  have hnodes : (read options (text ++ '\n' :: more)).nodes =
      (read options text).nodes ++ (read options more).nodes.map (Node.shifted (textLines text).length) := by
    rw [read, textLines_append, readNodes_append h, readNodes_add]
    rfl
  refine ⟨hnodes, ?_⟩
  rw [problems, hnodes, List.flatMap_append, List.flatMap_map, problems, problems, List.map_flatMap]
  rfl

/-- A block with an entry that has no key, and a comment behind it. -/
def closedText : Text := "windowrule \x7b\n  float = on\n  = on\n\x7d\n# end".toList

/-- A line with a condition without a name, and a block without an end. -/
def openedText : Text := "windowrule = match:, class:a\nlayerrule \x7b".toList

/-- The problems of the second text are told five lines further down. -/
theorem closedText_openedText_compose :
    (∀ problem ∈ (read {} closedText).problems, problem.isUnterminated = false) ∧
      (read {} (closedText ++ '\n' :: openedText)).nodes =
        (read {} closedText).nodes ++ (read {} openedText).nodes.map (Node.shifted 5) ∧
      (read {} (closedText ++ '\n' :: openedText)).problems.map Problem.message =
        ["Parse error at line 3, column 1: parsing error: expected entry_key".toList,
          "Malformed rule fragment at line 6: 'match:'".toList,
          "Rule block opened at line 7 is never closed".toList] := by
  have hclosed : ∀ problem ∈ (read {} closedText).problems, problem.isUnterminated = false := by decide +kernel
  have hlength : (textLines closedText).length = 5 := by decide +kernel
  obtain ⟨hnodes, _⟩ := read_append {} closedText openedText hclosed
  rw [hlength] at hnodes
  exact ⟨hclosed, hnodes, by decide +kernel⟩

end Document

end WindowRules

import WindowRules.Proofs.Reading.Problems
import Mathlib.Data.List.Nodup

/-!
# What a block tells of its lines

Each line of a block that is neither blank nor a comment is judged by the grammar of entries (`entry_is_judged`): it is
rejected exactly if the grammar takes no entry there, at the column of the furthest place to which the grammar comes,
and otherwise it is read as the entry with the pieces that the grammar tells.

* `Document.mem_problems_at_iff` — the problems at the number of a line of a block are those of that line. Proof: the
  nodes tile the lines, so another node has no problem there.
* `Entry.rejected_of_misfit`, `Entry.accepted_of_not_misfit` — so a block tells of each of its lines what the grammar
  says.
-/

namespace WindowRules

open Text

/-! ## Lines of a block -/

namespace Block

/-- The items of a body around one of its lines. -/
theorem filterMap_item?_eq {dialect : Dialect} {subject : Subject} {body : List Text} {index : Nat} {line : Text}
    (h : body[index]? = some line) : body.filterMap (item? dialect subject) =
      (body.take index).filterMap (item? dialect subject) ++ ((item? dialect subject line).toList ++
        (body.drop (index + 1)).filterMap (item? dialect subject)) := by
  obtain ⟨hindex, hline⟩ := List.getElem?_eq_some_iff.mp h
  have hbody : body = body.take index ++ line :: body.drop (index + 1) := by
    rw [← hline, List.getElem_cons_drop, List.take_append_drop]
  conv_lhs => rw [hbody]
  rw [List.filterMap_append, List.filterMap_cons]
  cases item? dialect subject line <;> rfl

end Block

/-! ## Problems at the number of a line -/

/-- Each of some numbered problems has a number within their bounds. -/
theorem Problem.Numbered.bounds {problems : List Problem} {low high number : Nat} (h : Numbered problems low high)
    {problem : Problem} (hproblem : problem ∈ problems) (hnumber : problem.line? = some number) :
    low < number ∧ number ≤ high := by
  obtain ⟨numbers, hlines, _, hbounds⟩ := h
  have hmem : some number ∈ problems.map Problem.line? := List.mem_map.mpr ⟨problem, hproblem, hnumber⟩
  rw [hlines] at hmem
  obtain ⟨other, ho, he⟩ := List.mem_map.mp hmem
  cases he
  exact hbounds number ho

namespace Document

/-- An index belongs to one node. -/
theorem eq_of_mem_indices {options : Options} {lines : List Text} {node other : Node} {index : Nat}
    (hnode : node ∈ readNodes options 0 lines) (hother : other ∈ readNodes options 0 lines)
    (hindex : index ∈ node.indices) (hindexOther : index ∈ other.indices) : node = other := by
  have hnodup : ((readNodes options 0 lines).flatMap Node.indices).Nodup := by
    rw [flatMap_indices_readNodes]
    exact List.nodup_range'
  have hdisjoint := (List.nodup_flatMap.mp hnodup).2
  obtain ⟨before, after, hnodes⟩ := List.append_of_mem hnode
  rw [hnodes, List.pairwise_append, List.pairwise_cons] at hdisjoint
  obtain ⟨_, ⟨hafter, _⟩, hbefore⟩ := hdisjoint
  rw [hnodes, List.mem_append, List.mem_cons] at hother
  rcases hother with ho | rfl | ho
  · exact (hbefore other ho node List.mem_cons_self hindexOther hindex).elim
  · rfl
  · exact (hafter other ho hindex hindexOther).elim

/-- **The problems at the number of a line of a block** are those that this line has. -/
theorem mem_problems_at_iff {options : Options} {text : Text} {node : Node} (hnode : node ∈ (read options text).nodes)
    {rule : Rule} {opening closing : Text} {body : List Text}
    (hcontent : node.content = .blockRule rule opening body closing) {index : Nat} {line : Text}
    (hline : body[index]? = some line) (problem : Problem) :
    problem ∈ (read options text).problems ∧ problem.line? = some (node.start + 2 + index) ↔
      (Block.item? options.dialect rule.subject line).any Item.isMalformed = true ∧
        problem = Entry.report (node.start + 2 + index) (trim line) := by
  have hproblems : node.problems = (Block.faults options.dialect rule.subject (node.start + 2) body).map fun entry =>
      Entry.report entry.2 (trim entry.1) := by
    rw [problems_eq_report hnode, hcontent]
    rfl
  constructor
  · rintro ⟨hmem, hnumber⟩
    obtain ⟨other, hother, hmem⟩ := List.mem_flatMap.mp hmem
    -- the line is one of the lines of the node that reports the problem
    obtain ⟨hlow, hhigh⟩ := (numbered_problems hother).bounds hmem hnumber
    obtain ⟨hlength, _⟩ := List.getElem?_eq_some_iff.mp hline
    have hsame : node = other := by
      refine eq_of_mem_indices hnode hother (List.mem_range'_1.mpr ?_)
        (List.mem_range'_1.mpr (⟨?_, ?_⟩ : other.start ≤ node.start + 1 + index ∧ _))
      · simp only [Node.lines, hcontent, Content.lines, List.length_append, List.length_cons, List.length_nil]
        omega
      · omega
      · rw [Node.stop] at hhigh
        omega
    subst hsame
    rw [hproblems] at hmem
    obtain ⟨entry, hentry, rfl⟩ := List.mem_map.mp hmem
    rw [Entry.line?_report] at hnumber
    obtain ⟨i, hi, hget⟩ := Block.getElem?_of_mem_faults hentry
    have hindex : i = index := by
      have := Option.some.inj hnumber
      omega
    rw [hindex, hline] at hget
    cases hget
    exact ⟨(List.mem_filter.mp hentry).2, by rw [Option.some.inj hnumber]⟩
  · rintro ⟨hfaulty, rfl⟩
    have hentry := (Block.mem_faults_iff hline (node.start + 2)).mpr hfaulty
    refine ⟨List.mem_flatMap.mpr ⟨node, hnode, ?_⟩, Entry.line?_report _ _⟩
    rw [hproblems]
    exact List.mem_map.mpr ⟨_, hentry, rfl⟩

end Document

/-! ## What a block tells of its lines -/

namespace Entry

/-- **What is told of a line of a block that is no entry.** The rule keeps the trimmed line as a malformed item, between
the items of the lines before it and behind it. The one problem at the number of the line tells the column of the
furthest place to which the grammar comes, counted in characters of the trimmed line. -/
structure Rejected (options : Options) (text : Text) (rule : Rule) (before after : List Text) (number column : Nat)
    (line : Text) : Prop where
  items : rule.items = before.filterMap (Block.item? options.dialect rule.subject) ++
    .malformed line :: after.filterMap (Block.item? options.dialect rule.subject)
  problem : ∃ explanation, ∀ problem,
    problem ∈ (Document.read options text).problems ∧ problem.line? = some number ↔
      problem = .unparsable number column explanation
  furthest : ∃ missed place, Grammar.Runs Grammar.blockEntry line missed none ∧ Grammar.Furthest missed place ∧
    column = line.length - place.length + 1

/-- **What is told of a line of a block that is an entry.** The rule has the item of the entry between the items of the
other lines, and the pieces of the entry are those of the grammar, the value trimmed. -/
structure Accepted (options : Options) (rule : Rule) (before after : List Text) (line : Text) (entry : Entry) :
    Prop where
  items : rule.items = before.filterMap (Block.item? options.dialect rule.subject) ++
    ((entry.item? options.dialect rule.subject line).toList ++
      after.filterMap (Block.item? options.dialect rule.subject))
  read : Entry.read line = .ok entry
  grammar : ∃ value? : Option Text,
    Grammar.Matches Grammar.blockEntry line [] (Grammar.entryTokens entry.key value?) ∧ entry.value? = value?.map trim

section Body

variable {options : Options} {text : Text} {node : Node} (hnode : node ∈ (Document.read options text).nodes)
  {rule : Rule} {opening closing : Text} {body : List Text}
  (hcontent : node.content = .blockRule rule opening body closing) {index : Nat} {line : Text}
  (hline : body[index]? = some line) (hne : trim line ≠ []) (hcomment : (trim line).head? ≠ some '#')
  {key blanks rest : Text} (hcut : Cut (trim line) key blanks rest)

include hnode hcontent hline hne hcomment hcut

theorem rejected_of_misfit (hmisfit : Misfit key rest) : Rejected options text rule (body.take index)
    (body.drop (index + 1)) (node.start + 2 + index) (if key = [] then 1 else 1 + (key.length + blanks.length))
    (trim line) := by
  obtain ⟨fault, hread, hcolumn, missed, place, hruns, hfurthest, hplace, _⟩ := hcut.exists_fault hmisfit
  have hitem := Block.item?_of_error options.dialect rule.subject hne hcomment hread
  refine ⟨?_, ⟨fault.explanation, fun problem => ?_⟩, missed, place, hruns, hfurthest, ?_⟩
  · rw [Document.items_eq_filterMap hnode hcontent, Block.filterMap_item?_eq hline, hitem]
    rfl
  · rw [Document.mem_problems_at_iff hnode hcontent hline, hitem, ← hcolumn, Entry.report, hread]
    exact and_iff_right rfl
  · rw [← hcolumn, hplace]

theorem accepted_of_not_misfit (hfit : ¬Misfit key rest) : Accepted options rule (body.take index)
    (body.drop (index + 1)) (trim line) ⟨key, if rest = [] then none else some (trim rest.tail)⟩ := by
  obtain ⟨hread, hgrammar⟩ := hcut.read_of_not_misfit hfit
  refine ⟨?_, hread, hgrammar⟩
  rw [Document.items_eq_filterMap hnode hcontent, Block.filterMap_item?_eq hline,
    Block.item?_of_ok _ _ hne hcomment hread]

/-- Only a misfit is reported as unparsable. -/
theorem exists_unparsable_iff : (∃ column explanation, .unparsable (node.start + 2 + index) column explanation ∈
    (Document.read options text).problems) ↔ Misfit key rest := by
  constructor
  · rintro ⟨column, explanation, hmem⟩
    by_contra hfit
    obtain ⟨hread, _⟩ := hcut.read_of_not_misfit hfit
    obtain ⟨_, hreport⟩ := (Document.mem_problems_at_iff hnode hcontent hline _).mp ⟨hmem, rfl⟩
    rw [Entry.report, hread] at hreport
    cases hreport
  · intro hmisfit
    obtain ⟨explanation, hall⟩ := (rejected_of_misfit hnode hcontent hline hne hcomment hcut hmisfit).problem
    exact ⟨_, explanation, ((hall _).mpr rfl).1⟩

end Body
end Entry

/-- **Entries are accepted exactly by their grammar, and a rejection points at the character that does not fit.** Each
line of a block that is neither blank nor a comment has a key, spaces and tabs behind it and a rest. It is rejected
exactly if the key is empty or the rest begins with something else than an equals sign: then the rule keeps the line as
malformed, and the problem at the number of the line in the whole text has the column of that place. Otherwise it is an
entry with this key, and its value is the trimmed rest without the equals sign, if there is a rest. -/
theorem entry_is_judged {options : Options} {text : Text} {node : Node}
    (hnode : node ∈ (Document.read options text).nodes) {rule : Rule} {opening closing : Text} {body : List Text}
    (hcontent : node.content = .blockRule rule opening body closing) {index : Nat} {line : Text}
    (hline : body[index]? = some line) (hne : trim line ≠ []) (hcomment : (trim line).head? ≠ some '#') :
    (Document.textLines text)[node.start + 1 + index]? = some line ∧
      ∃ key blanks rest, Entry.Cut (trim line) key blanks rest ∧
        ((∃ column explanation, .unparsable (node.start + 2 + index) column explanation ∈
          (Document.read options text).problems) ↔ Entry.Misfit key rest) ∧
        (Grammar.Fails Grammar.blockEntry (trim line) ↔ Entry.Misfit key rest) ∧
        (Entry.Misfit key rest → Entry.Rejected options text rule (body.take index) (body.drop (index + 1))
          (node.start + 2 + index) (if key = [] then 1 else 1 + (key.length + blanks.length)) (trim line)) ∧
        (¬Entry.Misfit key rest → Entry.Accepted options rule (body.take index) (body.drop (index + 1)) (trim line)
          ⟨key, if rest = [] then none else some (trim rest.tail)⟩) := by
  obtain ⟨key, blanks, rest, hcut⟩ := Entry.exists_cut (trim line)
  refine ⟨Document.getElem?_body hnode hcontent hline, key, blanks, rest, hcut, ?_, hcut.fails_blockEntry_iff, ?_, ?_⟩
  · exact Entry.exists_unparsable_iff hnode hcontent hline hne hcomment hcut
  · exact Entry.rejected_of_misfit hnode hcontent hline hne hcomment hcut
  · exact Entry.accepted_of_not_misfit hnode hcontent hline hne hcomment hcut

/-- A block with text behind a key of letters that are no ASCII, and a space and a tab between the two. -/
def strayText : Text := "# rules\nwindowrule \x7b\n  größe\t 5\n  pin\n\x7d".toList

/-- The stray text is told at its column in the third line. -/
theorem strayText_is_judged :
    ∃ node ∈ (Document.read {} strayText).nodes, ∃ rule opening body closing,
      node.content = .blockRule rule opening body closing ∧ body[0]? = some "  größe\t 5".toList ∧
        trim "  größe\t 5".toList ≠ [] ∧ (trim "  größe\t 5".toList).head? ≠ some '#' ∧
        Entry.Rejected {} strayText rule [] ["  pin".toList] 3 8 "größe\t 5".toList := by
  have hlines : Document.textLines strayText =
      ["# rules".toList, "windowrule \x7b".toList, "  größe\t 5".toList, "  pin".toList, "\x7d".toList] := by
    decide +kernel
  have hopening : Document.opening? {} "windowrule \x7b".toList = some .window := by decide
  have hnode : Node.ofBlock .block .window 1 "windowrule \x7b".toList ["  größe\t 5".toList, "  pin".toList]
      "\x7d".toList ∈ (Document.read {} strayText).nodes := by
    rw [Document.read, hlines, Document.readNodes_of_line (by decide), Document.readNodes_of_block hopening rfl]
    exact List.mem_cons_of_mem _ List.mem_cons_self
  have hcontent := Node.content_ofBlock .block .window 1 "windowrule \x7b".toList
    ["  größe\t 5".toList, "  pin".toList] "\x7d".toList
  have hline : ["  größe\t 5".toList, "  pin".toList][0]? = some "  größe\t 5".toList := rfl
  have htrim : trim "  größe\t 5".toList = "größe\t 5".toList := by decide
  have hne : trim "  größe\t 5".toList ≠ [] := by decide
  have hcomment : (trim "  größe\t 5".toList).head? ≠ some '#' := by decide
  obtain ⟨_, key, blanks, rest, hcut, _, _, hrejected, _⟩ :=
    entry_is_judged hnode hcontent hline hne hcomment
  rw [htrim] at hcut hrejected
  have hkey : key = "größe".toList := hcut.takeWhile_isKeyChar.symm.trans (by decide)
  have hbehind : blanks ++ rest = "\t 5".toList := hcut.dropWhile_isKeyChar.symm.trans (by decide)
  have hrest : rest = "5".toList := by
    have hdrop := hcut.dropWhile_blanks
    rw [hbehind] at hdrop
    exact hdrop.symm.trans (by decide)
  have hblanks : blanks = "\t ".toList := by
    rw [hrest] at hbehind
    exact List.append_cancel_right (hbehind.trans (by decide : _ = "\t ".toList ++ "5".toList))
  subst hkey hblanks hrest
  exact ⟨_, hnode, _, _, _, _, hcontent, rfl, hne, hcomment, hrejected (Or.inr (by decide))⟩

end WindowRules

import WindowRules.Proofs.Conversion.Pieces

/-!
# Converted texts are read piece by piece

A converted text is made of written rules and of lines that were no rules. If no such line closes a block that another
one has left open (`Document.Settled`), each of them is no rule whatever rules stand around it, so each piece is read on
its own (`contents_of_shown`). It follows that what can be said of each written rule alone can be said of the whole
text: if every merged rule is read back as another one, then the rules of the converted text are these other rules, in
order (`rules_convert`).
-/

namespace WindowRules

open Text

/-! ## Lines that are no rules -/

/-- Whether a line holds a rule does not depend on the dialect. -/
theorem Line.isSome_read? (dialect other : Dialect) (line : Text) :
    (Line.read? dialect line).isSome = (Line.read? other line).isSome := by
  simp only [Line.read?, Option.bind_eq_bind]
  cases Line.parts? line with
  | none => rfl
  | some parts =>
    simp only [Option.bind_some]
    cases Subject.ofKeyword? (trim parts.1) <;> rfl

namespace Document

/-- A line that was kept is kept on its own, for every dialect. -/
theorem contents_of_mem_contents {dialect : Dialect} {lines : List Text} {line : Text}
    (hline : .verbatim line ∈ contents { dialect } lines) (other : Dialect) :
    contents { dialect := other } [line] = [.verbatim line] := by
  obtain ⟨node, hnode, hcontent⟩ := List.mem_map.mp hline
  rcases mem_readNodes hnode with ⟨index, source, ho, rfl⟩ | ⟨index, source, subject, ho, rfl⟩ |
    ⟨subject, index, opening, body, closing, _, rfl⟩
  · rw [Node.content_ofLine, Content.ofLine] at hcontent
    split at hcontent
    · next hread =>
      cases hcontent
      have hother : Line.read? other line = none := by
        rw [← Option.not_isSome_iff_eq_none, Line.isSome_read? other dialect, hread]
        simp
      have hopening : opening? { dialect := other } line = none := ho
      rw [contents_of_line hopening, contents_nil, Content.ofLine, hother]
    · cases hcontent
  · cases hcontent
    have hopening : opening? { dialect := other } line = some subject := ho
    rw [contents_of_unterminated hopening rfl, contents_nil]
  · cases hcontent

/-- A line that is kept on its own is kept in front of others, unless they close a block that it opens. -/
theorem contents_cons_of_verbatim {options : Options} {line : Text} {lines : List Text}
    (hkeep : contents options [line] = [.verbatim line])
    (h : opening? options line = none ∨ Block.close? lines = none) :
    contents options (line :: lines) = .verbatim line :: contents options lines := by
  rcases h with hnone | hunclosed
  · have hself := contents_of_line hnone []
    rw [hkeep, contents_nil] at hself
    rw [contents_of_line hnone, ← List.singleton_append, ← hself, List.singleton_append]
  · rw [contents_cons_of_close? options line hunclosed, hkeep, List.singleton_append]

/-! ## The lines of a converted text -/

theorem textLines_of_oneLine {line : Text} (h : OneLine line) : textLines line = [line] := List.splitOn_eq_singleton h

/-- Texts that are joined with newlines have the lines of each. -/
theorem textLines_intercalate {texts : List Text} (hne : texts ≠ []) :
    textLines (['\n'].intercalate texts) = texts.flatMap textLines := by
  induction texts with
  | nil => exact absurd rfl hne
  | cons text texts ih =>
    cases texts with
    | nil => rw [List.intercalate_singleton, List.flatMap_cons, List.flatMap_nil, List.append_nil]
    | cons next texts =>
      rw [List.intercalate_cons_cons, List.append_assoc, List.singleton_append, textLines_append,
        ih (List.cons_ne_nil _ _)]
      rfl

/-- The first node gives something. -/
theorem Gives.ne_nil {set : RuleSet} {dialect : Dialect} {content : Content} {piece : List Text}
    (h : Gives set dialect [] content piece) : piece ≠ [] := by
  cases h with
  | entry => exact List.cons_ne_nil _ _
  | duplicate _ hdup => cases hdup
  | absorbed hd => exact absurd hd.2.2 not_followsBlock_nil
  | copied => exact List.cons_ne_nil _ _

/-- There is always a node, since there is always a line. -/
theorem nodes_ne_nil (options : Options) (text : Text) : (read options text).nodes ≠ [] := by
  intro hnodes
  have hlines := flatMap_lines_read options text
  rw [Document.lines, hnodes] at hlines
  exact absurd hlines.symm (List.splitOn_ne_nil '\n' text)

theorem oneLine_of_mem_nodes {options : Options} {text : Text} {node : Node} (hnode : node ∈ (read options text).nodes) :
    ∀ line ∈ node.lines, OneLine line := by
  intro line hl
  have hline : line ∈ (read options text).lines := List.mem_flatMap.mpr ⟨node, hnode, hl⟩
  rw [flatMap_lines_read] at hline
  exact oneLine_of_mem_textLines hline

/-- The lines of a converted text are those of its pieces. -/
theorem textLines_convert {options : Options} {text : Text} {given : List (Node × List Text)} {set : RuleSet}
    (hnodes : given.map Prod.fst = (read options text).nodes)
    (hconvert : convert options text = ['\n'].intercalate (given.flatMap Prod.snd))
    (hgives : ∀ before node piece after, given = before ++ (node, piece) :: after →
      Gives set options.dialect (before.map Prod.fst) node.content piece) :
    textLines (convert options text) = (given.flatMap Prod.snd).flatMap textLines := by
  have hne : given.flatMap Prod.snd ≠ [] := by
    cases given with
    | nil => exact absurd hnodes.symm (nodes_ne_nil options text)
    | cons pair given =>
      have hfirst := (hgives [] pair.1 pair.2 given rfl).ne_nil
      rw [List.flatMap_cons]
      exact fun he => hfirst (List.append_eq_nil_iff.mp he).1
  rw [hconvert, textLines_intercalate hne]

/-- The texts in place of lines that were no rules do not matter if nothing is found in them. -/
theorem flatMap_filter_rules {α : Type} {given : List (Content × List Text)} {find : Text → List α}
    (h : ∀ pair ∈ given, pair.1.rule? = none → ∀ text ∈ pair.2, find text = []) :
    (given.flatMap Prod.snd).flatMap find =
      ((given.filter (·.1.rule?.isSome)).flatMap Prod.snd).flatMap find := by
  induction given with
  | nil => rfl
  | cons pair given ih =>
    have ih := ih fun p hp => h p (List.mem_cons_of_mem _ hp)
    rw [List.flatMap_cons, List.flatMap_append, ih]
    cases hrule : pair.1.rule? with
    | none =>
      have hnothing : pair.2.flatMap find = [] :=
        List.flatMap_eq_nil_iff.mpr (h pair List.mem_cons_self hrule)
      rw [List.filter_cons_of_neg (by simp [hrule]), hnothing, List.nil_append]
    | some rule => rw [List.filter_cons_of_pos (by simp [hrule]), List.flatMap_cons, List.flatMap_append]

end Document

theorem Rule.flatMap_writeAll {dialect : Dialect} {rules : List Rule} {find : Text → List Rule} {f : Rule → Rule}
    (h : ∀ rule ∈ rules, ∀ counters, find (rule.write dialect counters) = [f rule]) (counters : Counters) :
    (Rule.writeAll dialect counters rules).1.flatMap find = rules.map f := by
  induction rules generalizing counters with
  | nil => rfl
  | cons rule rules ih =>
    have hrest := ih (fun r hr => h r (List.mem_cons_of_mem _ hr)) (counters.advance rule.subject)
    rw [Rule.writeAll, List.flatMap_cons, h rule List.mem_cons_self, hrest]
    rfl

namespace Document

/-! ## Pieces between kept lines -/

/-- What stands in place of a part of a text: a piece that stands by itself in place of a rule, a kept line in its own
place, and nothing in place of a rule or a blank line. -/
inductive Shown (options : Options) : Content → List Text → Prop
  | written {content : Content} {piece : Text} : content.kept? = none → Stands options (textLines piece) →
      Shown options content [piece]
  | line {line : Text} : textLines line = [line] → contents options [line] = [.verbatim line] →
      Shown options (.verbatim line) [line]
  | omitted {content : Content} : (∀ line ∈ content.kept?, trim line = []) → Shown options content []

/-- The lines of pieces. -/
def linesOf (given : List (Content × List Text)) : List Text := (given.flatMap Prod.snd).flatMap textLines

/-- **The pieces are read one after another**, and the text they make is settled if the text was whose parts they stand
for. Nothing in it closes a block that nothing would have closed before. -/
theorem contents_of_shown {options : Options} {given : List (Content × List Text)}
    (h : ∀ pair ∈ given, Shown options pair.1 pair.2) (hsettled : Settled options (given.map Prod.fst)) :
    contents options (linesOf given) =
        (given.flatMap Prod.snd).flatMap (fun piece => contents options (textLines piece)) ∧
      Settled options (contents options (linesOf given)) ∧
      (Block.close? (kept (given.map Prod.fst)) = none → Block.close? (linesOf given) = none ∧
        Block.close? (kept (contents options (linesOf given))) = none) := by
  induction given with
  | nil =>
    rw [linesOf, List.flatMap_nil, List.flatMap_nil, contents_nil]
    exact ⟨rfl, trivial, fun _ => ⟨rfl, rfl⟩⟩
  | cons pair given ih =>
    obtain ⟨content, pieces⟩ := pair
    obtain ⟨hopen, hsettled⟩ := hsettled
    obtain ⟨hcontents, hrest, hclose⟩ := ih (fun p hp => h p (List.mem_cons_of_mem _ hp)) hsettled
    have hshown : Shown options content pieces := h (content, pieces) List.mem_cons_self
    cases hshown with
    | @written _ piece hnone hstands =>
      have hlines : linesOf ((content, [piece]) :: given) = textLines piece ++ linesOf given := by simp [linesOf]
      have happend := contents_append hstands.closed (linesOf given)
      rw [hlines, happend]
      refine ⟨by rw [hcontents]; simp, hstands.closed.settled_append hrest, fun hkept => ?_⟩
      rw [kept, List.map_cons, List.filterMap_cons_none hnone] at hkept
      obtain ⟨hend, hend'⟩ := hclose hkept
      refine ⟨hstands.passes _ hend, ?_⟩
      rw [kept_append]
      exact Block.passes_of_not_isClosing hstands.unclosing _ hend'
    | @line line hone hkeep =>
      have hlines : linesOf ((.verbatim line, [line]) :: given) = line :: linesOf given := by simp [linesOf, hone]
      -- an opening without an end has none among the pieces, either
      have happend := contents_cons_of_verbatim hkeep ((hopen line rfl).imp id fun hnothing => (hclose hnothing).1)
      rw [hlines, happend]
      refine ⟨by rw [hcontents]; simp [hone, hkeep], ⟨fun l hl => ?_, hrest⟩, fun hkept => ?_⟩
      · cases hl
        exact (hopen line rfl).imp id fun hnothing => (hclose hnothing).2
      · obtain ⟨hclosing, hend⟩ := Block.close?_cons_eq_none_iff.mp hkept
        refine ⟨Block.close?_cons_eq_none_iff.mpr ⟨hclosing, hend.imp id fun h => (hclose h).1⟩, ?_⟩
        exact Block.close?_cons_eq_none_iff.mpr ⟨hclosing, hend.imp id fun h => (hclose h).2⟩
    | omitted hblank =>
      have hlines : linesOf ((content, []) :: given) = linesOf given := by simp [linesOf]
      rw [hlines]
      refine ⟨hcontents, hrest, fun hkept => hclose ?_⟩
      cases hline : content.kept? with
      | none => rwa [kept, List.map_cons, List.filterMap_cons_none hline] at hkept
      | some line =>
        rw [kept, List.map_cons, List.filterMap_cons_some hline] at hkept
        obtain ⟨_, hopens | hend⟩ := Block.close?_cons_eq_none_iff.mp hkept
        · rw [hblank line hline] at hopens
          cases hopens
        · exact hend

/-! ## The rules of a converted text -/

/-- What a node gives stands in its place, if the merged rules stand by themselves. -/
theorem Gives.shown {set : RuleSet} {dialect other : Dialect} {before : List Node} {content : Content}
    {pieces lines : List Text} (h : Gives set dialect before content pieces)
    (hset : ∀ rule ∈ set.rules, ∀ counters, Stands { dialect := other } (textLines (rule.write dialect counters)))
    (hcontent : content ∈ contents { dialect } lines) (hlines : ∀ line ∈ content.lines, OneLine line) :
    Shown { dialect := other } content pieces := by
  have hrule : ∀ {rule}, content.rule? = some rule → content.kept? = none := by
    intro rule hr
    cases content with
    | verbatim => cases hr
    | lineRule => rfl
    | blockRule => rfl
  cases h with
  | entry hr _ hat _ => exact .written (hrule hr) (hset _ (List.mem_of_getElem? hat) _)
  | duplicate hr _ =>
    refine .omitted fun line hl => ?_
    rw [hrule hr] at hl
    cases hl
  | absorbed hd =>
    refine .omitted fun line hl => ?_
    cases hl
    exact hd.2.1
  | @copied line _ =>
    have hone : OneLine line := hlines line (List.mem_singleton_self line)
    exact .line (textLines_of_oneLine hone) (contents_of_mem_contents hcontent other)

/-- No rule is read from what stands in place of a line that was none. -/
theorem Shown.rules_eq_nil {options : Options} {content : Content} {pieces : List Text}
    (h : Shown options content pieces) (hnone : content.rule? = none) :
    ∀ piece ∈ pieces, (contents options (textLines piece)).filterMap Content.rule? = [] := by
  intro piece hm
  cases h with
  | written hkept _ =>
    cases content with
    | verbatim => cases hkept
    | lineRule => cases hnone
    | blockRule => cases hnone
  | @line line hone hkeep =>
    rw [List.mem_singleton.mp hm, hone, hkeep]
    rfl
  | omitted => cases hm

/-- Which blocks are open does not depend on the dialect. -/
theorem settled_of_settled {dialect other : Dialect} {contents : List Content} (h : Settled { dialect } contents) :
    Settled { dialect := other } contents := by
  induction contents with
  | nil => trivial
  | cons content contents ih => exact ⟨h.1, ih h.2⟩

/-- **The pieces of a converted text stand in the places of its parts**, if the merged rules stand by themselves. -/
theorem exists_shown {dialect other : Dialect} {text : Text}
    (hstands : ∀ rule ∈ merge (read { dialect } text).rules, ∀ counters,
      Stands { dialect := other } (textLines (rule.write dialect counters))) :
    ∃ given : List (Content × List Text),
      given.map Prod.fst = contents { dialect } (textLines text) ∧
      textLines (convert { dialect } text) = linesOf given ∧
      (∀ pair ∈ given, Shown { dialect := other } pair.1 pair.2) ∧
      (given.filter (·.1.rule?.isSome)).flatMap Prod.snd =
        (Rule.writeAll dialect {} (merge (read { dialect } text).rules)).1 := by
  obtain ⟨given, hnodes, hconvert, hgives, htexts⟩ := exists_given { dialect } text
  have hmerged := merge_eq_rules (read { dialect } text).rules
  refine ⟨given.map fun pair => (pair.1.content, pair.2), ?_, ?_, ?_, ?_⟩
  · have hcontent : (given.map Prod.fst).map Node.content = (read { dialect } text).nodes.map Node.content := by
      rw [hnodes]
    rw [List.map_map] at hcontent ⊢
    exact hcontent
  · rw [textLines_convert hnodes hconvert hgives, linesOf, List.flatMap_map]
  · intro _ hm
    obtain ⟨pair, hp, rfl⟩ := List.mem_map.mp hm
    obtain ⟨passed, rest, he⟩ := List.append_of_mem hp
    have hnode : pair.1 ∈ (read { dialect } text).nodes := hnodes ▸ List.mem_map_of_mem hp
    exact (hgives passed pair.1 pair.2 rest he).shown (hmerged ▸ hstands) (List.mem_map_of_mem hnode)
      (oneLine_of_mem_nodes hnode)
  · rw [List.filter_map, List.flatMap_map]
    exact htexts

/-- **The rules of a converted text are the merged rules as they are read back.** The dialect that the text is written
in and the one that it is read for may be different. -/
theorem rules_convert {dialect other : Dialect} {text : Text} {f : Rule → Rule}
    (hsettled : Settled { dialect } (contents { dialect } (textLines text)))
    (hread : ∀ rule ∈ merge (read { dialect } text).rules, ∀ counters,
      Stands { dialect := other } (textLines (rule.write dialect counters)) ∧
        (contents { dialect := other } (textLines (rule.write dialect counters))).filterMap Content.rule? = [f rule]) :
    Settled { dialect := other } (contents { dialect := other } (textLines (convert { dialect } text))) ∧
      (read { dialect := other } (convert { dialect } text)).rules =
        (merge (read { dialect } text).rules).map f := by
  obtain ⟨given, hparts, hlines, hshown, htexts⟩ := exists_shown fun rule hr counters => (hread rule hr counters).1
  obtain ⟨hcontents, hconverted, _⟩ := contents_of_shown hshown (hparts ▸ settled_of_settled hsettled)
  rw [← hlines] at hcontents hconverted
  have hnothing : ∀ pair ∈ given, pair.1.rule? = none → ∀ piece ∈ pair.2,
      (contents { dialect := other } (textLines piece)).filterMap Content.rule? = [] := fun pair hp hnone =>
    (hshown pair hp).rules_eq_nil hnone
  refine ⟨hconverted, ?_⟩
  rw [rules_eq_filterMap_contents, hcontents, List.filterMap_flatMap, flatMap_filter_rules hnothing, htexts]
  exact Rule.flatMap_writeAll (fun rule hr counters => (hread rule hr counters).2) {}

end Document

end WindowRules

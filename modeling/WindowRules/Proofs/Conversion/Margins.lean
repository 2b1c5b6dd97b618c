import WindowRules.Proofs.Conversion.Rereading
import WindowRules.Proofs.Reading.Margins

/-!
# Texts in margins

Blanks at the ends of lines are layout: a text with other margins (`Document.Framed`), or with a carriage return before
each newline (`framed_crlf`), has the same rules in the same places with the same problems, and is converted to the same
text, except that a copied line keeps its own margins (`margins_do_not_matter`).

A conversion of both texts runs through their nodes with the same progress, since it looks at the rules of the nodes, at
whether a node is a block, and at whether a line is blank. None of these changes with the margins (`give_alike`), so the
two runs give the same texts in place of rules, and leave out the same blank lines (`exists_given_framed`).
-/

namespace WindowRules

open Text

namespace Document

/-! ## Lines of framed texts -/

/-- The text with a margin at either end of each line. -/
def Framed (text framed : Text) : Prop :=
  ∃ lines, List.Forall₂ Line.Framed (textLines text) lines ∧ framed = ['\n'].intercalate lines

/-- The text with a carriage return before each newline. -/
def crlf (text : Text) : Text := ['\r', '\n'].intercalate (textLines text)

theorem flatMap_textLines_framed {lines framed : List Text} (h : List.Forall₂ Line.Framed lines framed)
    (hlines : ∀ line ∈ lines, OneLine line) : framed.flatMap textLines = framed := by
  induction h with
  | nil => rfl
  | cons hline _ ih =>
    have hone := hline.oneLine (hlines _ List.mem_cons_self)
    have hrest := ih fun line hl => hlines line (List.mem_cons_of_mem _ hl)
    rw [List.flatMap_cons, hrest, textLines_of_oneLine hone, List.singleton_append]

/-- The lines of a framed text are those of the text in margins. -/
theorem Framed.forall₂ {text framed : Text} (h : Framed text framed) :
    List.Forall₂ Line.Framed (textLines text) (textLines framed) := by
  obtain ⟨lines, hlines, rfl⟩ := h
  have hne : lines ≠ [] := by
    intro hnil
    rw [hnil, List.forall₂_nil_right_iff] at hlines
    exact List.splitOn_ne_nil '\n' text hlines
  rw [textLines_intercalate hne, flatMap_textLines_framed hlines fun _ => oneLine_of_mem_textLines]
  exact hlines

/-- Carriage returns before the newlines are margins. -/
theorem exists_intercalate_crlf (lines : List Text) :
    ∃ framed, List.Forall₂ Line.Framed lines framed ∧ ['\r', '\n'].intercalate lines = ['\n'].intercalate framed := by
  induction lines with
  | nil => exact ⟨[], .nil, rfl⟩
  | cons line lines ih =>
    obtain ⟨framed, hlines, hjoin⟩ := ih
    cases hlines with
    | nil => exact ⟨[line], .cons (Line.framed_refl line) .nil, by simp⟩
    | cons hline hlines =>
      have hreturn : Line.Framed line (line ++ ['\r']) := ⟨[], ['\r'], isMargin_nil, by decide, rfl⟩
      refine ⟨_, .cons hreturn (.cons hline hlines), ?_⟩
      rw [List.intercalate_cons_cons, hjoin, List.intercalate_cons_cons]
      simp

theorem framed_crlf (text : Text) : Framed text (crlf text) := exists_intercalate_crlf (textLines text)

/-! ## What two texts give -/

/-- What two nodes with the same content up to margins give: a rule the same texts, and a line that is no rule itself,
or nothing if it is blank. -/
inductive GiveAlike : Node × List Text → Node × List Text → Prop
  | rule {node framed : Node} (texts : List Text) : node.content.rule?.isSome → GiveAlike (node, texts) (framed, texts)
  | absorbed {node framed : Node} : node.content.rule? = none → (∀ line ∈ node.lines, trim line = []) →
      GiveAlike (node, []) (framed, [])
  | copied {node framed : Node} : node.content.rule? = none → GiveAlike (node, node.lines) (framed, framed.lines)

variable {set : RuleSet}

theorem all_blank_framed {lines framed : List Text} (h : List.Forall₂ Line.Framed lines framed) :
    framed.all (trim · == []) = lines.all (trim · == []) := by
  induction h with
  | nil => rfl
  | cons hline _ ih => rw [List.all_cons, List.all_cons, hline.trim_eq, ih]

/-- **A node and its framed node give the same**, and the conversion goes on alike, if the set has the rule. -/
theorem give_alike {node framed : Node} (h : node.Framed framed)
    (hset : ∀ rule, node.content.rule? = some rule → (set.get? rule.signature).isSome) (dialect : Dialect)
    (progress : Progress) :
    GiveAlike (node, (node.content.write set dialect progress).1)
        (framed, (framed.content.write set dialect progress).1) ∧
      (framed.content.write set dialect progress).2 = (node.content.write set dialect progress).2 := by
  cases hrule : node.content.rule? with
  | none =>
    have hframed : framed.content.rule? = none := h.content.rule?_eq.trans hrule
    simp only [Content.write, hrule, hframed, all_blank_framed h.content.lines]
    refine ⟨?_, trivial⟩
    split
    · next hblank =>
      have hall := List.all_eq_true.mp (Bool.and_eq_true_iff.mp hblank).2
      exact .absorbed hrule fun line hl => eq_of_beq (hall line hl)
    · exact .copied hrule
  | some rule =>
    have hframed : framed.content.rule? = some rule := h.content.rule?_eq.trans hrule
    obtain ⟨merged, hmerged⟩ := Option.isSome_iff_exists.mp (hset rule hrule)
    have hwrite : framed.content.write set dialect progress = node.content.write set dialect progress := by
      simp only [Content.write, hrule, hframed, hmerged, h.content.isBlock_eq]
    rw [hwrite]
    exact ⟨.rule _ (Option.isSome_of_eq_some hrule), rfl⟩

/-- Nodes and their framed nodes give the same one after another. -/
theorem exists_given_framed {nodes framed : List Node} (h : List.Forall₂ Node.Framed nodes framed)
    (hset : ∀ rule ∈ rulesOf nodes, (set.get? rule.signature).isSome) (dialect : Dialect) (progress : Progress) :
    ∃ given given' : List (Node × List Text), given.map Prod.fst = nodes ∧ given'.map Prod.fst = framed ∧
      pieces set dialect progress nodes = given.flatMap Prod.snd ∧
      pieces set dialect progress framed = given'.flatMap Prod.snd ∧ List.Forall₂ GiveAlike given given' := by
  induction h generalizing progress with
  | nil => exact ⟨[], [], rfl, rfl, rfl, rfl, .nil⟩
  | @cons node other nodes others hnode _ ih =>
    have hrule : ∀ rule, node.content.rule? = some rule → (set.get? rule.signature).isSome := fun rule hr =>
      hset rule (List.mem_filterMap.mpr ⟨node, List.mem_cons_self, hr⟩)
    obtain ⟨halike, hnext⟩ := give_alike hnode hrule dialect progress
    have hrest : ∀ rule ∈ rulesOf nodes, (set.get? rule.signature).isSome := fun rule hr => by
      obtain ⟨later, hl, hr⟩ := List.mem_filterMap.mp hr
      exact hset rule (List.mem_filterMap.mpr ⟨later, List.mem_cons_of_mem _ hl, hr⟩)
    obtain ⟨given, given', hgiven, hgiven', hpieces, hpieces', hall⟩ :=
      ih hrest (node.content.write set dialect progress).2
    refine ⟨_ :: given, _ :: given', ?_, ?_, ?_, ?_, .cons halike hall⟩
    · rw [List.map_cons, hgiven]
    · rw [List.map_cons, hgiven']
    · rw [pieces_cons, hpieces, List.flatMap_cons]
    · rw [pieces_cons, hnext, hpieces', List.flatMap_cons]

/-! ## Two texts -/

theorem framed_read (options : Options) {text framed : Text} (h : Framed text framed) :
    List.Forall₂ Node.Framed (read options text).nodes (read options framed).nodes :=
  framed_readNodes h.forall₂ 0

theorem rulesOf_framed {nodes framed : List Node} (h : List.Forall₂ Node.Framed nodes framed) :
    rulesOf framed = rulesOf nodes := by
  induction h with
  | nil => rfl
  | cons hnode _ ih =>
    rw [rulesOf, rulesOf, List.filterMap_cons, List.filterMap_cons, hnode.content.rule?_eq, ← rulesOf, ih, rulesOf]

theorem flatMap_problems_framed {nodes framed : List Node} (h : List.Forall₂ Node.Framed nodes framed) :
    framed.flatMap Node.problems = nodes.flatMap Node.problems := by
  induction h with
  | nil => rfl
  | cons hnode _ ih => rw [List.flatMap_cons, List.flatMap_cons, hnode.problems, ih]

/-- A set that the rules were merged into has each of them. -/
theorem isSome_get?_ofRules {rules : List Rule} :
    ∀ rule ∈ rules, ((RuleSet.ofRules rules).get? rule.signature).isSome := by
  intro rule hr
  obtain ⟨merged, hgroup⟩ := Rule.exists_group hr
  rw [RuleSet.get?_ofRules, hgroup]
  rfl

/-- The texts are read and converted alike: the nodes are the same but for the margins of their lines, the problems are
the same, and the nodes give the same texts but for the margins of the lines that are copied. -/
structure ConvertedAlike (options : Options) (text framed : Text) : Prop where
  nodes : List.Forall₂ Node.Framed (read options text).nodes (read options framed).nodes
  problems : (read options framed).problems = (read options text).problems
  converted : ∃ given given' : List (Node × List Text),
    given.map Prod.fst = (read options text).nodes ∧ given'.map Prod.fst = (read options framed).nodes ∧
    convert options text = ['\n'].intercalate (given.flatMap Prod.snd) ∧
    convert options framed = ['\n'].intercalate (given'.flatMap Prod.snd) ∧ List.Forall₂ GiveAlike given given'

theorem convertedAlike_of_framed (options : Options) {text framed : Text} (h : Framed text framed) :
    ConvertedAlike options text framed where
  nodes := framed_read options h
  problems := flatMap_problems_framed (framed_read options h)
  converted := by
    have hnodes := framed_read options h
    have hrules : (read options framed).rules = (read options text).rules := rulesOf_framed hnodes
    obtain ⟨given, given', hgiven, hgiven', hpieces, hpieces', halike⟩ :=
      exists_given_framed hnodes isSome_get?_ofRules options.dialect .start
    refine ⟨given, given', hgiven, hgiven', ?_, ?_, halike⟩
    · rw [convert, writeMerged, write, ← hpieces]
      rfl
    · rw [convert, writeMerged, write, hrules, ← hpieces']
      rfl

end Document

/-- **Indentation and blanks at the ends of lines do not matter.** Blanks other than newlines may be added at both ends
of any lines of a text, and so may a carriage return before each newline: all nodes are the same, in the same places and
with the same rules, the problems are the same with their places and fragments, and the converted text is the same,
except that the lines that are copied keep their margins. -/
theorem margins_do_not_matter (options : Options) (text : Text) :
    Document.Framed text (Document.crlf text) ∧
      ∀ framed, Document.Framed text framed → Document.ConvertedAlike options text framed :=
  ⟨Document.framed_crlf text, fun _ h => Document.convertedAlike_of_framed options h⟩

/-- A rule on one line, a comment and a rule in a block, without margins. -/
def flushText : Text := "windowrule = float, class:a\n# pinned\nwindowrule \x7b\npin = on\nmatch:class = a\n\x7d".toList

/-- The flush text with indentation, closing blanks and carriage returns. -/
def indentedText : Text :=
  ("\twindowrule = float, class:a \r\n\u3000# pinned\r\nwindowrule \x7b \r\n  pin = on\r\n  match:class = a\r\n" ++
    "\x7d\t").toList

/-- The margins of the indented text do not matter. -/
theorem indentedText_converted_alike :
    Document.Framed flushText indentedText ∧ Document.ConvertedAlike {} flushText indentedText := by
  have hlines : Document.textLines flushText = ["windowrule = float, class:a".toList, "# pinned".toList,
      "windowrule \x7b".toList, "pin = on".toList, "match:class = a".toList, "\x7d".toList] := by decide +kernel
  have hframed : Document.Framed flushText indentedText := by
    refine ⟨Document.textLines indentedText, ?_, by decide +kernel⟩
    rw [hlines]
    exact .cons ⟨"\t".toList, " \r".toList, by decide, by decide, by decide⟩ <|
      .cons ⟨"\u3000".toList, "\r".toList, by decide, by decide, by decide⟩ <|
      .cons ⟨[], " \r".toList, by decide, by decide, by decide⟩ <|
      .cons ⟨"  ".toList, "\r".toList, by decide, by decide, by decide⟩ <|
      .cons ⟨"  ".toList, "\r".toList, by decide, by decide, by decide⟩ <|
      .cons ⟨[], "\t".toList, by decide, by decide, by decide⟩ .nil
  exact ⟨hframed, (margins_do_not_matter {} flushText).2 indentedText hframed⟩

end WindowRules

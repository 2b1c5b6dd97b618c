import WindowRules.Proofs.Encoding.Fragments
import WindowRules.Proofs.Reading.OneLine
import WindowRules.Proofs.Reading.Problems
import Mathlib.Data.List.Forall2
import Mathlib.Data.List.TakeWhile

/-!
# Lines in margins

Blanks may stand in front of a line and behind it without a change to what is read (`framed_readNodes`). Most readers
trim a line before they look at it, so that they see one text with the blanks and without (`Line.Framed.trim_eq`). Only
a rule on one line is divided as it stands: there the blanks go to the text before the equals sign and to the last
fragment, since they hold neither an equals sign nor a comma (`Line.Framed.map_parts?`), and both are trimmed then.

The lines that are kept keep their blanks, so the nodes of the two texts are compared and not equal (`Node.Framed`).
-/

namespace WindowRules

open Text

/-! ## Margins -/

/-- Blanks that do not end a line. -/
def Text.IsMargin (s : Text) : Prop := ∀ c ∈ s, isBlank c = true ∧ c ≠ '\n'

namespace Text

instance (s : Text) : Decidable (IsMargin s) := inferInstanceAs (Decidable (∀ c ∈ s, isBlank c = true ∧ c ≠ '\n'))

theorem isMargin_nil : IsMargin [] := nofun

theorem IsMargin.isBlank {s : Text} (h : IsMargin s) : ∀ c ∈ s, isBlank c = true := fun c hc => (h c hc).1

theorem IsMargin.oneLine {s : Text} (h : IsMargin s) : OneLine s := fun hm => (h '\n' hm).2 rfl

/-- No mark that a reader looks for stands in a margin. -/
theorem IsMargin.not_mem {s : Text} (h : IsMargin s) {c : Char} (hc : Text.isBlank c = false) : c ∉ s := fun hm => by
  rw [h.isBlank c hm] at hc
  cases hc

theorem trim_blank_append {s : Text} (h : ∀ c ∈ s, isBlank c = true) (t : Text) : trim (s ++ t) = trim t := by
  induction s with
  | nil => rfl
  | cons c s ih =>
    rw [List.cons_append, trim_cons_blank (h c List.mem_cons_self), ih fun d hd => h d (List.mem_cons_of_mem _ hd)]

theorem trimEnd_append_blank {t : Text} (h : ∀ c ∈ t, isBlank c = true) (s : Text) : trimEnd (s ++ t) = trimEnd s := by
  have hreverse : ∀ c ∈ t.reverse, isBlank c = true := fun c hc => h c (List.mem_reverse.mp hc)
  rw [trimEnd, List.reverse_append, List.dropWhile_append_of_pos hreverse, trimEnd]

theorem trim_append_blank {t : Text} (h : ∀ c ∈ t, isBlank c = true) (s : Text) : trim (s ++ t) = trim s := by
  rw [trim, trimStart, List.dropWhile_append]
  split
  · next hs =>
    -- nothing is left of either text
    have hnil : s.dropWhile isBlank = [] := List.isEmpty_iff.mp hs
    rw [trim, trimStart, hnil, List.dropWhile_eq_nil_iff.mpr h]
  · rw [trimEnd_append_blank h]
    rfl

end Text

/-- A line with a margin at either end. -/
def Line.Framed (line framed : Text) : Prop :=
  ∃ before after, IsMargin before ∧ IsMargin after ∧ framed = before ++ (line ++ after)

/-! ## Rules on one line -/

namespace Comma

/-- What comes behind the last of several texts comes behind the joined text. -/
theorem intercalate_concat_append (sep last t : Text) (parts : List Text) :
    sep.intercalate (parts ++ [last ++ t]) = sep.intercalate (parts ++ [last]) ++ t := by
  induction parts with
  | nil => simp
  | cons part parts ih =>
    rw [List.cons_append, List.cons_append, List.intercalate_cons_of_ne_nil (by simp),
      List.intercalate_cons_of_ne_nil (by simp), ih, List.append_assoc _ _ t]

/-- What comes behind a text without separating anything goes to its last fragment. -/
theorem exists_split_append {t : Text} (h : ',' ∉ t) (s : Text) :
    ∃ parts last, split s = parts ++ [last] ∧ split (s ++ t) = parts ++ [last ++ t] := by
  obtain ⟨parts, last, hsplit⟩ := (List.eq_nil_or_concat (split s)).resolve_left (split_ne_nil s)
  rw [List.concat_eq_append] at hsplit
  obtain ⟨_, hjoin, hescaped, hends⟩ := split_eq_iff.mp hsplit
  have hlast : Escaped (last ++ t) :=
    (hescaped last (by simp)).append (escape_eq_self_of_not_mem h)
  refine ⟨parts, last, hsplit, split_eq_iff.mpr ⟨by simp, ?_, ?_, by simpa using hends⟩⟩
  · rw [intercalate_concat_append, hjoin]
  · intro part hp
    rcases List.mem_append.mp hp with hp | hp
    · exact hescaped part (List.mem_append_left _ hp)
    · rw [List.mem_singleton.mp hp]
      exact hlast

/-- The trimmed fragments are the same if blanks come behind the text. -/
theorem map_trim_split_append {t : Text} (h : IsMargin t) (s : Text) :
    (split (s ++ t)).map trim = (split s).map trim := by
  obtain ⟨parts, last, hs, ht⟩ := exists_split_append (h.not_mem (by decide)) s
  rw [hs, ht, List.map_append, List.map_append, List.map_singleton, List.map_singleton, trim_append_blank h.isBlank]

end Comma

namespace Line

theorem framed_refl (line : Text) : Framed line line := ⟨[], [], isMargin_nil, isMargin_nil, by simp⟩

variable {line framed : Text}

theorem Framed.trim_eq (h : Framed line framed) : trim framed = trim line := by
  obtain ⟨before, after, hbefore, hafter, rfl⟩ := h
  rw [trim_blank_append hbefore.isBlank, trim_append_blank hafter.isBlank]

theorem Framed.oneLine (h : Framed line framed) (hline : OneLine line) : OneLine framed := by
  obtain ⟨before, after, hbefore, hafter, rfl⟩ := h
  exact oneLine_append_iff.mpr ⟨hbefore.oneLine, oneLine_append_iff.mpr ⟨hline, hafter.oneLine⟩⟩

/-- A line in margins is divided at the same equals sign and at the same commas. -/
theorem Framed.map_parts? (h : Framed line framed) :
    (parts? framed).map (Prod.map trim (List.map trim)) = (parts? line).map (Prod.map trim (List.map trim)) := by
  obtain ⟨before, after, hbefore, hafter, rfl⟩ := h
  have hmark : ∀ s, IsMargin s → ∀ c ∈ s, (c == '=') = false := fun s hs c hc =>
    beq_eq_false_iff_ne.mpr fun he => hs.not_mem (by decide) (he ▸ hc)
  cases hcut : cutAt? (· == '=') line with
  | none =>
    have hline := cutAt?_eq_none_iff.mp hcut
    have hframed : cutAt? (· == '=') (before ++ (line ++ after)) = none := by
      rw [cutAt?_eq_none_iff]
      intro c hc
      rcases List.mem_append.mp hc with hc | hc
      · exact hmark before hbefore c hc
      · exact (List.mem_append.mp hc).elim (hline c) (hmark after hafter c)
    rw [parts?, parts?, hcut, hframed]
  | some parts =>
    obtain ⟨head, rest⟩ := parts
    obtain ⟨hhead, mark, heq, rfl⟩ := cutAt?_eq_some_iff.mp hcut
    have hframed : cutAt? (· == '=') (before ++ (head ++ mark :: rest ++ after)) =
        some (before ++ head, rest ++ after) := by
      refine cutAt?_eq_some_iff.mpr ⟨fun c hc => ?_, mark, heq, by simp⟩
      exact (List.mem_append.mp hc).elim (hmark before hbefore c) (hhead c)
    rw [parts?, parts?, hcut, hframed]
    simp only [Option.map_some, Prod.map_apply, trim_blank_append hbefore.isBlank, Comma.map_trim_split_append hafter]

/-- **A line in margins holds the same rule.** -/
theorem Framed.read?_eq (h : Framed line framed) (dialect : Dialect) : read? dialect framed = read? dialect line := by
  have hparts : ∀ s, read? dialect s = ((parts? s).map (Prod.map trim (List.map trim))).bind fun parts =>
      (Subject.ofKeyword? parts.1).map fun subject => ⟨subject, items dialect subject parts.2⟩ := by
    intro s
    rw [read?]
    cases parts? s with
    | none => rfl
    | some parts =>
      obtain ⟨head, fragments⟩ := parts
      simp only [Option.bind_eq_bind, Option.bind_some, Option.map_some, Prod.map_apply]
      cases Subject.ofKeyword? (trim head) <;> rfl
  rw [hparts, hparts, h.map_parts?]

end Line

/-! ## Rules in blocks -/

namespace Block

/-- A block with a margin at either end of each line. -/
structure Framed (block framed : List Text × Text × List Text) : Prop where
  body : List.Forall₂ Line.Framed block.1 framed.1
  closing : Line.Framed block.2.1 framed.2.1
  after : List.Forall₂ Line.Framed block.2.2 framed.2.2

variable {lines framed : List Text}

/-- A block in margins ends at the same line. -/
theorem framed_close? (h : List.Forall₂ Line.Framed lines framed) :
    Option.Rel Framed (close? lines) (close? framed) := by
  induction h with
  | nil => exact .none
  | @cons line other lines others hline hlines ih =>
    rw [close?, close?, hline.trim_eq]
    split
    · exact .some ⟨.nil, hline, hlines⟩
    · split
      · exact .none
      · generalize close? lines = found at ih ⊢
        generalize close? others = found' at ih ⊢
        cases ih with
        | none => exact .none
        | some hparts => exact .some ⟨.cons hline hparts.body, hparts.closing, hparts.after⟩

theorem close?_framed_eq_none (h : List.Forall₂ Line.Framed lines framed) (hnone : close? lines = none) :
    close? framed = none := by
  have hrel := framed_close? h
  rw [hnone] at hrel
  generalize close? framed = found at hrel ⊢
  cases hrel
  rfl

theorem exists_close?_framed (h : List.Forall₂ Line.Framed lines framed) {block : List Text × Text × List Text}
    (hsome : close? lines = some block) : ∃ block', close? framed = some block' ∧ Framed block block' := by
  have hrel := framed_close? h
  rw [hsome] at hrel
  generalize close? framed = found at hrel ⊢
  cases hrel with
  | some hblock => exact ⟨_, rfl, hblock⟩

/-- The items of a body in margins and their problems are the same. -/
theorem readBody_framed (h : List.Forall₂ Line.Framed lines framed) (dialect : Dialect) (subject : Subject)
    (number : Nat) : readBody dialect subject number framed = readBody dialect subject number lines := by
  induction h generalizing number with
  | nil => rfl
  | @cons line other lines others hline _ ih =>
    have hread : readLine? dialect subject number other = readLine? dialect subject number line := by
      rw [readLine?, readLine?, hline.trim_eq]
    rw [readBody_cons_eq, readBody_cons_eq, hread, ih]

end Block

/-! ## Nodes -/

/-- The same was read from lines in margins. -/
inductive Content.Framed : Content → Content → Prop
  | verbatim {line framed : Text} : Line.Framed line framed → Framed (.verbatim line) (.verbatim framed)
  | lineRule (rule : Rule) {line framed : Text} : Line.Framed line framed →
      Framed (.lineRule rule line) (.lineRule rule framed)
  | blockRule (rule : Rule) {opening opening' closing closing' : Text} {body body' : List Text} :
      Line.Framed opening opening' → List.Forall₂ Line.Framed body body' → Line.Framed closing closing' →
      Framed (.blockRule rule opening body closing) (.blockRule rule opening' body' closing')

/-- The same was read from the lines with the same numbers, with the same problems. -/
structure Node.Framed (node framed : Node) : Prop where
  start : framed.start = node.start
  stop : framed.stop = node.stop
  content : node.content.Framed framed.content
  problems : framed.problems = node.problems

namespace Content

variable {content framed : Content}

theorem Framed.rule?_eq (h : content.Framed framed) : framed.rule? = content.rule? := by cases h <;> rfl

theorem Framed.isBlock_eq (h : content.Framed framed) : framed.isBlock = content.isBlock := by cases h <;> rfl

theorem Framed.lines (h : content.Framed framed) : List.Forall₂ Line.Framed content.lines framed.lines := by
  cases h with
  | verbatim hline => exact .cons hline .nil
  | lineRule rule hline => exact .cons hline .nil
  | blockRule rule hopening hbody hclosing => exact .cons hopening (List.rel_append hbody (.cons hclosing .nil))

end Content

namespace Node

/-- Contents that are the same up to margins have as many lines. -/
theorem framed_of_content {node framed : Node} (hstart : framed.start = node.start)
    (h : node.content.Framed framed.content) (hproblems : framed.problems = node.problems) : node.Framed framed where
  start := hstart
  stop := by rw [stop, stop, Node.lines, Node.lines, hstart, h.lines.length_eq]
  content := h
  problems := hproblems

variable {line framed : Text}

theorem framed_ofLine (dialect : Dialect) (start : Nat) (h : Line.Framed line framed) :
    (ofLine dialect start line).Framed (ofLine dialect start framed) := by
  rw [ofLine, ofLine, h.read?_eq]
  cases Line.read? dialect line with
  | none => exact framed_of_content rfl (.verbatim h) rfl
  | some rule => exact framed_of_content rfl (.lineRule rule h) rfl

theorem framed_ofUnterminated (start : Nat) (h : Line.Framed line framed) :
    (ofUnterminated start line).Framed (ofUnterminated start framed) := framed_of_content rfl (.verbatim h) rfl

theorem framed_ofBlock (dialect : Dialect) (subject : Subject) (start : Nat) (hopening : Line.Framed line framed)
    {body body' after after' : List Text} {closing closing' : Text}
    (h : Block.Framed (body, closing, after) (body', closing', after')) :
    (ofBlock dialect subject start line body closing).Framed
      (ofBlock dialect subject start framed body' closing') := by
  rw [ofBlock, ofBlock, Block.readBody_framed h.body]
  exact framed_of_content rfl (.blockRule _ hopening h.body h.closing) rfl

end Node

namespace Document

variable {options : Options}

theorem opening?_framed {line framed : Text} (h : Line.Framed line framed) :
    opening? options framed = opening? options line := by rw [opening?, opening?, h.trim_eq]

/-- **Lines in margins are read as the same nodes.** -/
theorem framed_readNodes {lines framed : List Text} (h : List.Forall₂ Line.Framed lines framed) (start : Nat) :
    List.Forall₂ Node.Framed (readNodes options start lines) (readNodes options start framed) := by
  fun_induction readNodes options start lines generalizing framed with
  | case1 => cases h; simp [readNodes]
  | case2 start line rest hopening ih =>
    cases h with
    | @cons _ other _ others hline hrest =>
      rw [readNodes_of_line ((opening?_framed hline).trans hopening)]
      exact .cons (Node.framed_ofLine _ start hline) (ih hrest)
  | case3 start line rest subject hopening hclose ih =>
    cases h with
    | @cons _ other _ others hline hrest =>
      have hclose' := Block.close?_framed_eq_none hrest hclose
      rw [readNodes_of_unterminated ((opening?_framed hline).trans hopening) hclose']
      exact .cons (Node.framed_ofUnterminated start hline) (ih hrest)
  | case4 start line rest subject hopening body closing after hclose ih =>
    cases h with
    | @cons _ other _ others hline hrest =>
      obtain ⟨⟨body', closing', after'⟩, hclose', hparts⟩ := Block.exists_close?_framed hrest hclose
      rw [readNodes_of_block ((opening?_framed hline).trans hopening) hclose', ← hparts.body.length_eq]
      exact .cons (Node.framed_ofBlock _ subject start hline hparts) (ih hparts.after)

end Document
end WindowRules

import WindowRules.Conversion
import WindowRules.Proofs.Reading.Nodes
import Mathlib.Data.List.Forall2

/-!
# Both dialects recognise the same

The dialect for which a text is read decides how commas are kept, and nothing else of what is recognised
(`dialects_recognise_alike`): the same lines are copied, the same lines make up the same rules, the items have the same
keys and roles in the same places, and the problems are the same. Only the namespace of a layer is a key with commas.

Each reader has a lemma of its own, which compares what it reads for blocks with what it reads for lines. The lists of
items are compared place by place (`List.Forall₂`), and so are the nodes.
-/

namespace WindowRules

open Text

/-! ## What is compared -/

/-- An item that was read for blocks and one that was read for lines were recognised alike: they have one role and one
key, and both are malformed or neither is. A namespace, which is the key of its item, has its commas as each dialect
keeps them. -/
structure Item.Alike (subject : Subject) (forBlock forLine : Item) : Prop where
  role : forBlock.role = forLine.role
  isMalformed : forBlock.isMalformed = forLine.isMalformed
  key : forBlock.key = forLine.key ∨
    subject = .layer ∧ forBlock.role = .selector ∧ forBlock.isMalformed = false ∧
      ∃ name, forBlock.key = Dialect.block.encode name ∧ forLine.key = Dialect.inline.encode name

/-- The rules have one subject, and as many items, which are alike place by place. -/
structure Rule.Alike (forBlock forLine : Rule) : Prop where
  subject : forBlock.subject = forLine.subject
  items : List.Forall₂ (Item.Alike forBlock.subject) forBlock.items forLine.items

/-- The same lines were read as the same kind of part. -/
inductive Content.Alike : Content → Content → Prop
  | verbatim (line : Text) : Alike (.verbatim line) (.verbatim line)
  | lineRule {rule other : Rule} (line : Text) : rule.Alike other → Alike (.lineRule rule line) (.lineRule other line)
  | blockRule {rule other : Rule} (opening : Text) (body : List Text) (closing : Text) : rule.Alike other →
      Alike (.blockRule rule opening body closing) (.blockRule other opening body closing)

/-- The nodes start at one line, were recognised alike and have the same problems. -/
structure Node.Alike (forBlock forLine : Node) : Prop where
  start : forBlock.start = forLine.start
  content : forBlock.content.Alike forLine.content
  problems : forBlock.problems = forLine.problems

namespace Item

theorem Alike.of_eq {subject : Subject} {item other : Item} (hrole : item.role = other.role)
    (hform : item.isMalformed = other.isMalformed) (hkey : item.key = other.key) : Alike subject item other :=
  ⟨hrole, hform, Or.inl hkey⟩

theorem alike_refl (subject : Subject) (item : Item) : Alike subject item item := .of_eq rfl rfl rfl

/-- Malformed items that are alike have one key. -/
theorem Alike.key_of_malformed {subject : Subject} {item other : Item} (h : Alike subject item other)
    (hform : item.isMalformed = true) : item.key = other.key := by
  refine h.key.resolve_right fun ⟨_, _, hwell, _⟩ => ?_
  rw [hform] at hwell
  cases hwell

/-- In lists of items that are alike the malformed ones have the same keys. -/
theorem map_key_malformed {subject : Subject} {items others : List Item}
    (h : List.Forall₂ (Alike subject) items others) :
    (items.filter isMalformed).map key = (others.filter isMalformed).map key := by
  induction h with
  | nil => rfl
  | @cons item other items others h _ ih =>
    cases hform : item.isMalformed with
    | true =>
      have hother : other.isMalformed = true := h.isMalformed ▸ hform
      rw [List.filter_cons_of_pos hform, List.filter_cons_of_pos hother, List.map_cons, List.map_cons, ih,
        h.key_of_malformed hform]
    | false =>
      have hother : other.isMalformed = false := h.isMalformed ▸ hform
      rw [List.filter_cons_of_neg (by simp [hform]), List.filter_cons_of_neg (by simp [hother]), ih]

end Item

/-! ## Fragments -/

namespace Fragment

/-- A flag keeps its key whatever value comes with it. -/
theorem alike_flag (subject : Subject) (key value other : Text) :
    Item.Alike subject (flag .block key value) (flag .inline key other) := by
  unfold flag
  split <;> split <;> exact .of_eq rfl rfl rfl

theorem alike_plainFlag (subject : Subject) (s : Text) :
    Item.Alike subject (plainFlag .block s) (plainFlag .inline s) := alike_flag subject _ _ _

theorem alike_windowFlag (subject : Subject) (s : Text) :
    Item.Alike subject (windowFlag .block s) (windowFlag .inline s) := by
  unfold windowFlag
  simp only
  split
  · exact alike_flag subject _ _ _
  · split <;> exact alike_flag subject _ _ _

theorem alike_selector (subject : Subject) (key value : Text) :
    List.Forall₂ (Item.Alike subject) (selector .block key value).toList (selector .inline key value).toList := by
  unfold selector
  cases Keys.selectorKey key with
  | single newer => exact .cons (.of_eq rfl rfl rfl) .nil
  | pair first second => exact .cons (Item.alike_refl ..) (.cons (Item.alike_refl ..) .nil)

theorem alike_condition (subject : Subject) (fragment s : Text) :
    Item.Alike subject (condition .block fragment s) (condition .inline fragment s) := by
  unfold condition
  split <;> split <;> exact .of_eq rfl rfl rfl

theorem alike_read (subject : Subject) (fragment : Text) :
    List.Forall₂ (Item.Alike subject) (read .block fragment).toList (read .inline fragment).toList := by
  have hsingle : ∀ {item other : Item}, Item.Alike subject item other →
      List.Forall₂ (Item.Alike subject) (Reading.single item).toList (Reading.single other).toList :=
    fun h => .cons h .nil
  unfold read
  simp only
  split
  · exact hsingle (Item.alike_refl ..)
  · split
    · exact hsingle (Item.alike_refl ..)
    · split
      · exact hsingle (alike_condition ..)
      · split
        · split
          · exact hsingle (alike_windowFlag ..)
          · exact alike_selector ..
        · exact hsingle (alike_windowFlag ..)

end Fragment

/-! ## Rules on one line -/

namespace Line

/-- The one place where a key has commas. -/
theorem alike_namespaceSelector (name : Text) :
    Item.Alike .layer (namespaceSelector .block name) (namespaceSelector .inline name) :=
  ⟨rfl, rfl, Or.inr ⟨rfl, rfl, rfl, name, rfl, rfl⟩⟩

theorem alike_newerLayerItem (fragment : Text) :
    Item.Alike .layer (newerLayerItem .block fragment) (newerLayerItem .inline fragment) := by
  unfold newerLayerItem
  split
  · exact Item.alike_refl ..
  · split
    · exact Fragment.alike_plainFlag ..
    · split
      · exact Item.alike_refl ..
      · split
        · exact Item.alike_refl ..
        · exact alike_namespaceSelector _

theorem alike_olderLayerItems (fragments : List Text) :
    List.Forall₂ (Item.Alike .layer) (olderLayerItems .block fragments) (olderLayerItems .inline fragments) := by
  cases fragments with
  | nil => exact .nil
  | cons effect names =>
    refine .cons ?_ ?_
    · split
      · exact Item.alike_refl ..
      · exact Fragment.alike_plainFlag ..
    · rw [List.forall₂_map_left_iff, List.forall₂_map_right_iff, List.forall₂_same]
      intro name _
      split
      · exact Item.alike_refl ..
      · exact alike_namespaceSelector name

theorem alike_items (subject : Subject) (fragments : List Text) :
    List.Forall₂ (Item.Alike subject) (items .block subject fragments) (items .inline subject fragments) := by
  cases subject with
  | window =>
    refine List.rel_flatMap (List.forall₂_same.mpr fun _ _ => rfl) ?_
    rintro fragment _ rfl
    exact Fragment.alike_read .window fragment
  | layer =>
    simp only [items]
    split
    · rw [List.forall₂_map_left_iff, List.forall₂_map_right_iff, List.forall₂_same]
      exact fun fragment _ => alike_newerLayerItem fragment
    · exact alike_olderLayerItems fragments

/-- A line holds a rule for both dialects or for neither. -/
theorem alike_read? (line : Text) : Option.Rel Rule.Alike (read? .block line) (read? .inline line) := by
  simp only [read?, Option.bind_eq_bind]
  cases parts? line with
  | none => exact .none
  | some parts =>
    simp only [Option.bind_some]
    cases Subject.ofKeyword? (trim parts.1) with
    | none => exact .none
    | some subject => exact .some ⟨rfl, alike_items subject _⟩

end Line

/-! ## Rules in blocks -/

/-- An entry gives an item for both dialects or for neither. -/
theorem Entry.alike_item? (subject : Subject) (line : Text) (entry : Entry) :
    Option.Rel (Item.Alike subject) (entry.item? .block subject line) (entry.item? .inline subject line) := by
  unfold Entry.item?
  split
  · exact .none
  · refine .some ?_
    split
    · exact Fragment.alike_flag ..
    · exact Item.alike_refl ..
    · split
      · exact Item.alike_refl ..
      · exact Item.alike_refl ..
      · exact .of_eq rfl rfl rfl
      · exact Line.alike_namespaceSelector _

namespace Block

/-- A line of a body gives items that are alike, with the same problem. -/
theorem alike_readLine? (subject : Subject) (number : Nat) (line : Text) :
    Option.Rel (fun entry other => Item.Alike subject entry.1 other.1 ∧ entry.2 = other.2)
      (readLine? .block subject number line) (readLine? .inline subject number line) := by
  simp only [readLine?]
  split
  · exact .none
  · split
    · exact .some ⟨Item.alike_refl .., rfl⟩
    · next entry _ =>
      have hitem := entry.alike_item? subject (trim line)
      generalize entry.item? .block subject (trim line) = item? at hitem ⊢
      generalize entry.item? .inline subject (trim line) = other? at hitem ⊢
      cases hitem with
      | none => exact .none
      | some halike => exact .some ⟨halike, by simp only [halike.isMalformed]⟩

theorem alike_readBody (subject : Subject) (number : Nat) (body : List Text) :
    List.Forall₂ (fun entry other => Item.Alike subject entry.1 other.1 ∧ entry.2 = other.2)
      (readBody .block subject number body) (readBody .inline subject number body) := by
  refine List.rel_filterMap ?_ (List.forall₂_same.mpr fun _ _ => rfl)
  rintro ⟨line, number⟩ _ rfl
  exact alike_readLine? subject number line

end Block

/-! ## Nodes -/

namespace Node

theorem alike_ofLine (start : Nat) (line : Text) : (ofLine .block start line).Alike (ofLine .inline start line) := by
  have hread := Line.alike_read? line
  unfold ofLine
  generalize Line.read? .block line = rule? at hread ⊢
  generalize Line.read? .inline line = other? at hread ⊢
  cases hread with
  | none => exact ⟨rfl, .verbatim line, rfl⟩
  | some halike =>
    have hkeys := congrArg (List.map (Problem.malformed (start + 1))) (Item.map_key_malformed halike.items)
    rw [List.map_map, List.map_map] at hkeys
    exact ⟨rfl, .lineRule line halike, hkeys⟩

theorem alike_ofBlock (subject : Subject) (start : Nat) (opening : Text) (body : List Text) (closing : Text) :
    (ofBlock .block subject start opening body closing).Alike (ofBlock .inline subject start opening body closing) := by
  have hbody := Block.alike_readBody subject (start + 2) body
  unfold ofBlock
  generalize Block.readBody .block subject (start + 2) body = entries at hbody ⊢
  generalize Block.readBody .inline subject (start + 2) body = others at hbody ⊢
  refine ⟨rfl, .blockRule opening body closing ⟨rfl, ?_⟩, ?_⟩
  · rw [List.forall₂_map_left_iff, List.forall₂_map_right_iff]
    exact hbody.imp fun _ _ h => h.1
  · change entries.filterMap Prod.snd = others.filterMap Prod.snd
    induction hbody with
    | nil => rfl
    | cons h _ ih => rw [List.filterMap_cons, List.filterMap_cons, h.2, ih]

end Node

namespace Document

/-- The nodes that are read for blocks and for lines are related one by one if those of one line and those of one block
are. -/
theorem forall₂_readNodes {R : Node → Node → Prop}
    (hline : ∀ start line, R (.ofLine .block start line) (.ofLine .inline start line))
    (hopen : ∀ start line, R (.ofUnterminated start line) (.ofUnterminated start line))
    (hblock : ∀ subject start opening body closing, R (.ofBlock .block subject start opening body closing)
      (.ofBlock .inline subject start opening body closing)) (options : Options) (start : Nat) (lines : List Text) :
    List.Forall₂ R (readNodes { options with dialect := .block } start lines)
      (readNodes { options with dialect := .inline } start lines) := by
  -- where a block opens is the same for both
  have hopening : ∀ dialect line, opening? { options with dialect } line = opening? options line := fun _ _ => rfl
  fun_induction readNodes options start lines with
  | case1 => simp [readNodes]
  | case2 start line rest h ih =>
    rw [readNodes_of_line ((hopening _ line).trans h), readNodes_of_line ((hopening _ line).trans h)]
    exact .cons (hline start line) ih
  | case3 start line rest subject h hc ih =>
    rw [readNodes_of_unterminated ((hopening _ line).trans h) hc,
      readNodes_of_unterminated ((hopening _ line).trans h) hc]
    exact .cons (hopen start line) ih
  | case4 start line rest subject h body closing after hc ih =>
    rw [readNodes_of_block ((hopening _ line).trans h) hc, readNodes_of_block ((hopening _ line).trans h) hc]
    exact .cons (hblock subject start line body closing) ih

theorem alike_readNodes (options : Options) (start : Nat) (lines : List Text) :
    List.Forall₂ Node.Alike (readNodes { options with dialect := .block } start lines)
      (readNodes { options with dialect := .inline } start lines) :=
  forall₂_readNodes Node.alike_ofLine (fun _ line => ⟨rfl, .verbatim line, rfl⟩) Node.alike_ofBlock options start lines

/-- Nodes that are alike have the same problems. -/
theorem flatMap_problems_eq {nodes others : List Node} (h : List.Forall₂ Node.Alike nodes others) :
    nodes.flatMap Node.problems = others.flatMap Node.problems := by
  induction h with
  | nil => rfl
  | cons h _ ih => rw [List.flatMap_cons, List.flatMap_cons, h.problems, ih]

end Document

/-- **What is recognised in a text does not depend on the dialect.** Read for blocks and for lines, the text has nodes
that are alike one by one: the same lines are copied, the same lines are rules about the same subjects, and the items
agree in number and, place by place, in role, in whether they are malformed, and in their keys up to the commas of
namespaces. The problems are the same, so both dialects accept a text strictly, or both refuse it for the same reason. -/
theorem dialects_recognise_alike (options : Options) (text : Text) :
    List.Forall₂ Node.Alike (Document.read { options with dialect := .block } text).nodes
        (Document.read { options with dialect := .inline } text).nodes ∧
      (Document.read { options with dialect := .block } text).problems =
        (Document.read { options with dialect := .inline } text).problems ∧
      ((∃ converted, convertStrictly { options with dialect := .block } text = .ok converted) ↔
        ∃ converted, convertStrictly { options with dialect := .inline } text = .ok converted) ∧
      ∀ problem, convertStrictly { options with dialect := .block } text = .error problem ↔
        convertStrictly { options with dialect := .inline } text = .error problem := by
  have hnodes := Document.alike_readNodes options 0 (Document.textLines text)
  have hproblems : (Document.read { options with dialect := .block } text).problems =
      (Document.read { options with dialect := .inline } text).problems := Document.flatMap_problems_eq hnodes
  refine ⟨hnodes, hproblems, ?_, fun problem => ?_⟩
  · simp only [convertStrictly, hproblems]
    split <;> simp
  · simp only [convertStrictly, hproblems]
    split <;> simp

end WindowRules

import WindowRules.Document

/-!
# The nodes of a document

What a reader does with the first lines depends on the later ones only where a block is opened: its end has to be looked
for (`close?_eq_some_iff`). So a text without an open block is read on its own, whatever follows it
(`contents_append`).

* `mem_readNodes` — every node is a line that opens no block, an opening without an end, or a block.
* `contents_append` — the contents of lines that are read one after another. Proof: by induction over the reader; a
  block that is closed in the first lines is closed at the same place if more lines follow (`close?_append`).
* `Settled` — the lines of a text may be taken apart even where blocks are left open, if no line closes them later.
-/

namespace WindowRules

/-! ## Bodies of blocks -/

namespace Block

/-- The item on a line of a body. -/
def item? (dialect : Dialect) (subject : Subject) (line : Text) : Option Item :=
  (readLine? dialect subject 0 line).map Prod.fst

theorem map_fst_readLine? (dialect : Dialect) (subject : Subject) (number : Nat) (line : Text) :
    (readLine? dialect subject number line).map Prod.fst = item? dialect subject line := by
  simp only [item?, readLine?]
  split
  · rfl
  · split
    · rfl
    · simp [Function.comp_def]

/-- The items of a body do not depend on its place. -/
theorem map_fst_readBody (dialect : Dialect) (subject : Subject) (number : Nat) (body : List Text) :
    (readBody dialect subject number body).map Prod.fst = body.filterMap (item? dialect subject) := by
  induction body generalizing number with
  | nil => rfl
  | cons line body ih =>
    have hrest := ih (number + 1)
    have hline := map_fst_readLine? dialect subject number line
    rw [readBody] at hrest ⊢
    rw [List.zipIdx_cons, List.filterMap_cons, List.filterMap_cons, ← hline]
    cases hr : readLine? dialect subject number line with
    | none => simpa only [hr, Option.map_none] using hrest
    | some entry => simpa only [hr, Option.map_some, List.map_cons] using congrArg (entry.1 :: ·) hrest

/-- **The end of a block** is the first closing line, if no line before it ends like an opening. -/
theorem close?_eq_some_iff {lines body after : List Text} {closing : Text} :
    close? lines = some (body, closing, after) ↔
      lines = body ++ closing :: after ∧ isClosing (Text.trim closing) = true ∧
        ∀ line ∈ body, isClosing (Text.trim line) = false ∧ endsOpen (Text.trim line) = false := by
  constructor
  · intro h
    induction lines generalizing body with
    | nil => cases h
    | cons line lines ih =>
      rw [close?] at h
      split at h
      · next hc =>
        cases h
        exact ⟨rfl, hc, by simp⟩
      · next hc =>
        split at h
        · cases h
        · next ho =>
          obtain ⟨⟨b, c, a⟩, hb, he⟩ := Option.map_eq_some_iff.mp h
          cases he
          obtain ⟨rfl, hclosing, hbody⟩ := ih hb
          exact ⟨rfl, hclosing, List.forall_mem_cons.mpr ⟨⟨by simpa using hc, by simpa using ho⟩, hbody⟩⟩
  · rintro ⟨rfl, hclosing, hbody⟩
    induction body with
    | nil => simp [close?, hclosing]
    | cons line body ih =>
      obtain ⟨⟨hc, ho⟩, hbody⟩ := List.forall_mem_cons.mp hbody
      rw [List.cons_append, close?, ih hbody]
      simp [hc, ho]

/-- The end of a block is found at the same place if more lines follow. -/
theorem close?_append {lines body after : List Text} {closing : Text} (h : close? lines = some (body, closing, after))
    (more : List Text) : close? (lines ++ more) = some (body, closing, after ++ more) := by
  obtain ⟨rfl, hclosing, hbody⟩ := close?_eq_some_iff.mp h
  exact close?_eq_some_iff.mpr ⟨by simp, hclosing, hbody⟩

theorem close?_cons_eq_none_iff {line : Text} {rest : List Text} :
    close? (line :: rest) = none ↔
      isClosing (Text.trim line) = false ∧ (endsOpen (Text.trim line) = true ∨ close? rest = none) := by
  rw [close?]
  cases isClosing (Text.trim line) <;> cases endsOpen (Text.trim line) <;> simp

/-- The lines close no block that stands open before them. -/
def Passes (lines : List Text) : Prop := ∀ rest, close? rest = none → close? (lines ++ rest) = none

theorem passes_of_not_isClosing {lines : List Text} (h : ∀ line ∈ lines, isClosing (Text.trim line) = false) :
    Passes lines := by
  intro rest hrest
  induction lines with
  | nil => exact hrest
  | cons line lines ih =>
    have htail := ih fun l hl => h l (List.mem_cons_of_mem _ hl)
    exact close?_cons_eq_none_iff.mpr ⟨h line List.mem_cons_self, Or.inr htail⟩

/-- A line that opens a block ends the search for the end of the block before it. -/
theorem passes_of_endsOpen {line : Text} (hc : isClosing (Text.trim line) = false) (ho : endsOpen (Text.trim line))
    (lines : List Text) : Passes (line :: lines) := fun _ _ => close?_cons_eq_none_iff.mpr ⟨hc, Or.inl ho⟩

end Block

/-- The line, if it was kept. -/
def Content.kept? : Content → Option Text
  | .verbatim line => some line
  | _ => none

/-- What a line is read as that opens no block. -/
def Content.ofLine (dialect : Dialect) (line : Text) : Content :=
  match Line.read? dialect line with
  | none => .verbatim line
  | some rule => .lineRule rule line

theorem Node.content_ofLine (dialect : Dialect) (start : Nat) (line : Text) :
    (Node.ofLine dialect start line).content = .ofLine dialect line := by
  rw [Node.ofLine, Content.ofLine]
  cases Line.read? dialect line <;> rfl

theorem Node.content_ofBlock (dialect : Dialect) (subject : Subject) (start : Nat) (opening : Text) (body : List Text)
    (closing : Text) : (Node.ofBlock dialect subject start opening body closing).content =
      .blockRule ⟨subject, body.filterMap (Block.item? dialect subject)⟩ opening body closing := by
  rw [Node.ofBlock, Block.map_fst_readBody]

namespace Document

/-- The lines of a text are those before a newline and those behind it. -/
theorem textLines_append (text more : Text) : textLines (text ++ '\n' :: more) = textLines text ++ textLines more :=
  List.splitOn_append_cons_of_beq text _ (by decide)

/-! ## One node after another -/

theorem readNodes_of_line {options : Options} {line : Text} (h : opening? options line = none) (start : Nat)
    (rest : List Text) : readNodes options start (line :: rest) =
      .ofLine options.dialect start line :: readNodes options (start + 1) rest := by
  rw [readNodes]
  split
  · rfl
  · next subject hs => rw [h] at hs; cases hs

theorem readNodes_of_unterminated {options : Options} {line : Text} {subject : Subject} {rest : List Text}
    (h : opening? options line = some subject) (hc : Block.close? rest = none) (start : Nat) :
    readNodes options start (line :: rest) = .ofUnterminated start line :: readNodes options (start + 1) rest := by
  rw [readNodes]
  split
  · next hs => rw [h] at hs; cases hs
  · split
    · rfl
    · next hb => rw [hc] at hb; cases hb

theorem readNodes_of_block {options : Options} {line closing : Text} {subject : Subject} {rest body after : List Text}
    (h : opening? options line = some subject) (hc : Block.close? rest = some (body, closing, after)) (start : Nat) :
    readNodes options start (line :: rest) = .ofBlock options.dialect subject start line body closing ::
      readNodes options (start + (body.length + 2)) after := by
  rw [readNodes]
  split
  · next hs => rw [h] at hs; cases hs
  · next hs =>
    rw [h] at hs
    cases hs
    split
    · next hb => rw [hc] at hb; cases hb
    · next hb =>
      rw [hc] at hb
      cases hb
      rfl

/-- **The three kinds of nodes.** -/
theorem mem_readNodes {options : Options} {start : Nat} {lines : List Text} {node : Node}
    (h : node ∈ readNodes options start lines) :
    (∃ index line, opening? options line = none ∧ node = .ofLine options.dialect index line) ∨
      (∃ index line subject, opening? options line = some subject ∧ node = .ofUnterminated index line) ∨
      ∃ subject index opening body closing, opening? options opening = some subject ∧
        node = .ofBlock options.dialect subject index opening body closing := by
  fun_induction readNodes options start lines with
  | case1 => cases h
  | case2 start line rest ho ih =>
    rcases List.mem_cons.mp h with rfl | h
    · exact Or.inl ⟨start, line, ho, rfl⟩
    · exact ih h
  | case3 start line rest subject ho hc ih =>
    rcases List.mem_cons.mp h with rfl | h
    · exact Or.inr (Or.inl ⟨start, line, subject, ho, rfl⟩)
    · exact ih h
  | case4 start line rest subject ho body closing after hc ih =>
    rcases List.mem_cons.mp h with rfl | h
    · exact Or.inr (Or.inr ⟨subject, start, line, body, closing, ho, rfl⟩)
    · exact ih h

/-! ## Contents -/

/-- What the lines are read as, part by part. -/
def contents (options : Options) (lines : List Text) : List Content := (readNodes options 0 lines).map Node.content

/-- What lines are read as does not depend on their place. -/
theorem map_content_readNodes (options : Options) (start : Nat) (lines : List Text) :
    (readNodes options start lines).map Node.content = contents options lines := by
  have hplace : ∀ start other, (readNodes options start lines).map Node.content =
      (readNodes options other lines).map Node.content := by
    intro start
    fun_induction readNodes options start lines with
    | case1 => simp [readNodes]
    | case2 start line rest h ih =>
      intro other
      rw [readNodes_of_line h, List.map_cons, List.map_cons, ih (other + 1), Node.content_ofLine, Node.content_ofLine]
    | case3 start line rest subject h hc ih =>
      intro other
      rw [readNodes_of_unterminated h hc, List.map_cons, List.map_cons, ih (other + 1)]
      rfl
    | case4 start line rest subject h body closing after hc ih =>
      intro other
      rw [readNodes_of_block h hc, List.map_cons, List.map_cons, ih (other + (body.length + 2)), Node.content_ofBlock,
        Node.content_ofBlock]
  exact hplace start 0

theorem contents_nil (options : Options) : contents options [] = [] := by simp [contents, readNodes]

theorem contents_of_line {options : Options} {line : Text} (h : opening? options line = none) (rest : List Text) :
    contents options (line :: rest) = .ofLine options.dialect line :: contents options rest := by
  rw [contents, readNodes_of_line h, List.map_cons, Node.content_ofLine, map_content_readNodes]

theorem contents_of_unterminated {options : Options} {line : Text} {subject : Subject} {rest : List Text}
    (h : opening? options line = some subject) (hc : Block.close? rest = none) :
    contents options (line :: rest) = .verbatim line :: contents options rest := by
  rw [contents, readNodes_of_unterminated h hc, List.map_cons, map_content_readNodes]
  rfl

theorem contents_of_block {options : Options} {line closing : Text} {subject : Subject} {rest body after : List Text}
    (h : opening? options line = some subject) (hc : Block.close? rest = some (body, closing, after)) :
    contents options (line :: rest) =
      .blockRule ⟨subject, body.filterMap (Block.item? options.dialect subject)⟩ line body closing ::
        contents options after := by
  rw [contents, readNodes_of_block h hc, List.map_cons, Node.content_ofBlock, map_content_readNodes]

theorem rules_eq_filterMap_contents (options : Options) (text : Text) :
    (read options text).rules = (contents options (textLines text)).filterMap Content.rule? := by
  rw [contents, List.filterMap_map]
  rfl

/-- A line is read on its own if the lines after it close no block. -/
theorem contents_cons_of_close? (options : Options) (line : Text) {rest : List Text} (h : Block.close? rest = none) :
    contents options (line :: rest) = contents options [line] ++ contents options rest := by
  cases ho : opening? options line with
  | none => rw [contents_of_line ho, contents_of_line ho, contents_nil, List.singleton_append]
  | some subject =>
    rw [contents_of_unterminated ho h, contents_of_unterminated ho rfl, contents_nil, List.singleton_append]

/-! ## Texts without an open block -/

/-- No line that was kept opens a block. -/
def Closed (options : Options) (contents : List Content) : Prop :=
  ∀ line, .verbatim line ∈ contents → opening? options line = none

/-- **Lines without an open block are read on their own**, whatever lines follow. -/
theorem contents_append {options : Options} {lines : List Text} (h : Closed options (contents options lines))
    (more : List Text) : contents options (lines ++ more) = contents options lines ++ contents options more := by
  induction hn : lines.length using Nat.strongRecOn generalizing lines with
  | _ n ih =>
    cases lines with
    | nil => rw [List.nil_append, contents_nil, List.nil_append]
    | cons line rest =>
      have hrest : ∀ {first contents'}, contents options (line :: rest) = first :: contents' →
          Closed options contents' := fun he kept hk => h kept (he ▸ List.mem_cons_of_mem _ hk)
      cases ho : opening? options line with
      | none =>
        have hcontents := contents_of_line ho rest
        have htail := ih rest.length (by simp [← hn]) (hrest hcontents) rfl
        rw [List.cons_append, contents_of_line ho, htail, hcontents, List.cons_append]
      | some subject =>
        cases hc : Block.close? rest with
        | none =>
          have hcontents := contents_of_unterminated ho hc
          have hopen := h line (hcontents ▸ List.mem_cons_self)
          rw [ho] at hopen
          cases hopen
        | some parts =>
          obtain ⟨body, closing, after⟩ := parts
          have hcontents := contents_of_block ho hc
          have hshort : after.length < n := by
            rw [← hn, List.length_cons, Block.eq_of_close? hc, List.length_append, List.length_cons]
            omega
          have htail := ih after.length hshort (hrest hcontents) rfl
          rw [List.cons_append, contents_of_block ho (Block.close?_append hc more), htail, hcontents, List.cons_append]

/-! ## Texts with open blocks that nothing closes -/

/-- The lines that were kept. -/
def kept (contents : List Content) : List Text := contents.filterMap Content.kept?

@[simp] theorem kept_append (contents others : List Content) : kept (contents ++ others) = kept contents ++ kept others :=
  List.filterMap_append

/-- The end of no block that is left open is found among the lines that were kept after it. -/
def Settled (options : Options) : List Content → Prop
  | [] => True
  | content :: rest =>
    (∀ line ∈ content.kept?, opening? options line = none ∨ Block.close? (kept rest) = none) ∧ Settled options rest

/-- Without an open block there is nothing to be closed. -/
theorem Closed.settled_append {options : Options} {contents others : List Content} (h : Closed options contents)
    (hothers : Settled options others) : Settled options (contents ++ others) := by
  induction contents with
  | nil => exact hothers
  | cons content contents ih =>
    refine ⟨fun line hl => Or.inl (h line ?_), ih fun line hl => h line (List.mem_cons_of_mem _ hl)⟩
    cases content <;> cases hl
    exact List.mem_cons_self

/-- The lines leave no block open, and close none that stands open before them. -/
structure Stands (options : Options) (lines : List Text) : Prop where
  closed : Closed options (contents options lines)
  unclosing : ∀ line ∈ kept (contents options lines), Block.isClosing (Text.trim line) = false
  passes : Block.Passes lines

end Document

/-! ## Problems of open blocks -/

/-- The problem is a block that is never closed. -/
def Problem.isUnterminated : Problem → Bool
  | .unterminated _ => true
  | _ => false

namespace Document

/-- **Without a problem of an open block, no kept line opens one.** -/
theorem closed_of_problems {options : Options} {text : Text}
    (h : ∀ problem ∈ (read options text).problems, problem.isUnterminated = false) :
    Closed options (contents options (textLines text)) := by
  intro line hline
  obtain ⟨node, hnode, hcontent⟩ := List.mem_map.mp hline
  rcases mem_readNodes hnode with ⟨index, source, ho, rfl⟩ | ⟨index, source, subject, _, rfl⟩ |
    ⟨subject, index, opening, body, closing, _, rfl⟩
  · rw [Node.content_ofLine, Content.ofLine] at hcontent
    split at hcontent
    · cases hcontent
      exact ho
    · cases hcontent
  · have hproblem : Problem.unterminated (index + 1) ∈ (read options text).problems :=
      List.mem_flatMap.mpr ⟨_, hnode, List.mem_singleton_self _⟩
    have := h _ hproblem
    cases this
  · cases hcontent

theorem settled_of_problems {options : Options} {text : Text}
    (h : ∀ problem ∈ (read options text).problems, problem.isUnterminated = false) :
    Settled options (contents options (textLines text)) := by
  have hnothing : Settled options [] := trivial
  have hsettled := (closed_of_problems h).settled_append hnothing
  rwa [List.append_nil] at hsettled

end Document

end WindowRules

import WindowRules.Line
import WindowRules.Proofs.Encoding.Fragments
import WindowRules.Proofs.Grammar.Expressions

/-!
# The grammar of rules on one line

A rule on one line is a head, an equals sign and fragments between commas; a fragment takes every comma that has a
backslash before it, and stops in front of every other one (`Grammar.lineRule`). The reader of lines divides a line as
this grammar does (`matches_lineRule_iff`), that is at its first equals sign and behind it at the commas without
backslashes (`Line.Divided`), and in no other way (`line_is_divided`).

* `matches_fragment` — a fragment is the first piece of the split text. Proof: by the recursion of the split, since the
  grammar and the split take the same characters together.
* `matches_fragments` — so the fragments are the pieces, by induction on their number.
-/

namespace WindowRules

open Text

namespace Grammar

/-! ## The grammar -/

/-- A comma with a backslash before it. -/
def escapedComma : Expression := .seq (.literal '\\') (.literal ',')

/-- What is between two commas that separate. -/
def fragment : Expression := .token .fragment (.star (.choice escapedComma (.anyBut (.literal ','))))

/-- One fragment and those behind the following commas. -/
def fragments : Expression := .seq fragment (.star (.seq (.literal ',') fragment))

/-- What is before the first equals sign. -/
def head : Expression := .token .head (.star (.anyBut (.literal '=')))

/-- **A rule on one line.** -/
def lineRule : Expression := .seq head (.seq (.literal '=') (.seq fragments .finish))

/-- The tokens of a rule on one line. -/
def lineTokens (head : Text) (fragments : List Text) : List Token := ⟨.head, head⟩ :: fragments.map (⟨.fragment, ·⟩)

/-! ## Fragments -/

theorem fails_literal {c d : Char} (h : d ≠ c) (s : Text) : Fails (.literal c) (d :: s) :=
  (spots_char (· == c)).other (by simpa using h) s

theorem fails_escapedComma {c : Char} {s : Text} (h : c = '\\' → s.head? ≠ some ',') : Fails escapedComma (c :: s) := by
  by_cases hc : c = '\\'
  · subst hc
    have hcomma : Fails (.literal ',') s := by
      cases s with
      | nil => exact (spots_char _).nil
      | cons d s => exact fails_literal (fun hd => h rfl (by rw [hd]; rfl)) s
    exact (matches_literal '\\' s).seq_fails hcomma
  · exact (fails_literal hc s).seq

/-- Where a fragment stops. -/
theorem fails_fragmentPart {s : Text} (h : ∀ c ∈ s.head?, c = ',') :
    Fails (.choice escapedComma (.anyBut (.literal ','))) s := by
  cases s with
  | nil => exact (Fails.seq (spots_char _).nil).choice ⟨_, (spots_char _).anyBut_nil⟩
  | cons c s =>
    obtain rfl : c = ',' := h c rfl
    exact (fails_escapedComma fun hc => by cases hc).choice ⟨_, (spots_char _).anyBut_fails (by decide) s⟩

/-- **A fragment is the first piece of the split text.** It stops at the end of the text, or in front of the comma that
separates it from the other pieces. -/
theorem matches_fragment {s first : Text} {others : List Text} (h : Comma.split s = first :: others) :
    ∃ rest, Matches fragment s rest [⟨.fragment, first⟩] ∧
      (others = [] ∧ rest = [] ∨ ∃ t, rest = ',' :: t ∧ Comma.split t = others) := by
  have hbody : ∃ rest, s = first ++ rest ∧
      Matches (.star (.choice escapedComma (.anyBut (.literal ',')))) s rest [] ∧
      (others = [] ∧ rest = [] ∨ ∃ t, rest = ',' :: t ∧ Comma.split t = others) := by
    fun_induction Comma.split s generalizing first with
    | case1 =>
      cases h
      exact ⟨[], rfl, (fails_fragmentPart (by simp)).star, Or.inl ⟨rfl, rfl⟩⟩
    | case2 s ih =>
      obtain ⟨start, parts, hs⟩ := List.exists_cons_of_ne_nil (Comma.split_ne_nil s)
      rw [hs, List.modifyHead_cons] at h
      obtain ⟨rfl, rfl⟩ := List.cons.inj h
      obtain ⟨rest, hrest, hmatch, hstop⟩ := ih hs
      have hcomma := (matches_literal '\\' (',' :: s)).seq (matches_literal ',' s)
      exact ⟨rest, by rw [hrest]; rfl, hcomma.choice_first.star hmatch, hstop⟩
    | case3 s ih =>
      obtain ⟨rfl, rfl⟩ := List.cons.inj h
      exact ⟨',' :: s, rfl, (fails_fragmentPart (by simp)).star, Or.inr ⟨s, rfl, rfl⟩⟩
    | case4 c s hback hcomma ih =>
      obtain ⟨start, parts, hs⟩ := List.exists_cons_of_ne_nil (Comma.split_ne_nil s)
      rw [hs, List.modifyHead_cons] at h
      obtain ⟨rfl, rfl⟩ := List.cons.inj h
      obtain ⟨rest, hrest, hmatch, hstop⟩ := ih hs
      have hfails := fails_escapedComma (Comma.head?_ne_comma hback)
      have hany := (spots_char (· == ',')).runs_anyBut (by simpa using hcomma) s
      exact ⟨rest, by rw [hrest]; rfl, (hfails.choice_second ⟨_, hany⟩).star hmatch, hstop⟩
  obtain ⟨rest, rfl, hmatch, hstop⟩ := hbody
  exact ⟨rest, hmatch.token, hstop⟩

/-- The fragments behind commas are the pieces of the split text. -/
theorem matches_moreFragments {s : Text} {parts : List Text} (h : Comma.split s = parts) :
    Matches (.star (.seq (.literal ',') fragment)) (',' :: s) [] (parts.map (⟨.fragment, ·⟩)) := by
  induction parts generalizing s with
  | nil => exact absurd h (Comma.split_ne_nil s)
  | cons first others ih =>
    obtain ⟨rest, hfirst, hstop⟩ := matches_fragment h
    have hpiece := (matches_literal ',' s).seq hfirst
    rcases hstop with ⟨rfl, rfl⟩ | ⟨t, rfl, ht⟩
    · exact hpiece.star (Fails.seq (spots_char _).nil).star
    · exact hpiece.star (ih ht)

/-- **The fragments of the grammar are the pieces of the split text.** -/
theorem matches_fragments (s : Text) : Matches fragments s [] ((Comma.split s).map (⟨.fragment, ·⟩)) := by
  obtain ⟨first, others, hs⟩ := List.exists_cons_of_ne_nil (Comma.split_ne_nil s)
  obtain ⟨rest, hfirst, hstop⟩ := matches_fragment hs
  rw [hs]
  rcases hstop with ⟨rfl, rfl⟩ | ⟨t, rfl, ht⟩
  · exact hfirst.seq (Fails.seq (spots_char _).nil).star
  · exact hfirst.seq (matches_moreFragments ht)

/-! ## Lines -/

/-- The head is what stands before the first equals sign. -/
theorem matches_head {s before rest : Text} (hbefore : '=' ∉ before) (hs : s = before ++ rest)
    (hrest : ∀ c ∈ rest.head?, c = '=') : Matches head s rest [⟨.head, before⟩] := by
  subst hs
  have hrun := (spots_char (· == '=')).runs_star_anyBut (before ++ rest)
  have hdrop : (before ++ rest).dropWhile (!· == '=') = rest :=
    dropWhile_append_eq (fun c hc => by simpa using fun (he : c = '=') => hbefore (he ▸ hc))
      fun c hc => by simpa using hrest c hc
  rw [hdrop] at hrun
  exact Matches.token ⟨_, hrun⟩

end Grammar

/-- A subject is told by its keyword at the beginning of the text. -/
theorem Subject.exists_ofKeyword?_iff {s : Text} : (∃ subject, ofKeyword? s = some subject) ↔
    "windowrule".toList <+: s ∨ "layerrule".toList <+: s := by
  constructor
  · rintro ⟨subject, h⟩
    unfold ofKeyword? at h
    split at h
    · next hw => exact Or.inl (List.isPrefixOf_iff_prefix.mp hw)
    · split at h
      · next hl => exact Or.inr (List.isPrefixOf_iff_prefix.mp hl)
      · cases h
  · rintro (⟨ending, rfl⟩ | ⟨ending, rfl⟩)
    · exact ⟨.window, ofKeyword?_append .window ending⟩
    · exact ⟨.layer, ofKeyword?_append .layer ending⟩

namespace Line

/-- **How a line is divided**: at its first equals sign, and behind it at commas, such that every other comma stands
directly behind a backslash of its fragment and no comma that divides does. -/
structure Divided (line head : Text) (fragments : List Text) : Prop where
  not_mem : '=' ∉ head
  eq : line = head ++ '=' :: [','].intercalate fragments
  ne_nil : fragments ≠ []
  escaped : ∀ fragment ∈ fragments, ∀ before after, fragment = before ++ ',' :: after → before.getLast? = some '\\'
  last : ∀ fragment ∈ fragments.dropLast, fragment.getLast? ≠ some '\\'

/-- **The reader divides a line in this way**, and there is no other. -/
theorem parts?_eq_some_iff {line head : Text} {fragments : List Text} :
    parts? line = some (head, fragments) ↔ Divided line head fragments := by
  have hsplit : ∀ rest : Text, Comma.split rest = fragments ↔ fragments ≠ [] ∧ [','].intercalate fragments = rest ∧
      (∀ fragment ∈ fragments, ∀ before after, fragment = before ++ ',' :: after → before.getLast? = some '\\') ∧
      ∀ fragment ∈ fragments.dropLast, fragment.getLast? ≠ some '\\' := by
    intro rest
    simp only [Comma.split_eq_iff, Comma.escaped_iff]
  simp only [parts?, Option.map_eq_some_iff, Prod.exists, Prod.mk.injEq, cutAt?_eq_some_iff, beq_iff_eq, hsplit]
  constructor
  · rintro ⟨before, rest, ⟨hbefore, c, rfl, hline⟩, rfl, hne, rfl, hescaped, hlast⟩
    exact ⟨fun hm => by simpa using hbefore '=' hm, hline, hne, hescaped, hlast⟩
  · intro h
    refine ⟨head, _, ⟨fun c hc => ?_, '=', rfl, h.eq⟩, rfl, h.ne_nil, rfl, h.escaped, h.last⟩
    simpa using fun (he : c = '=') => h.not_mem (he ▸ hc)

theorem parts?_eq_none_iff {line : Text} : parts? line = none ↔ '=' ∉ line := by
  rw [← Option.not_isSome_iff_eq_none, parts?_isSome_iff]

/-- The grammar matches what the reader divides. -/
theorem matches_lineRule {line head : Text} {fragments : List Text} (h : parts? line = some (head, fragments)) :
    Grammar.Matches Grammar.lineRule line [] (Grammar.lineTokens head fragments) := by
  obtain ⟨⟨before, rest⟩, hcut, heq⟩ := Option.map_eq_some_iff.mp h
  obtain ⟨rfl, rfl⟩ := Prod.mk.inj heq
  obtain ⟨hbefore, c, hc, hline⟩ := cutAt?_eq_some_iff.mp hcut
  obtain rfl : c = '=' := by simpa using hc
  have hhead := Grammar.matches_head (fun hm => by simpa using hbefore '=' hm) hline (by simp)
  have hfragments := (Grammar.matches_fragments rest).seq ⟨_, .finish⟩
  have hmatch := hhead.seq ((Grammar.matches_literal '=' rest).seq hfragments)
  simpa [Grammar.lineRule, Grammar.lineTokens] using hmatch

theorem fails_lineRule {line : Text} (h : '=' ∉ line) : Grammar.Fails Grammar.lineRule line := by
  have hhead := Grammar.matches_head h (List.append_nil line).symm (by simp)
  exact hhead.seq_fails (Grammar.Fails.seq (Grammar.spots_char _).nil)

/-- **The reader and the grammar agree**: what the grammar matches is what the reader divides, and the rest is empty. -/
theorem matches_lineRule_iff {line rest : Text} {tokens : List Grammar.Token} :
    Grammar.Matches Grammar.lineRule line rest tokens ↔
      ∃ head fragments, parts? line = some (head, fragments) ∧ rest = [] ∧
        tokens = Grammar.lineTokens head fragments := by
  constructor
  · intro h
    cases hparts : parts? line with
    | none => exact absurd (fails_lineRule (parts?_eq_none_iff.mp hparts)) h.not_fails
    | some parts =>
      obtain ⟨rfl, rfl⟩ := h.unique (matches_lineRule hparts)
      exact ⟨parts.1, parts.2, rfl, rfl, rfl⟩
  · rintro ⟨head, fragments, hparts, rfl, rfl⟩
    exact matches_lineRule hparts

/-- A line holds a rule exactly if it is divided behind a head that begins with the keyword of a rule. -/
theorem isSome_read?_iff {dialect : Dialect} {line : Text} :
    (read? dialect line).isSome = true ↔ ∃ head fragments, Divided line head fragments ∧
      ("windowrule".toList <+: trim head ∨ "layerrule".toList <+: trim head) := by
  simp only [read?, Option.bind_eq_bind, Option.isSome_iff_exists, Option.bind_eq_some_iff, Prod.exists,
    ← Subject.exists_ofKeyword?_iff, ← parts?_eq_some_iff]
  constructor
  · rintro ⟨rule, head, fragments, hparts, subject, hsubject, _⟩
    exact ⟨head, fragments, hparts, subject, hsubject⟩
  · rintro ⟨head, fragments, hparts, subject, hsubject⟩
    exact ⟨_, head, fragments, hparts, subject, hsubject, rfl⟩

end Line

/-- **How a line is told apart.** The grammar of rules on one line matches a line exactly if it has an equals sign, and
fails otherwise. It gives the head and the fragments that the reader of lines takes. They are the text before the first
equals sign, and the only texts that give what is behind it when they are joined with commas, such that each comma
inside one has a backslash directly before it and none but the last ends with a backslash. The line holds a rule exactly
if besides the trimmed head begins with the keyword of a rule. -/
theorem line_is_divided (line : Text) :
    ((∃ rest tokens, Grammar.Matches Grammar.lineRule line rest tokens) ↔ '=' ∈ line) ∧
      (Grammar.Fails Grammar.lineRule line ↔ '=' ∉ line) ∧
      (∀ rest tokens, Grammar.Matches Grammar.lineRule line rest tokens ↔
        ∃ head fragments, Line.Divided line head fragments ∧ rest = [] ∧ tokens = Grammar.lineTokens head fragments) ∧
      (∀ head fragments, Line.parts? line = some (head, fragments) ↔ Line.Divided line head fragments) ∧
      (∀ head fragments other others, Line.Divided line head fragments → Line.Divided line other others →
        head = other ∧ fragments = others) ∧
      ∀ dialect, (Line.read? dialect line).isSome = true ↔ ∃ head fragments, Line.Divided line head fragments ∧
        ("windowrule".toList <+: trim head ∨ "layerrule".toList <+: trim head) := by
  have hmatches : (∃ rest tokens, Grammar.Matches Grammar.lineRule line rest tokens) ↔ '=' ∈ line := by
    rw [← Line.parts?_isSome_iff, Option.isSome_iff_exists]
    simp [Line.matches_lineRule_iff]
  refine ⟨hmatches, ⟨?_, Line.fails_lineRule⟩, ?_, ?_, ?_, ?_⟩
  · intro hfails heq
    obtain ⟨rest, tokens, h⟩ := hmatches.mpr heq
    exact h.not_fails hfails
  · intro rest tokens
    simp only [Line.matches_lineRule_iff, Line.parts?_eq_some_iff]
  · exact fun head fragments => Line.parts?_eq_some_iff
  · intro head fragments other others h hother
    have hsame := (Line.parts?_eq_some_iff.mpr h).symm.trans (Line.parts?_eq_some_iff.mpr hother)
    cases hsame
    exact ⟨rfl, rfl⟩
  · exact fun dialect => Line.isSome_read?_iff

end WindowRules

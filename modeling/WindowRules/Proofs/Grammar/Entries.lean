import WindowRules.Block
import WindowRules.Proofs.Grammar.Expressions
import WindowRules.Proofs.Text.Words

/-!
# The grammar of entries

An entry of a block is a key, and mostly an equals sign and a value; spaces and tabs may stand around the equals sign
(`Grammar.blockEntry`). What the grammar does with a line can be told from the longest beginning of the line that can be
a key, the spaces and tabs behind it and the rest (`Entry.Cut`): the line is no entry exactly if the key is empty or the
rest begins with something else than an equals sign, and then the grammar comes no further than to that place
(`Entry.Cut.runs_missingKey`, `Entry.Cut.runs_stray`).

* `Entry.Cut.read_missingKey`, `Entry.Cut.read_key`, `Entry.Cut.read_value`, `Entry.Cut.read_stray` — the reader of
  entries looks at the same three pieces.
* `Entry.exists_error_iff`, `Entry.Cut.exists_fault` — so the reader refuses a line exactly if the grammar does, and
  tells the column of the furthest place to which the grammar comes.
-/

namespace WindowRules

open Text

namespace Grammar

/-! ## The grammar -/

/-- A space or a tab. -/
def blank : Expression := .char isSpaceOrTab

/-- The text in front of the first equals sign, space or tab. -/
def key : Expression := .token .key (.plus (.anyBut (.choice (.literal '=') blank)))

/-- An equals sign and the text behind it. -/
def value : Expression := .seq (.literal '=') (.seq (.star blank) (.token .value (.star .any)))

/-- **An entry of a block.** -/
def blockEntry : Expression := .seq key (.seq (.star blank) (.seq (.optional value) .finish))

/-- The tokens of an entry. -/
def entryTokens (key : Text) (value? : Option Text) : List Token := ⟨.key, key⟩ :: value?.toList.map (⟨.value, ·⟩)

/-- A key ends in front of an equals sign, a space or a tab. -/
theorem spots_keyEnd : Spots (.choice (.literal '=') blank) fun c => c == '=' || isSpaceOrTab c :=
  (spots_char _).choice (spots_char _)

theorem runs_any (s : Text) : Runs (.star .any) s [[]] (some ([], [])) := by
  have hrun := runs_star_char (fun _ => true) (s ++ [])
  rwa [dropWhile_append_eq (fun _ _ => rfl) (by simp), List.append_nil] at hrun

/-- The value is all that is behind the equals sign and the spaces and tabs there. -/
theorem matches_value (s : Text) : Matches value ('=' :: s) [] [⟨.value, s.dropWhile isSpaceOrTab⟩] := by
  have htaken : Matches (.star .any) (s.dropWhile isSpaceOrTab ++ []) [] [] := ⟨_, runs_any _⟩
  have htoken : Matches (.token .value (.star .any)) _ [] [⟨.value, s.dropWhile isSpaceOrTab⟩] := htaken.token
  rw [List.append_nil] at htoken
  have hblanks : Matches (.star blank) s (s.dropWhile isSpaceOrTab) [] := ⟨_, runs_star_char isSpaceOrTab s⟩
  exact (matches_literal '=' s).seq (hblanks.seq htoken)

end Grammar

theorem trim_dropWhile (s : Text) : trim (s.dropWhile isSpaceOrTab) = trim s := by
  induction s with
  | nil => rfl
  | cons c s ih =>
    rw [List.dropWhile_cons]
    split
    · next hc => rw [ih, trim_cons_blank (isBlank_of_isSpaceOrTab hc)]
    · rfl

/-! ## The pieces of a line -/

/-- **The pieces of a line as an entry**: its longest beginning without equals signs, spaces and tabs, the spaces and tabs
behind that, and the rest. -/
structure Entry.Cut (line key blanks rest : Text) : Prop where
  eq : line = key ++ (blanks ++ rest)
  key : ∀ c ∈ key, c ≠ '=' ∧ c ≠ ' ' ∧ c ≠ '\t'
  longest : ∀ c ∈ (blanks ++ rest).head?, c = '=' ∨ c = ' ' ∨ c = '\t'
  blanks : ∀ c ∈ blanks, c = ' ' ∨ c = '\t'
  rest : ∀ c ∈ rest.head?, c ≠ ' ' ∧ c ≠ '\t'

/-- What is told to be expected at the column at which a line is refused: a key at the first one, and the end of the
line behind a key. -/
def Entry.expected (column : Nat) : Text :=
  if column = 1 then "parsing error: expected entry_key".toList else "parsing error: expected EOI".toList

/-- The grammar takes no entry with these pieces: there is no key, or something else than an equals sign behind it. -/
def Entry.Misfit (key rest : Text) : Prop := key = [] ∨ rest ≠ [] ∧ rest.head? ≠ some '='

namespace Entry

theorem isKeyChar_iff {c : Char} : isKeyChar c = true ↔ c ≠ '=' ∧ c ≠ ' ' ∧ c ≠ '\t' := by
  simp [isKeyChar, isSpaceOrTab]

theorem isSpaceOrTab_iff {c : Char} : isSpaceOrTab c = true ↔ c = ' ' ∨ c = '\t' := by simp [isSpaceOrTab]

/-- Every line has such pieces. -/
theorem exists_cut (line : Text) : ∃ key blanks rest, Cut line key blanks rest := by
  refine ⟨line.takeWhile isKeyChar, (line.dropWhile isKeyChar).takeWhile isSpaceOrTab,
    (line.dropWhile isKeyChar).dropWhile isSpaceOrTab, ?_, ?_, ?_, ?_, ?_⟩
  · rw [List.takeWhile_append_dropWhile, List.takeWhile_append_dropWhile]
  · exact fun c hc => isKeyChar_iff.mp (List.all_eq_true.mp List.all_takeWhile c hc)
  · intro c hc
    rw [List.takeWhile_append_dropWhile] at hc
    have hnot := List.head?_dropWhile_not isKeyChar line
    rw [Option.mem_def.mp hc] at hnot
    have hnot : ¬isKeyChar c = true := by simpa using hnot
    rw [isKeyChar_iff] at hnot
    grind
  · exact fun c hc => isSpaceOrTab_iff.mp (List.all_eq_true.mp List.all_takeWhile c hc)
  · intro c hc
    have hnot := List.head?_dropWhile_not isSpaceOrTab (line.dropWhile isKeyChar)
    rw [Option.mem_def.mp hc] at hnot
    have hnot : isSpaceOrTab c = false := by simpa using hnot
    simpa [isSpaceOrTab] using hnot

namespace Cut

variable {line key blanks rest : Text} (h : Cut line key blanks rest)

include h

theorem dropWhile_isKeyChar : line.dropWhile isKeyChar = blanks ++ rest := by
  rw [h.eq]
  refine Grammar.dropWhile_append_eq (fun c hc => isKeyChar_iff.mpr (h.key c hc)) fun c hc => ?_
  rcases h.longest c hc with rfl | rfl | rfl <;> rfl

theorem takeWhile_isKeyChar : line.takeWhile isKeyChar = key := by
  have hline := List.takeWhile_append_dropWhile (p := isKeyChar) (l := line)
  rw [h.dropWhile_isKeyChar] at hline
  exact List.append_cancel_right (hline.trans h.eq)

theorem dropWhile_blanks : (blanks ++ rest).dropWhile isSpaceOrTab = rest := by
  refine Grammar.dropWhile_append_eq (fun c hc => isSpaceOrTab_iff.mpr (h.blanks c hc)) fun c hc => ?_
  simpa [isSpaceOrTab] using h.rest c hc

/-- **The reader looks at these pieces.** -/
theorem read_missingKey (hkey : key = []) : Entry.read line = .error .missingKey := by
  simp only [Entry.read, h.takeWhile_isKeyChar, if_pos hkey]

theorem read_key (hkey : key ≠ []) (hrest : rest = []) : Entry.read line = .ok ⟨key, none⟩ := by
  simp only [Entry.read, h.takeWhile_isKeyChar, h.dropWhile_isKeyChar, h.dropWhile_blanks, if_neg hkey]
  rw [hrest]

theorem read_value {s : Text} (hkey : key ≠ []) (hrest : rest = '=' :: s) :
    Entry.read line = .ok ⟨key, some (trim s)⟩ := by
  simp only [Entry.read, h.takeWhile_isKeyChar, h.dropWhile_isKeyChar, h.dropWhile_blanks, if_neg hkey]
  rw [hrest]
  rfl

theorem read_stray (hkey : key ≠ []) (hrest : rest ≠ []) (hequals : rest.head? ≠ some '=') :
    Entry.read line = .error (.strayText (key.length + blanks.length + 1)) := by
  have hlength : line.length - rest.length = key.length + blanks.length := by
    rw [h.eq, List.length_append, List.length_append]
    omega
  simp only [Entry.read, h.takeWhile_isKeyChar, h.dropWhile_isKeyChar, h.dropWhile_blanks, if_neg hkey, ← hlength]
  split
  · exact absurd rfl hrest
  · exact absurd rfl hequals
  · rfl

/-! ## Runs of the grammar -/

/-- A key is read up to the spaces and tabs behind it. -/
theorem runs_key (hkey : key ≠ []) : Grammar.Runs Grammar.key line [blanks ++ rest]
    (some (blanks ++ rest, [⟨.key, key⟩])) := by
  obtain ⟨c, others, rfl⟩ := List.exists_cons_of_ne_nil hkey
  have hfirst : isKeyChar c = true := isKeyChar_iff.mpr (h.key c List.mem_cons_self)
  have hdrop : (others ++ (blanks ++ rest)).dropWhile isKeyChar = blanks ++ rest := by
    have hline := h.dropWhile_isKeyChar
    rwa [h.eq, List.cons_append, List.dropWhile_cons_of_pos hfirst] at hline
  have hone := Grammar.spots_keyEnd.runs_anyBut (by simpa [isKeyChar] using hfirst) (others ++ (blanks ++ rest))
  have hmore := Grammar.spots_keyEnd.runs_star_anyBut (others ++ (blanks ++ rest))
  change Grammar.Runs _ _ [List.dropWhile isKeyChar _] (some (List.dropWhile isKeyChar _, [])) at hmore
  rw [hdrop] at hmore
  rw [h.eq]
  exact .token (.seq hone hmore)

/-- A line without a key is no entry, and the grammar does not come further than to its first character. -/
theorem runs_missingKey (hkey : key = []) : Grammar.Runs Grammar.blockEntry line [line] none := by
  subst hkey
  have hline : line = blanks ++ rest := h.eq
  refine .seqFails (.tokenFails (.seqFails ?_))
  cases hcase : line with
  | nil => exact Grammar.spots_keyEnd.anyBut_nil
  | cons c s =>
    refine Grammar.spots_keyEnd.anyBut_fails ?_ s
    have hc := h.longest c (by rw [← hline, hcase]; rfl)
    simpa [isSpaceOrTab] using hc

/-- What is behind the key and is not an equals sign is where the grammar comes to. -/
theorem runs_stray (hkey : key ≠ []) (hrest : rest ≠ []) (hequals : rest.head? ≠ some '=') :
    Grammar.Runs Grammar.blockEntry line [blanks ++ rest, rest, rest, rest] none := by
  have hblanks := Grammar.runs_star_char isSpaceOrTab (blanks ++ rest)
  rw [h.dropWhile_blanks] at hblanks
  obtain ⟨c, others, rfl⟩ := List.exists_cons_of_ne_nil hrest
  have hc : c ≠ '=' := fun he => hequals (by rw [he]; rfl)
  have hliteral : Grammar.Runs (.literal '=') (c :: others) [c :: others] none :=
    .charOther (by simpa using hc) others
  have hvalue : Grammar.Runs (.optional Grammar.value) (c :: others) [c :: others] (some (c :: others, [])) :=
    .choiceSecond (.seqFails hliteral) (.empty _)
  exact .seq (h.runs_key hkey) (.seq hblanks (.seq hvalue (.finishOther c others)))

theorem matches_blanks : Grammar.Matches (.star Grammar.blank) (blanks ++ rest) rest [] := by
  have hblanks := Grammar.runs_star_char isSpaceOrTab (blanks ++ rest)
  rw [h.dropWhile_blanks] at hblanks
  exact ⟨_, hblanks⟩

/-- A key alone is an entry. -/
theorem matches_key (hkey : key ≠ []) (hrest : rest = []) :
    Grammar.Matches Grammar.blockEntry line [] (Grammar.entryTokens key none) := by
  have hliteral : Grammar.Fails (.literal '=') [] := (Grammar.spots_char _).nil
  have hvalue : Grammar.Matches (.optional Grammar.value) rest [] [] := by
    rw [hrest]
    exact hliteral.seq.choice_second ⟨_, .empty []⟩
  have hend : Grammar.Matches (.seq (.optional Grammar.value) .finish) rest [] [] := hvalue.seq ⟨_, .finish⟩
  exact Grammar.Matches.seq ⟨_, h.runs_key hkey⟩ (h.matches_blanks.seq hend)

/-- A key, an equals sign and what follows are an entry. -/
theorem matches_value {s : Text} (hkey : key ≠ []) (hrest : rest = '=' :: s) :
    Grammar.Matches Grammar.blockEntry line [] (Grammar.entryTokens key (some (s.dropWhile isSpaceOrTab))) := by
  have hvalue : Grammar.Matches (.optional Grammar.value) rest [] [⟨.value, s.dropWhile isSpaceOrTab⟩] := by
    rw [hrest]
    exact (Grammar.matches_value s).choice_first
  have hend := hvalue.seq ⟨_, .finish⟩
  exact Grammar.Matches.seq ⟨_, h.runs_key hkey⟩ (h.matches_blanks.seq hend)

/-! ## The reader and the grammar -/

/-- What the reader tells of a line that is no entry. -/
theorem exists_fault (hmisfit : Misfit key rest) :
    ∃ fault, Entry.read line = .error fault ∧
      fault.column = (if key = [] then 1 else 1 + (key.length + blanks.length)) ∧
      ∃ missed place, Grammar.Runs Grammar.blockEntry line missed none ∧ Grammar.Furthest missed place ∧
        fault.column = line.length - place.length + 1 ∧ fault.explanation = expected fault.column := by
  by_cases hkey : key = []
  · refine ⟨_, h.read_missingKey hkey, by rw [if_pos hkey]; rfl, _, line, h.runs_missingKey hkey, ?_, ?_, ?_⟩
    · exact ⟨List.mem_singleton_self _, by simp⟩
    · rw [Nat.sub_self]
      rfl
    · rfl
  · obtain ⟨hrest, hequals⟩ := hmisfit.resolve_left hkey
    have hlength := congrArg List.length h.eq
    rw [List.length_append, List.length_append] at hlength
    refine ⟨_, h.read_stray hkey hrest hequals, ?_, _, rest, h.runs_stray hkey hrest hequals, ?_, ?_, ?_⟩
    · rw [if_neg hkey, Fault.column, Nat.add_comm]
    · exact ⟨by simp, by simp⟩
    · rw [Fault.column]
      omega
    · have hpositive := List.length_pos_iff.mpr hkey
      rw [Fault.column, expected, if_neg (by omega)]
      rfl

/-- What the reader tells of a line that is an entry. -/
theorem read_of_not_misfit (hfit : ¬Misfit key rest) :
    Entry.read line = .ok ⟨key, if rest = [] then none else some (trim rest.tail)⟩ ∧
      ∃ value? : Option Text, Grammar.Matches Grammar.blockEntry line [] (Grammar.entryTokens key value?) ∧
        (if rest = [] then none else some (trim rest.tail)) = value?.map trim := by
  obtain ⟨hkey, hfit⟩ := not_or.mp hfit
  by_cases hrest : rest = []
  · rw [if_pos hrest]
    exact ⟨h.read_key hkey hrest, none, h.matches_key hkey hrest, rfl⟩
  · obtain ⟨s, hs⟩ : ∃ s, rest = '=' :: s := by
      have hhead : rest.head? = some '=' := by_contra fun hne => hfit ⟨hrest, hne⟩
      exact List.head?_eq_some_iff.mp hhead
    rw [if_neg hrest, hs, List.tail_cons]
    refine ⟨h.read_value hkey hs, some (s.dropWhile isSpaceOrTab), h.matches_value hkey hs, ?_⟩
    rw [Option.map_some, trim_dropWhile]

/-- The grammar fails on the misfits and on nothing else. -/
theorem fails_blockEntry_iff : Grammar.Fails Grammar.blockEntry line ↔ Misfit key rest := by
  constructor
  · intro hfails
    by_contra hfit
    obtain ⟨_, _, hmatches, _⟩ := h.read_of_not_misfit hfit
    exact hmatches.not_fails hfails
  · intro hmisfit
    obtain ⟨_, _, _, missed, _, hruns, _⟩ := h.exists_fault hmisfit
    exact ⟨missed, hruns⟩

end Cut

/-- The reader refuses a line exactly if the grammar takes no entry there. -/
theorem exists_error_iff (line : Text) :
    (∃ fault, Entry.read line = .error fault) ↔ Grammar.Fails Grammar.blockEntry line := by
  obtain ⟨key, blanks, rest, hcut⟩ := exists_cut line
  rw [hcut.fails_blockEntry_iff]
  constructor
  · rintro ⟨fault, hread⟩
    by_contra hfit
    rw [(hcut.read_of_not_misfit hfit).1] at hread
    cases hread
  · intro hmisfit
    obtain ⟨fault, hread, _⟩ := hcut.exists_fault hmisfit
    exact ⟨fault, hread⟩

end Entry

end WindowRules

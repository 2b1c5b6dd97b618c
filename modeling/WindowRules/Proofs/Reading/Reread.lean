import WindowRules.Proofs.Geometry.Groups
import WindowRules.Proofs.Reading.Dialects
import WindowRules.Proofs.Reading.Fragments

/-!
# Flags that are read again

A flag that was read for a line is written as its key and its value. Read again it is the same flag, unless it is a move
one of whose expressions is not one group (`rereads_iff`): parentheses that do not match are kept when a coordinate is
read, so that its expression is no group and gets another pair of parentheses the next time.

Two kinds of flags are left out, since they change as well: a size with a mark apart from its number, whose value has a
blank too many, and a move without coordinates, whose default becomes a coordinate (`Fragment.HasLooseMark`,
`Fragment.LacksCoordinates`).

* `Fragment.IsWritten.read_iff` — what a newer key with the words of a value is read as.
* `Fragment.exists_isWritten` — a flag that was read is such a key with such words. Proof: by the kinds of flags.
-/

namespace WindowRules

open Text

namespace Fragment

/-- The fragment is a size with several arguments, one of which is the mark of a bound without a number. -/
def HasLooseMark (fragment : Text) : Prop :=
  Keys.flagKey ((words fragment).headD []) = "size".toList ∧ 2 ≤ (words fragment).tail.length ∧
    (['>'] ∈ (words fragment).tail ∨ ['<'] ∈ (words fragment).tail)

/-- The fragment is a move with modifiers at most. -/
def LacksCoordinates (fragment : Text) : Prop :=
  Keys.flagKey ((words fragment).headD []) = "move".toList ∧ Position.coordinates (words fragment).tail = []

/-- If the fragment is a move, its coordinates have no parentheses, or are one group each while no modifier occurs. -/
def HasLevelCoordinates (fragment : Text) : Prop :=
  Keys.flagKey ((words fragment).headD []) = "move".toList → ∀ s ∈ Position.coordinates (words fragment).tail,
    ('(' ∉ s ∧ ')' ∉ s) ∨ Position.isGroup s = true ∧ Position.coordinates (words fragment).tail = (words fragment).tail

instance (fragment : Text) : Decidable (HasLooseMark fragment) := inferInstanceAs (Decidable (_ ∧ _))

instance (fragment : Text) : Decidable (LacksCoordinates fragment) := inferInstanceAs (Decidable (_ ∧ _))

instance (fragment : Text) : Decidable (HasLevelCoordinates fragment) := inferInstanceAs (Decidable (_ → _))

/-! ## Written flags -/

/-- The words of a value as a line keeps them. -/
structure AreWritten (parts : List Text) : Prop where
  ne_nil : parts ≠ []
  name : ∀ part ∈ parts, part.IsName
  escaped : ∀ part ∈ parts, Comma.escape part = part

/-- The text is a newer key that makes a fragment a flag. -/
structure IsFlagKey (key : Text) : Prop where
  name : key.IsName
  newer : Keys.flagKey key = key
  colon : ':' ∉ key
  dollar : key.head? ≠ some '$'

/-- The key and the words of a flag, none of which is rewritten unless it belongs to a move. -/
structure IsWritten (key : Text) (parts : List Text) : Prop extends IsFlagKey key where
  value : AreWritten parts
  size : key = "size".toList → ∀ part ∈ parts, Size.IsPlain part
  move : key = "move".toList → ∀ part ∈ parts, part.head? = some '('

namespace AreWritten

variable {parts : List Text} (h : AreWritten parts)

include h

theorem words_spaced : words (spaced parts) = parts :=
  Text.words_spaced (fun part hp => (h.name part hp).ne_nil) fun part hp => (h.name part hp).blank

theorem spaced_ne_nil : spaced parts ≠ [] := by
  intro he
  have hwords := h.words_spaced
  rw [he] at hwords
  exact h.ne_nil hwords.symm

theorem flag (key : Text) : flag .inline key (spaced parts) = .flag key (spaced parts) := by
  have hencode : Dialect.inline.encode (spaced parts) = spaced parts := by
    rw [Dialect.inline.encode_spaced]
    exact congrArg spaced ((List.map_congr_left h.escaped).trans (List.map_id parts))
  rw [Fragment.flag, if_neg h.spaced_ne_nil, hencode]

/-- The coordinates of a move stay as they are exactly if they are groups. -/
theorem flag_move_iff (hhead : ∀ part ∈ parts, part.head? = some '(') (key : Text) :
    Fragment.flag .inline key (spaced (Position.read .inline parts)) = .flag key (spaced parts) ↔
      ∀ part ∈ parts, Position.isGroup part = true := by
  have hblank : ∀ part ∈ parts, ∀ c ∈ part, isBlank c = false := fun part hp => (h.name part hp).blank
  have hname := Position.isName_of_mem_read .inline hblank
  have hne : spaced (Position.read .inline parts) ≠ [] := by
    rw [ne_eq, Position.spaced_read_eq_nil_iff .inline hblank, Position.coordinates_of_head? hhead]
    exact h.ne_nil
  rw [← Position.map_escape_read_eq_iff hblank hhead h.escaped, Fragment.flag, if_neg hne]
  constructor
  · intro he
    have hvalue := congrArg words (congrArg Item.value he)
    rw [Item.flag, Item.flag, h.words_spaced, Dialect.inline.words_encode_spaced
      (fun s hs => (hname s hs).ne_nil) fun s hs => (hname s hs).blank] at hvalue
    exact hvalue
  · intro he
    rw [Dialect.inline.encode_spaced]
    exact congrArg (fun words => Item.flag key (spaced words)) he

end AreWritten

/-- **What a written flag is read as.** It is the same flag, except that the words of a move must be groups. -/
theorem IsWritten.read_iff {key : Text} {parts : List Text} (h : IsWritten key parts) :
    read .inline (key ++ ' ' :: spaced parts) = .single (.flag key (spaced parts)) ↔
      (key = "move".toList → ∀ part ∈ parts, Position.isGroup part = true) := by
  have hwords : words (key ++ ' ' :: spaced parts) = key :: parts := by
    rw [words_append_blank h.name.ne_nil h.name.blank (by decide), h.value.words_spaced]
  rw [read_of_words hwords h.colon h.dollar, Reading.single.injEq]
  by_cases hs : key = "size".toList
  · have hmove : key ≠ "move".toList := by
      rw [hs]
      decide
    have hplain := Size.read_of_isPlain (h.size hs) fun part hp => (h.value.name part hp).blank
    have hkey : Bound.exact.key = key := hs.symm
    rw [windowFlag_of_size hwords .inline (h.newer.trans hs), hplain, hkey]
    exact iff_of_true (h.value.flag key) fun hm => absurd hm hmove
  · by_cases hm : key = "move".toList
    · rw [windowFlag_of_move hwords .inline (h.newer.trans hm), ← hm, h.value.flag_move_iff (h.move hm)]
      exact ⟨fun hgroup _ => hgroup, fun hgroup => hgroup rfl⟩
    · rw [windowFlag_of_plain hwords .inline (h.newer.trans_ne hs) (h.newer.trans_ne hm), h.newer]
      exact iff_of_true (h.value.flag key) fun he => absurd he hm

end Fragment

/-! ## Plain sizes -/

namespace Bound

theorem isFlagKey_key (bound : Bound) : Fragment.IsFlagKey bound.key := by
  have hidentifier : bound.key.IsIdentifier := by cases bound <;> decide
  have hlookup : ∀ key ∈ ["size".toList, "size_min".toList, "size_max".toList], Keys.flagTable.lookup key = none := by
    unfold Keys.flagTable
    simp only [List.map_cons, List.map_nil]
    repeat rw [String.toList_ofList]
    decide +kernel
  have hkey : bound.key ∈ ["size".toList, "size_min".toList, "size_max".toList] := by
    cases bound with
    | exact => exact List.mem_cons_self
    | least => exact List.mem_cons_of_mem _ List.mem_cons_self
    | greatest => exact List.mem_cons_of_mem _ (List.mem_cons_of_mem _ List.mem_cons_self)
  exact ⟨⟨hidentifier.ne_nil, hidentifier.not_isBlank⟩, Keys.flagKey_eq_self hidentifier (hlookup _ hkey),
    hidentifier.not_mem (by decide), fun hd => hidentifier.not_mem (by decide) (List.mem_of_head? hd)⟩

theorem key_ne_move (bound : Bound) : bound.key ≠ "move".toList := by cases bound <;> decide

theorem key_eq_size_iff {bound : Bound} : bound.key = "size".toList ↔ bound = .exact := by cases bound <;> decide

end Bound

namespace Size

/-- Escaping brings in no mark and no percent sign. -/
theorem IsPlain.escape {s : Text} (h : IsPlain s) : IsPlain (Comma.escape s) := by
  have hhead : ∀ {mark : Char}, mark ≠ '\\' → s.head? ≠ some mark → (Comma.escape s).head? ≠ some mark := by
    intro mark hmark hs
    fun_cases Comma.escape s <;> simp_all [eq_comm]
  have hlast : (Comma.escape s).getLast? ≠ some '%' := by
    rw [Comma.getLast?_escape]
    exact h.percentage
  exact ⟨hhead (by decide) h.least, hhead (by decide) h.greatest, hlast⟩

/-- The values of an exact size are plain. -/
theorem isPlain_value {arguments : List Text} (h : (read arguments).bound = .exact) (axis : Axis) {argument : Text}
    (ha : argument ∈ arguments) : IsPlain (value axis argument) := by
  have hexact := mark_of_exact h ha
  rcases mark_cases (trim argument) with ⟨_, _, _, _, hmark, _, _⟩ | ⟨hmark, hleast, hgreatest⟩
  · exact absurd hexact hmark
  · have hkept : value axis argument = axis.shareOrSame (trim argument) := by rw [value, hmark]
    rw [hkept]
    have hlast := axis.getLast?_shareOrSame_ne (trim argument)
    rw [Axis.shareOrSame, Axis.share?] at hlast ⊢
    cases hs : stripSuffix? '%' (trim argument) with
    | none =>
      rw [hs] at hlast
      exact ⟨hleast, hgreatest, hlast⟩
    | some number =>
      rw [hs] at hlast
      have hopen : ∀ {mark : Char}, mark ≠ '(' → ∀ rest, ('(' :: rest).head? ≠ some mark := by
        intro mark hmark rest he
        exact hmark (Option.some.inj he).symm
      exact ⟨hopen (by decide) _, hopen (by decide) _, hlast⟩

/-- The values of a size are names, or there is none because the only argument is a mark. -/
theorem exists_spaced_values {arguments : List Text} (h : ∀ argument ∈ arguments, argument.IsName)
    (hmarks : 2 ≤ arguments.length → ['>'] ∉ arguments ∧ ['<'] ∉ arguments) :
    ∃ values, spaced (read arguments).values = spaced values ∧ (∀ value ∈ values, value.IsName) ∧
      ∀ value ∈ values, ∃ axis, ∃ argument ∈ arguments, value = Size.value axis argument := by
  rw [values_read]
  by_cases hlone : ∃ mark : Text, arguments = [mark] ∧ (mark = ['>'] ∨ mark = ['<'])
  · obtain ⟨mark, rfl, hmark⟩ := hlone
    refine ⟨[], ?_, by simp, by simp⟩
    rw [Axis.distribute, (value_eq_nil_iff (h mark List.mem_cons_self)).mpr hmark]
    rfl
  · have hnot : ∀ argument ∈ arguments, ¬(argument = ['>'] ∨ argument = ['<']) := by
      intro argument ha hmark
      by_cases hseveral : 2 ≤ arguments.length
      · obtain ⟨hleast, hgreatest⟩ := hmarks hseveral
        rcases hmark with rfl | rfl
        · exact hleast ha
        · exact hgreatest ha
      · have hpos := List.length_pos_of_mem ha
        obtain ⟨only, rfl⟩ := List.length_eq_one_iff.mp (show arguments.length = 1 by omega)
        exact hlone ⟨only, rfl, List.mem_singleton.mp ha ▸ hmark⟩
    refine ⟨_, rfl, fun value hv => ?_, fun value hv => ?_⟩
    · obtain ⟨axis, argument, ha, rfl⟩ := Axis.exists_of_mem_distribute hv
      have hname := h argument ha
      exact ⟨mt (value_eq_nil_iff hname).mp (hnot argument ha), not_isBlank_value axis hname.blank⟩
    · obtain ⟨axis, argument, ha, hvalue⟩ := Axis.exists_of_mem_distribute hv
      exact ⟨axis, argument, ha, hvalue⟩

end Size

/-! ## Flags that are read are written -/

namespace Fragment

theorem areWritten_map_escape {values : List Text} (hne : values ≠ []) (h : ∀ value ∈ values, value.IsName) :
    AreWritten (values.map Comma.escape) where
  ne_nil := mt List.map_eq_nil_iff.mp hne
  name := List.forall_mem_map.mpr fun value hv =>
    ⟨mt Dialect.inline.encode_eq_nil_iff.mp (h value hv).ne_nil,
      Dialect.inline.not_isBlank_of_mem_encode (h value hv).blank⟩
  escaped := List.forall_mem_map.mpr fun value _ => Comma.escaped_escape value

theorem areWritten_defaultValue (key : Text) : AreWritten [Keys.defaultValue key] where
  ne_nil := List.cons_ne_nil _ _
  name := by
    rw [List.forall_mem_singleton]
    rcases Keys.defaultValue_cases key with h | h <;> rw [h] <;> decide
  escaped := List.forall_mem_singleton.mpr (Keys.escape_defaultValue key)

/-- The words that a line keeps for the value of a flag. -/
def written (key : Text) (values : List Text) : List Text :=
  if values = [] then [Keys.defaultValue key] else values.map Comma.escape

theorem areWritten_written (key : Text) {values : List Text} (h : ∀ value ∈ values, value.IsName) :
    AreWritten (written key values) := by
  unfold written
  split
  · exact areWritten_defaultValue key
  · next hne => exact areWritten_map_escape hne h

theorem flag_spaced (key : Text) {values : List Text} (h : ∀ value ∈ values, value.IsName) :
    flag .inline key (spaced values) = .flag key (spaced (written key values)) := by
  have hnil : spaced values = [] ↔ values = [] := by
    rw [spaced_eq_nil_iff, or_iff_left]
    rintro rfl
    exact (h [] List.mem_cons_self).ne_nil rfl
  unfold flag written
  split
  · next he => rw [if_pos (hnil.mp he), spaced, List.intercalate_singleton]
  · next he =>
    rw [if_neg (mt hnil.mpr he), Dialect.inline.encode_spaced]
    rfl

section Kinds

variable {s word : Text} {arguments : List Text} (h : words s = word :: arguments)

include h

theorem isWritten_of_plain (hcolon : ':' ∉ word) (hdollar : word.head? ≠ some '$')
    (hsize : Keys.flagKey word ≠ "size".toList) (hmove : Keys.flagKey word ≠ "move".toList) :
    IsWritten (Keys.flagKey word) (written (Keys.flagKey word) arguments) ∧
      windowFlag .inline s = .flag (Keys.flagKey word) (spaced (written (Keys.flagKey word) arguments)) := by
  have hnames : ∀ part ∈ word :: arguments, part.IsName := fun part hp => isName_of_mem_words (h ▸ hp)
  obtain ⟨hname, harguments⟩ := List.forall_mem_cons.mp hnames
  have hkey : IsFlagKey (Keys.flagKey word) := ⟨Keys.isName_flagKey hname, Keys.flagKey_flagKey word,
    Keys.not_mem_flagKey (by decide) (by decide) hcolon, Keys.head?_flagKey_ne (by decide) (by decide) hdollar⟩
  refine ⟨⟨hkey, areWritten_written _ harguments, fun hs => absurd hs hsize, fun hm => absurd hm hmove⟩, ?_⟩
  exact (windowFlag_of_plain h .inline hsize hmove).trans (flag_spaced _ harguments)

theorem isWritten_of_move (hmove : Keys.flagKey word = "move".toList) (hne : Position.coordinates arguments ≠ []) :
    IsWritten "move".toList ((Position.read .inline arguments).map Comma.escape) ∧
      windowFlag .inline s = .flag "move".toList (spaced ((Position.read .inline arguments).map Comma.escape)) := by
  have hnames : ∀ value ∈ Position.read .inline arguments, value.IsName :=
    Position.isName_of_mem_read .inline fun argument ha =>
      not_isBlank_of_mem_words (h ▸ List.mem_cons_of_mem word ha)
  have hread : Position.read .inline arguments ≠ [] := by
    rw [ne_eq, ← List.length_eq_zero_iff, Position.length_read, List.length_eq_zero_iff]
    exact hne
  have hwritten : written "move".toList (Position.read .inline arguments) =
      (Position.read .inline arguments).map Comma.escape := if_neg hread
  have hnewer : Keys.flagKey "move".toList = "move".toList := by
    rw [← hmove]
    exact Keys.flagKey_flagKey word
  rw [← hwritten]
  have hkey : IsFlagKey "move".toList := ⟨by decide, hnewer, by decide, by decide⟩
  refine ⟨⟨hkey, areWritten_written _ hnames, fun hs => ?_, fun _ => ?_⟩, ?_⟩
  · exact absurd hs (by decide)
  · rw [hwritten, List.forall_mem_map]
    intro value hv
    obtain ⟨axis, argument, -, rfl⟩ := Axis.exists_of_mem_distribute hv
    obtain ⟨rest, hrest⟩ := List.head?_eq_some_iff.mp (Position.head?_coordinate .inline (.of arguments) axis argument)
    rw [hrest, Comma.escape_cons (by decide) fun hc => by cases hc]
    rfl
  · exact (windowFlag_of_move h .inline hmove).trans (flag_spaced _ hnames)

theorem exists_isWritten_of_size (hsize : Keys.flagKey word = "size".toList)
    (hmarks : 2 ≤ arguments.length → ['>'] ∉ arguments ∧ ['<'] ∉ arguments) :
    ∃ parts, IsWritten (Size.read arguments).bound.key parts ∧
      windowFlag .inline s = .flag (Size.read arguments).bound.key (spaced parts) := by
  have hnames : ∀ argument ∈ arguments, argument.IsName := fun argument ha =>
    isName_of_mem_words (h ▸ List.mem_cons_of_mem word ha)
  obtain ⟨values, hspaced, hvalues, hread⟩ := Size.exists_spaced_values hnames hmarks
  refine ⟨written (Size.read arguments).bound.key values, ⟨(Size.read arguments).bound.isFlagKey_key,
    areWritten_written _ hvalues, fun hs => ?_, fun hm => absurd hm (Size.read arguments).bound.key_ne_move⟩, ?_⟩
  · have hexact := Bound.key_eq_size_iff.mp hs
    unfold written
    split
    · rw [List.forall_mem_singleton, hs]
      decide +kernel
    · refine List.forall_mem_map.mpr fun value hv => ?_
      obtain ⟨axis, argument, ha, rfl⟩ := hread value hv
      exact (Size.isPlain_value hexact axis ha).escape
  · rw [windowFlag_of_size h .inline hsize, hspaced, flag_spaced _ hvalues]

end Kinds

theorem isFlag_condition (dialect : Dialect) (fragment s : Text) : (condition dialect fragment s).isFlag = false := by
  unfold condition
  split <;> split <;> rfl

theorem isFlag_of_mem_selector {dialect : Dialect} {key value : Text} {item : Item}
    (h : item ∈ (selector dialect key value).toList) : item.isFlag = false := by
  unfold selector at h
  split at h
  · rw [List.mem_singleton.mp h]
    rfl
  · simp only [Reading.toList, List.mem_cons, List.not_mem_nil, or_false] at h
    rcases h with rfl | rfl <;> rfl

/-- A flag is read from words, the first of which has no colon and does not begin with a dollar sign. -/
theorem exists_words_of_isFlag {fragment : Text} {item : Item} {dialect : Dialect}
    (hread : read dialect fragment = .single item) (hflag : item.isFlag = true) :
    ∃ word arguments, words fragment = word :: arguments ∧ ':' ∉ word ∧ word.head? ≠ some '$' ∧
      item = windowFlag dialect fragment := by
  have hnone : ∀ {other : Item}, other.isFlag = false → read dialect fragment ≠ .single other := by
    intro other hother he
    rw [hread, Reading.single.injEq] at he
    rw [he, hother] at hflag
    cases hflag
  have htrim : read dialect (trim fragment) = read dialect fragment := by
    unfold read
    rw [trim_trim]
  by_cases hne : trim fragment = []
  · have hempty : read dialect [] = .single (.malformed []) := rfl
    rw [hne] at htrim
    exact absurd (htrim.symm.trans hempty) (hnone rfl)
  have hshape := shape_of_trim hne (trim_trim fragment)
  have hwords := words_trim fragment
  have hself := trim_trim fragment
  generalize trim fragment = s at *
  cases hshape with
  | predicate dollar =>
    rw [read_of_dollar hself dollar] at htrim
    exact absurd htrim.symm (hnone rfl)
  | condition rest =>
    rw [read_of_mark hself] at htrim
    exact absurd htrim.symm (hnone (isFlag_condition dialect _ rest))
  | @selector key isKey value =>
    rw [isKey.read hself, hread] at htrim
    have hmem : item ∈ (selector dialect key (trim value)).toList := by
      rw [htrim]
      exact List.mem_cons_self
    rw [isFlag_of_mem_selector hmem] at hflag
    cases hflag
  | @flag s word arguments words colon dollar =>
    rw [hwords] at words
    rw [read_of_words words colon dollar, Reading.single.injEq] at hread
    exact ⟨word, arguments, words, colon, dollar, hread.symm⟩

/-- **A flag that was read is written**, and a move has groups if its coordinates are level. -/
theorem exists_isWritten {fragment : Text} {item : Item} (hread : read .inline fragment = .single item)
    (hflag : item.isFlag = true) (hmarks : ¬HasLooseMark fragment) (hcoordinates : ¬LacksCoordinates fragment) :
    ∃ key parts, IsWritten key parts ∧ item = .flag key (spaced parts) ∧ (HasLevelCoordinates fragment →
      key = "move".toList → ∀ part ∈ parts, Position.isGroup part = true) := by
  obtain ⟨word, arguments, hwords, hcolon, hdollar, rfl⟩ := exists_words_of_isFlag hread hflag
  unfold HasLooseMark at hmarks
  unfold LacksCoordinates at hcoordinates
  unfold HasLevelCoordinates
  simp only [hwords, List.headD_cons, List.tail_cons] at hmarks hcoordinates ⊢
  by_cases hsize : Keys.flagKey word = "size".toList
  · obtain ⟨parts, hwritten, hitem⟩ := exists_isWritten_of_size hwords hsize fun hseveral =>
      ⟨fun hm => hmarks ⟨hsize, hseveral, Or.inl hm⟩, fun hm => hmarks ⟨hsize, hseveral, Or.inr hm⟩⟩
    refine ⟨_, parts, hwritten, hitem, fun _ hmove => ?_⟩
    exact absurd hmove (Size.read arguments).bound.key_ne_move
  by_cases hmove : Keys.flagKey word = "move".toList
  · obtain ⟨hwritten, hitem⟩ := isWritten_of_move hwords hmove fun hnil => hcoordinates ⟨hmove, hnil⟩
    have hgroup := Position.isGroup_of_mem_read .inline fun argument ha =>
      not_isBlank_of_mem_words (hwords ▸ List.mem_cons_of_mem word ha)
    refine ⟨_, _, hwritten, hitem, fun hlevel _ => List.forall_mem_map.mpr fun value hv => ?_⟩
    rw [Position.isGroup_escape]
    exact hgroup (hlevel hmove) value hv
  · obtain ⟨hwritten, hitem⟩ := isWritten_of_plain hwords hcolon hdollar hsize hmove
    exact ⟨_, _, hwritten, hitem, fun _ hm => absurd hm hmove⟩

end Fragment

/-- **A flag that is read again** stays the same exactly if it is no move or the words of its value are groups, and it
does so if the coordinates were level. -/
theorem rereads_iff {fragment : Text} {item : Item} (hread : Fragment.read .inline fragment = .single item)
    (hflag : item.isFlag = true) (hmarks : ¬Fragment.HasLooseMark fragment)
    (hcoordinates : ¬Fragment.LacksCoordinates fragment) :
    (Fragment.read .inline (item.key ++ ' ' :: item.value) = .single item ↔
      (item.key = "move".toList → ∀ word ∈ words item.value, Position.isGroup word = true)) ∧
    (Fragment.HasLevelCoordinates fragment → Fragment.read .inline (item.key ++ ' ' :: item.value) = .single item) := by
  obtain ⟨key, parts, hwritten, rfl, hlevel⟩ := Fragment.exists_isWritten hread hflag hmarks hcoordinates
  have hgroups := hwritten.read_iff
  have hwords : words (Item.flag key (spaced parts)).value = parts := hwritten.value.words_spaced
  rw [hwords]
  exact ⟨hgroups, fun h => hgroups.mpr (hlevel h)⟩

/-- The modifier goes into the groups. -/
theorem cursorMove_rereads :
    ¬Fragment.HasLooseMark "move cursor 100-w 10".toList ∧ ¬Fragment.LacksCoordinates "move cursor 100-w 10".toList ∧
      Fragment.HasLevelCoordinates "move cursor 100-w 10".toList ∧
      Fragment.read .inline "move cursor 100-w 10".toList =
        .single (.flag "move".toList "(cursor_x+(100-window_w)) (cursor_y+(10))".toList) ∧
      Fragment.read .inline "move (cursor_x+(100-window_w)) (cursor_y+(10))".toList =
        .single (.flag "move".toList "(cursor_x+(100-window_w)) (cursor_y+(10))".toList) := by
  obtain ⟨hmarks, hcoordinates, hlevel, hread⟩ : ¬Fragment.HasLooseMark "move cursor 100-w 10".toList ∧
      ¬Fragment.LacksCoordinates "move cursor 100-w 10".toList ∧
      Fragment.HasLevelCoordinates "move cursor 100-w 10".toList ∧
      Fragment.read .inline "move cursor 100-w 10".toList =
        .single (.flag "move".toList "(cursor_x+(100-window_w)) (cursor_y+(10))".toList) := by decide +kernel
  exact ⟨hmarks, hcoordinates, hlevel, hread, (rereads_iff hread rfl hmarks hcoordinates).2 hlevel⟩

/-- A parenthesis that is not closed gets another pair around it every time; a mark apart from its number leaves a blank,
and a default becomes a coordinate. -/
theorem not_rereads :
    (¬∀ (fragment : Text) (item : Item), Fragment.read .inline fragment = .single item → item.isFlag = true →
        Fragment.read .inline (item.key ++ ' ' :: item.value) = .single item) ∧
      (Fragment.read .inline "move (10 5".toList = .single (.flag "move".toList "((10) (5)".toList) ∧
        Fragment.read .inline "move ((10) (5)".toList = .single (.flag "move".toList "(((10)) (5)".toList)) ∧
      (Fragment.read .inline "size > 100".toList = .single (.flag "size_min".toList " 100".toList) ∧
        Fragment.read .inline "size_min  100".toList = .single (.flag "size_min".toList "100".toList)) ∧
      Fragment.read .inline "move".toList = .single (.flag "move".toList "on".toList) ∧
        Fragment.read .inline "move on".toList = .single (.flag "move".toList "(on)".toList) := by
  obtain ⟨⟨hread, hagain⟩, hothers⟩ :
      (Fragment.read .inline "move (10 5".toList = .single (.flag "move".toList "((10) (5)".toList) ∧
        Fragment.read .inline "move ((10) (5)".toList = .single (.flag "move".toList "(((10)) (5)".toList)) ∧
      (Fragment.read .inline "size > 100".toList = .single (.flag "size_min".toList " 100".toList) ∧
        Fragment.read .inline "size_min  100".toList = .single (.flag "size_min".toList "100".toList)) ∧
      Fragment.read .inline "move".toList = .single (.flag "move".toList "on".toList) ∧
        Fragment.read .inline "move on".toList = .single (.flag "move".toList "(on)".toList) := by decide +kernel
  refine ⟨fun hall => ?_, ⟨hread, hagain⟩, hothers⟩
  have hsame := hall _ _ hread rfl
  have hvalue : "((10) (5)".toList ≠ "(((10)) (5)".toList := by decide
  have htext : (Item.flag "move".toList "((10) (5)".toList).key ++
      ' ' :: (Item.flag "move".toList "((10) (5)".toList).value = "move ((10) (5)".toList := by decide
  rw [htext, hagain, Fragment.Reading.single.injEq, Item.flag, Item.flag, Item.mk.injEq] at hsame
  exact hvalue hsame.2.1.symm

end WindowRules

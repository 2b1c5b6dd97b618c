import WindowRules.Decimal.Numeral
import Mathlib.Data.List.Infix
import Mathlib.Data.List.TakeWhile

/-!
# The numeral at the start of a text

The scan of a text finds the longest numeral at its start that ends with a digit, or finds none where there is none
(`Numeral.extent?_cases`). What a numeral is, is said without the scan (`Numeral.IsNumeral`): a sign or none, digits and
at most one point with at least one digit, and an exponent or none.

* `Numeral.exists_scanMantissa` — a scan passes over digits and at most one point until it is stuck, and remembers the
  place behind the last digit. Proof: by induction on the text; one character more keeps what the scan knows of the
  characters it passed (`Numeral.Scanned`).
* `Numeral.scanExponent_cases` — the exponent is taken as far as it goes.
* `Numeral.hasParts_of_isLeading` — any numeral at the start has the sign of the scan, and a mantissa that the scan
  passed over; if it has an exponent, then its mantissa is all that the scan passed over.
-/

namespace WindowRules

open Text

namespace Numeral

/-! ## The grammar of numerals -/

/-- No sign or one. -/
def IsOptionalSign (s : Text) : Prop := s = [] ∨ ∃ c, isSign c = true ∧ s = [c]

/-- At least one digit, with at most one point before, among or after the digits. -/
structure IsMantissa (s : Text) : Prop where
  characters : ∀ c ∈ s, isDigit c = true ∨ c = '.'
  points : s.count '.' ≤ 1
  digit : ∃ c ∈ s, isDigit c = true

/-- A mark, a sign or none, and at least one digit. -/
def IsExponent (s : Text) : Prop :=
  ∃ mark sign digits, s = mark :: (sign ++ digits) ∧ isExponentMark mark = true ∧ IsOptionalSign sign ∧ digits ≠ [] ∧
    ∀ c ∈ digits, isDigit c = true

/-- A sign or none, a mantissa, and an exponent or none. -/
def IsNumeral (s : Text) : Prop :=
  ∃ sign mantissa exponent, s = sign ++ (mantissa ++ exponent) ∧ IsOptionalSign sign ∧ IsMantissa mantissa ∧
    (exponent = [] ∨ IsExponent exponent)

/-- The last character is a digit. -/
def EndsInDigit (s : Text) : Prop := ∃ c, s.getLast? = some c ∧ isDigit c = true

/-- A numeral that the text begins with and that ends in a digit. -/
structure IsLeading (taken s : Text) : Prop where
  numeral : IsNumeral taken
  endsInDigit : EndsInDigit taken
  beginning : taken <+: s

/-- No longer numeral is at the start of the text and ends in a digit. -/
structure IsLongest (taken s : Text) : Prop extends IsLeading taken s where
  longest : ∀ other, IsLeading other s → other.length ≤ taken.length

/-! ## Characters -/

theorem ne_of_isDigit {c mark : Char} (h : isDigit c = true) (hmark : isDigit mark = false) : c ≠ mark := by
  rintro rfl
  rw [h] at hmark
  cases hmark

theorem not_isSign_of_isDigit {c : Char} (h : isDigit c = true) : isSign c = false := by
  have hplus : c ≠ '+' := ne_of_isDigit h rfl
  have hminus : c ≠ '-' := ne_of_isDigit h rfl
  simp [isSign, hplus, hminus]

theorem isExponentMark_iff {c : Char} : isExponentMark c = true ↔ c = 'e' ∨ c = 'E' := by simp [isExponentMark]

/-- The mark of an exponent belongs to no mantissa. -/
theorem not_of_isExponentMark {c : Char} (h : isExponentMark c = true) : isDigit c = false ∧ c ≠ '.' := by
  rcases isExponentMark_iff.mp h with rfl | rfl <;> decide

theorem utf8Size_of_isDigit {c : Char} (h : isDigit c = true) : c.utf8Size = 1 := by
  simp only [isDigit, Bool.and_eq_true, decide_eq_true_eq] at h
  exact Char.utf8Size_eq_one_iff.mpr (UInt32.le_trans h.2 (by decide))

/-! ## Signs -/

/-- No other sign than this one may stand at the start of the text in front of what is not a sign. -/
def OnlySign (sign rest s : Text) : Prop :=
  ∀ other t, IsOptionalSign other → t ≠ [] → (∀ c ∈ t.head?, isSign c = false) → other ++ t <+: s →
    other = sign ∧ t <+: rest

/-- **The sign is passed over**, and it is the only one. -/
theorem exists_skipSign (place : Nat) (s : Text) :
    ∃ sign rest, s = sign ++ rest ∧ IsOptionalSign sign ∧ skipSign place s = (place + byteLength sign, rest) ∧
      OnlySign sign rest s := by
  cases s with
  | nil =>
    refine ⟨[], [], rfl, Or.inl rfl, rfl, fun other t _ ht _ hbeginning => ?_⟩
    exact absurd (List.append_eq_nil_iff.mp (List.prefix_nil.mp hbeginning)).2 ht
  | cons c s =>
    by_cases hc : isSign c = true
    · refine ⟨[c], s, rfl, Or.inr ⟨c, hc, rfl⟩, by simp [skipSign, hc], fun other t hother ht hhead hbeginning => ?_⟩
      rcases hother with rfl | ⟨first, _, rfl⟩
      · obtain ⟨first, t, rfl⟩ := List.exists_cons_of_ne_nil ht
        obtain ⟨rfl, _⟩ := List.cons_prefix_cons.mp hbeginning
        rw [hhead first rfl] at hc
        cases hc
      · obtain ⟨rfl, ht⟩ := List.cons_prefix_cons.mp hbeginning
        exact ⟨rfl, ht⟩
    · refine ⟨[], c :: s, rfl, Or.inl rfl, by simp [skipSign, hc], fun other t hother _ _ hbeginning => ?_⟩
      rcases hother with rfl | ⟨first, hfirst, rfl⟩
      · exact ⟨rfl, hbeginning⟩
      · obtain ⟨rfl, _⟩ := List.cons_prefix_cons.mp hbeginning
        exact absurd hfirst hc

/-! ## Mantissas -/

/-- What a scan knows that started at a place and passed over some characters: these are digits and at most one point,
and it remembers the place behind the last digit of them. -/
structure Scanned (start : Nat) (passed : Text) (stop? : Option Nat) (place : Nat) (hasPoint : Bool) : Prop where
  place_eq : place = start + byteLength passed
  characters : ∀ c ∈ passed, isDigit c = true ∨ c = '.'
  points : passed.count '.' = hasPoint.toNat
  stop : stop? = none ∧ (∀ c ∈ passed, isDigit c = false) ∨
    ∃ front dangling, passed = front ++ dangling ∧ EndsInDigit front ∧ (∀ c ∈ dangling, isDigit c = false) ∧
      stop? = some (start + byteLength front)

variable {start place : Nat} {passed : Text} {stop? : Option Nat} {hasPoint : Bool}

theorem scanned_nil (start : Nat) : Scanned start [] none start false where
  place_eq := rfl
  characters := nofun
  points := rfl
  stop := Or.inl ⟨rfl, nofun⟩

theorem Scanned.digit (h : Scanned start passed stop? place hasPoint) {c : Char} (hc : isDigit c = true) :
    Scanned start (passed ++ [c]) (some (place + 1)) (place + c.utf8Size) hasPoint where
  place_eq := by rw [h.place_eq, byteLength_append, Nat.add_assoc]; rfl
  characters := List.forall_mem_append.mpr ⟨h.characters, by simp [hc]⟩
  points := by
    rw [List.count_append, h.points, List.count_singleton, if_neg (by simpa using ne_of_isDigit hc rfl), Nat.add_zero]
  stop := by
    refine Or.inr ⟨passed ++ [c], [], by simp, ⟨c, by simp, hc⟩, nofun, ?_⟩
    rw [h.place_eq, byteLength_append, byteLength_cons, utf8Size_of_isDigit hc]
    rfl

theorem Scanned.point (h : Scanned start passed stop? place false) :
    Scanned start (passed ++ ['.']) stop? (place + '.'.utf8Size) true where
  place_eq := by rw [h.place_eq, byteLength_append, Nat.add_assoc]; rfl
  characters := List.forall_mem_append.mpr ⟨h.characters, by simp⟩
  points := by rw [List.count_append, h.points]; rfl
  stop := by
    rcases h.stop with ⟨hnone, hdigits⟩ | ⟨front, dangling, rfl, hfront, hdangling, hstop⟩
    · exact Or.inl ⟨hnone, List.forall_mem_append.mpr ⟨hdigits, by decide⟩⟩
    · refine Or.inr ⟨front, dangling ++ ['.'], by simp, hfront, ?_, hstop⟩
      exact List.forall_mem_append.mpr ⟨hdangling, by decide⟩

/-- A scan is stuck before a text whose first character it cannot pass over. -/
def Stuck (hasPoint : Bool) (rest : Text) : Prop := ∀ c ∈ rest.head?, isDigit c = false ∧ (c = '.' → hasPoint = true)

/-- **A scan goes on until it is stuck.** -/
theorem exists_scanMantissa (h : Scanned start passed stop? place hasPoint) (s : Text) :
    ∃ more rest stop?' place' hasPoint', s = more ++ rest ∧
      scanMantissa stop? place hasPoint s = (stop?', place', rest) ∧
      Scanned start (passed ++ more) stop?' place' hasPoint' ∧ Stuck hasPoint' rest := by
  fun_induction scanMantissa stop? place hasPoint s generalizing passed with
  | case1 stop? place hasPoint => exact ⟨[], [], stop?, place, hasPoint, rfl, rfl, by simpa using h, nofun⟩
  | case2 stop? place hasPoint c s hc ih =>
    obtain ⟨more, rest, stop?', place', hasPoint', rfl, hscan, hscanned, hstuck⟩ := ih (h.digit hc)
    exact ⟨c :: more, rest, stop?', place', hasPoint', rfl, hscan, by simpa using hscanned, hstuck⟩
  | case3 stop? place hasPoint c s hc hpoint ih =>
    obtain ⟨rfl, rfl⟩ := hpoint
    obtain ⟨more, rest, stop?', place', hasPoint', rfl, hscan, hscanned, hstuck⟩ := ih h.point
    exact ⟨'.' :: more, rest, stop?', place', hasPoint', rfl, hscan, by simpa using hscanned, hstuck⟩
  | case4 stop? place hasPoint c s hc hpoint =>
    refine ⟨[], c :: s, stop?, place, hasPoint, rfl, rfl, by simpa using h, fun first hfirst => ?_⟩
    cases hfirst
    exact ⟨by simpa using hc, fun hdot => by simpa [hdot] using hpoint⟩

/-- A mantissa does not go beyond the place where the scan is stuck. -/
theorem Scanned.prefix_of_isMantissa (h : Scanned start passed stop? place hasPoint) {rest mantissa : Text}
    (hstuck : Stuck hasPoint rest) (hmantissa : IsMantissa mantissa) (hbeginning : mantissa <+: passed ++ rest) :
    mantissa <+: passed := by
  rcases List.prefix_or_prefix_of_prefix hbeginning (List.prefix_append passed rest) with hshort | ⟨t, rfl⟩
  · exact hshort
  · cases t with
    | nil => simp
    | cons c t =>
      -- the character at which the scan is stuck would be one of the mantissa
      obtain ⟨others, hrest⟩ := (List.prefix_append_right_inj passed).mp hbeginning
      obtain ⟨hdigit, hpoint⟩ := hstuck c (by rw [← hrest]; rfl)
      rcases hmantissa.characters c (by simp) with hc | rfl
      · rw [hc] at hdigit
        cases hdigit
      · have hpoints := hmantissa.points
        rw [List.count_append, h.points, hpoint rfl, List.count_cons_self] at hpoints
        simp only [Bool.toNat_true] at hpoints
        omega

/-! ## Exponents -/

theorem scanDigits_eq (stop place : Nat) (s : Text) : scanDigits stop place s =
    if s.takeWhile isDigit = [] then stop else place + byteLength (s.takeWhile isDigit) := by
  fun_induction scanDigits stop place s with
  | case1 => rfl
  | case2 stop place c s hc ih =>
    rw [ih, List.takeWhile_cons_of_pos hc, if_neg (List.cons_ne_nil _ _), byteLength_cons, utf8Size_of_isDigit hc]
    split
    · next hnil => rw [hnil]; rfl
    · omega
  | case3 stop place c s hc => rw [List.takeWhile_cons_of_neg hc, if_pos rfl]

theorem prefix_takeWhile {digits s : Text} (hdigits : ∀ c ∈ digits, isDigit c = true) (h : digits <+: s) :
    digits <+: s.takeWhile isDigit := by
  obtain ⟨rest, rfl⟩ := h
  rw [List.takeWhile_append_of_pos hdigits]
  exact List.prefix_append digits _

/-- The digits of an exponent stand behind the sign that is passed over. -/
theorem IsExponent.exists_digits {other sign rest s : Text} {c : Char} (h : IsExponent other)
    (hunique : OnlySign sign rest s) (hbeginning : other <+: c :: s) :
    ∃ digits, digits ≠ [] ∧ other = c :: (sign ++ digits) ∧ digits <+: rest.takeWhile isDigit := by
  obtain ⟨mark, sign', digits, rfl, _, hsign', hne, hdigits⟩ := h
  obtain ⟨rfl, hbehind⟩ := List.cons_prefix_cons.mp hbeginning
  have hhead : ∀ c ∈ digits.head?, isSign c = false := fun c hc =>
    not_isSign_of_isDigit (hdigits c (List.mem_of_mem_head? hc))
  obtain ⟨rfl, hrest⟩ := hunique sign' digits hsign' hne hhead hbehind
  exact ⟨digits, hne, rfl, prefix_takeWhile hdigits hrest⟩

/-- **The exponent is taken as far as it goes**, and nothing is taken where there is none. -/
theorem scanExponent_cases (stop place : Nat) (s : Text) :
    (∃ exponent, IsExponent exponent ∧ exponent <+: s ∧ scanExponent stop place s = place + byteLength exponent ∧
        ∀ other, IsExponent other → other <+: s → other <+: exponent) ∨
      scanExponent stop place s = stop ∧ ∀ other, IsExponent other → ¬other <+: s := by
  cases s with
  | nil =>
    refine Or.inr ⟨rfl, fun other hother hbeginning => ?_⟩
    obtain ⟨mark, sign, digits, rfl, _⟩ := hother
    cases List.prefix_nil.mp hbeginning
  | cons c s =>
    by_cases hc : isExponentMark c = true
    · obtain ⟨sign, rest, hs, hsign, hskip, hunique⟩ := exists_skipSign (place + c.utf8Size) s
      have hscan : scanExponent stop place (c :: s) = scanDigits stop (place + c.utf8Size + byteLength sign) rest := by
        rw [scanExponent, if_pos hc, hskip]
      by_cases hnone : rest.takeWhile isDigit = []
      · refine Or.inr ⟨by rw [hscan, scanDigits_eq, if_pos hnone], fun other hother hbeginning => ?_⟩
        obtain ⟨digits, hne, _, htake⟩ := hother.exists_digits hunique hbeginning
        rw [hnone] at htake
        exact hne (List.prefix_nil.mp htake)
      · refine Or.inl ⟨c :: (sign ++ rest.takeWhile isDigit), ?_, ?_, ?_, fun other hother hbeginning => ?_⟩
        · exact ⟨c, sign, _, rfl, hc, hsign, hnone, fun c hc => List.mem_takeWhile_imp hc⟩
        · rw [hs]
          exact List.cons_prefix_cons.mpr ⟨rfl, (List.prefix_append_right_inj sign).mpr (List.takeWhile_prefix _)⟩
        · rw [hscan, scanDigits_eq, if_neg hnone, byteLength_cons, byteLength_append]
          omega
        · obtain ⟨digits, _, rfl, htake⟩ := hother.exists_digits hunique hbeginning
          exact List.cons_prefix_cons.mpr ⟨rfl, (List.prefix_append_right_inj sign).mpr htake⟩
    · refine Or.inr ⟨by simp [scanExponent, hc], fun other hother hbeginning => ?_⟩
      obtain ⟨mark, sign, digits, rfl, hmark, _⟩ := hother
      obtain ⟨rfl, _⟩ := List.cons_prefix_cons.mp hbeginning
      exact hc hmark

/-! ## Numerals -/

theorem IsMantissa.ne_nil {mantissa : Text} (h : IsMantissa mantissa) : mantissa ≠ [] := by
  obtain ⟨c, hc, _⟩ := h.digit
  exact List.ne_nil_of_mem hc

theorem IsMantissa.head?_not_isSign {mantissa : Text} (h : IsMantissa mantissa) (rest : Text) :
    ∀ c ∈ (mantissa ++ rest).head?, isSign c = false := by
  intro c hc
  rw [List.head?_append_of_ne_nil _ h.ne_nil] at hc
  rcases h.characters c (List.mem_of_mem_head? hc) with hdigit | rfl
  · exact not_isSign_of_isDigit hdigit
  · rfl

/-- The numeral has the sign that was passed over, a mantissa among the characters that were passed over behind it, and
an exponent only behind all of them. -/
def HasParts (sign passed rest numeral : Text) : Prop :=
  ∃ mantissa exponent, numeral = sign ++ (mantissa ++ exponent) ∧ IsMantissa mantissa ∧ mantissa <+: passed ∧
    (exponent = [] ∨ IsExponent exponent ∧ mantissa = passed ∧ exponent <+: rest)

/-- **Each numeral at the start of the text has these parts**, where the scan is stuck behind the characters that it
passed over. -/
theorem hasParts_of_isLeading {sign rest s other : Text} (h : Scanned start passed stop? place hasPoint)
    (hstuck : Stuck hasPoint rest) (hunique : OnlySign sign (passed ++ rest) s) (hother : IsLeading other s) :
    HasParts sign passed rest other := by
  obtain ⟨⟨sign', mantissa, exponent, rfl, hsign', hmantissa, hexponent⟩, _, hbeginning⟩ := hother
  have hne : mantissa ++ exponent ≠ [] := List.append_ne_nil_of_left_ne_nil hmantissa.ne_nil exponent
  obtain ⟨rfl, hparts⟩ := hunique sign' _ hsign' hne (hmantissa.head?_not_isSign exponent) hbeginning
  have hpassed := h.prefix_of_isMantissa hstuck hmantissa ((List.prefix_append mantissa exponent).trans hparts)
  refine ⟨mantissa, exponent, rfl, hmantissa, hpassed, hexponent.imp id fun hexponent => ?_⟩
  obtain ⟨more, rfl⟩ := hpassed
  rw [List.append_assoc, List.prefix_append_right_inj] at hparts
  cases more with
  | nil => exact ⟨hexponent, by simp, hparts⟩
  | cons c more =>
    -- the mark of the exponent would be one of the characters that the scan passed over
    obtain ⟨mark, sign, digits, rfl, hmark, _⟩ := hexponent
    obtain ⟨rfl, _⟩ := List.cons_prefix_cons.mp hparts
    obtain ⟨hdigit, hpoint⟩ := not_of_isExponentMark hmark
    rcases h.characters mark (by simp) with hc | rfl
    · rw [hc] at hdigit
      cases hdigit
    · exact absurd rfl hpoint

theorem EndsInDigit.append {t : Text} (h : EndsInDigit t) (s : Text) : EndsInDigit (s ++ t) := by
  obtain ⟨c, hlast, hc⟩ := h
  exact ⟨c, by rw [List.getLast?_append, hlast]; rfl, hc⟩

theorem IsExponent.endsInDigit {exponent : Text} (h : IsExponent exponent) : EndsInDigit exponent := by
  obtain ⟨mark, sign, digits, rfl, _, _, hne, hdigits⟩ := h
  have hlast := List.getLast_mem hne
  rw [← List.cons_append]
  exact EndsInDigit.append ⟨_, List.getLast?_eq_some_getLast hne, hdigits _ hlast⟩ (mark :: sign)

/-- A text that ends in a digit does not go beyond the last digit. -/
theorem EndsInDigit.length_le {front dangling s : Text} (h : EndsInDigit s) (hs : s <+: front ++ dangling)
    (hdangling : ∀ c ∈ dangling, isDigit c = false) : s.length ≤ front.length := by
  rcases List.prefix_or_prefix_of_prefix hs (List.prefix_append front dangling) with hshort | ⟨t, rfl⟩
  · exact hshort.length_le
  · cases t with
    | nil => simp
    | cons first t =>
      obtain ⟨c, hlast, hdigit⟩ := h
      rw [List.getLast?_append_of_ne_nil _ (List.cons_ne_nil first t)] at hlast
      have hbehind := (List.prefix_append_right_inj front).mp hs
      rw [hdangling c (hbehind.subset (List.mem_of_getLast? hlast))] at hdigit
      cases hdigit

/-- What was passed over up to the last digit, or further, is a mantissa. -/
theorem Scanned.isMantissa (h : Scanned start passed stop? place hasPoint) {front mantissa : Text}
    (hfront : EndsInDigit front) (hbehind : front <+: mantissa) (hpassed : mantissa <+: passed) :
    IsMantissa mantissa := by
  obtain ⟨c, hlast, hdigit⟩ := hfront
  have hpoints := hpassed.sublist.count_le '.'
  rw [h.points] at hpoints
  exact ⟨fun c hc => h.characters c (hpassed.subset hc), hpoints.trans hasPoint.toNat_le, c,
    hbehind.subset (List.mem_of_getLast? hlast), hdigit⟩

/-! ## The longest numeral -/

section Longest

variable {sign passed rest : Text} (hsign : IsOptionalSign sign)

include hsign

/-- Where there is an exponent, the longest numeral has it. -/
theorem isLongest_of_exponent
    (hparts : ∀ other, IsLeading other (sign ++ (passed ++ rest)) → HasParts sign passed rest other)
    (hmantissa : IsMantissa passed) {exponent : Text} (hexponent : IsExponent exponent) (hbeginning : exponent <+: rest)
    (hlongest : ∀ other, IsExponent other → other <+: rest → other <+: exponent) :
    IsLongest (sign ++ (passed ++ exponent)) (sign ++ (passed ++ rest)) where
  numeral := ⟨sign, passed, exponent, rfl, hsign, hmantissa, Or.inr hexponent⟩
  endsInDigit := by
    rw [← List.append_assoc]
    exact hexponent.endsInDigit.append _
  beginning := by rwa [List.prefix_append_right_inj, List.prefix_append_right_inj]
  longest := by
    intro other hother
    obtain ⟨mantissa, exponent', rfl, _, hpassed, hexponent'⟩ := hparts other hother
    have hle := hpassed.length_le
    simp only [List.length_append]
    rcases hexponent' with rfl | ⟨hexponent', _, hbeginning'⟩
    · rw [List.length_nil]
      omega
    · have hle' := (hlongest exponent' hexponent' hbeginning').length_le
      omega

/-- Where there is no exponent, the longest numeral ends with the last digit that was passed over. -/
theorem isLongest_of_no_exponent {front dangling : Text}
    (hparts : ∀ other, IsLeading other (sign ++ (front ++ dangling ++ rest)) → HasParts sign (front ++ dangling) rest other)
    (hmantissa : IsMantissa front) (hfront : EndsInDigit front) (hdangling : ∀ c ∈ dangling, isDigit c = false)
    (hnone : ∀ other, IsExponent other → ¬other <+: rest) :
    IsLongest (sign ++ front) (sign ++ (front ++ dangling ++ rest)) where
  numeral := ⟨sign, front, [], by rw [List.append_nil], hsign, hmantissa, Or.inl rfl⟩
  endsInDigit := hfront.append sign
  beginning := by
    rw [List.prefix_append_right_inj, List.append_assoc]
    exact List.prefix_append front _
  longest := by
    intro other hother
    obtain ⟨mantissa, exponent, rfl, hmantissa', hpassed, hexponent⟩ := hparts other hother
    rcases hexponent with rfl | ⟨hexponent, _, hbeginning⟩
    · obtain ⟨c, hlast, hdigit⟩ := hother.endsInDigit
      rw [List.append_nil, List.getLast?_append_of_ne_nil _ hmantissa'.ne_nil] at hlast
      have hle := EndsInDigit.length_le ⟨c, hlast, hdigit⟩ hpassed hdangling
      simpa using hle
    · exact absurd hbeginning (hnone exponent hexponent)

end Longest

/-- **The scan finds the longest numeral at the start of a text that ends in a digit**, or none where there is none. -/
theorem extent?_cases (s : Text) :
    (∃ taken, IsLongest taken s ∧ extent? s = some (byteLength taken)) ∨
      (∀ taken, ¬IsLeading taken s) ∧ extent? s = none := by
  obtain ⟨sign, behind, rfl, hsign, hskip, hunique⟩ := exists_skipSign 0 s
  obtain ⟨passed, rest, stop?, place, hasPoint, rfl, hscan, hscanned, hstuck⟩ :=
    exists_scanMantissa (scanned_nil (0 + byteLength sign)) behind
  rw [List.nil_append] at hscanned
  have hextent : extent? (sign ++ (passed ++ rest)) = stop?.map fun stop => scanExponent stop place rest := by
    simp only [extent?, hskip, hscan]
  have hparts : ∀ other, IsLeading other (sign ++ (passed ++ rest)) → HasParts sign passed rest other := fun other =>
    hasParts_of_isLeading hscanned hstuck hunique
  rw [hextent]
  rcases hscanned.stop with ⟨rfl, hdigits⟩ | ⟨front, dangling, rfl, hfront, hdangling, rfl⟩
  · -- without a digit there is no mantissa
    refine Or.inr ⟨fun taken htaken => ?_, rfl⟩
    obtain ⟨mantissa, exponent, _, hmantissa, hbeginning, _⟩ := hparts taken htaken
    obtain ⟨c, hc, hdigit⟩ := hmantissa.digit
    rw [hdigits c (hbeginning.subset hc)] at hdigit
    cases hdigit
  · have hbeginning : front <+: front ++ dangling := List.prefix_append front dangling
    refine Or.inl ?_
    rw [Option.map_some]
    rcases scanExponent_cases (0 + byteLength sign + byteLength front) place rest with
      ⟨exponent, hexponent, hrest, hstop, hlongest⟩ | ⟨hstop, hnone⟩
    · have hmantissa := hscanned.isMantissa hfront hbeginning (List.prefix_refl _)
      refine ⟨_, isLongest_of_exponent hsign hparts hmantissa hexponent hrest hlongest, ?_⟩
      rw [hstop, hscanned.place_eq, byteLength_append sign, byteLength_append _ exponent, Nat.zero_add, Nat.add_assoc]
    · have hmantissa := hscanned.isMantissa hfront (List.prefix_refl front) hbeginning
      refine ⟨_, isLongest_of_no_exponent hsign hparts hmantissa hfront hdangling hnone, ?_⟩
      rw [hstop, byteLength_append, Nat.zero_add]

end Numeral
end WindowRules

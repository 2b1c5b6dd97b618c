import WindowRules.Proofs.Decimal.Extent
import Mathlib

/-!
# The value of the numeral at the start of a text

Exactly the numerals are read as numerals (`Numeral.isSome_ofText?_iff`), and each of them has a value that is a number
(`Numeral.isNaN_toFloat`). So a text has the value of the longest numeral at its start, and no value exactly if there is
none (`leading_is_longest`).

* `Numeral.IsMantissa.exists_parts` — a mantissa is its digits before the point and its digits behind it.
* `Binary64.isNaN_pack` — rounding to 64 bits makes no number NaN. Proof: the bits of NaN have the largest exponent and
  a fraction, and those of an infinity have no fraction.
-/

namespace WindowRules

open Text

/-! ## Stored numbers -/

namespace Binary64

open Float.Model (Format UnpackedFloat)
open Float.Model.UnpackedFloat

theorem isNaN_unpack {bits : BitVec Format.binary64.numBits}
    (h : unpackExponent bits = -1#11 → unpackMantissa bits = 0#52) : (unpack Format.binary64 bits).isNaN = false := by
  simp only [unpack]
  split
  · next hexponent =>
    rw [if_pos (h hexponent)]
    rfl
  · split
    · split <;> rfl
    · rfl

/-- **Storing a number in 64 bits keeps it a number.** -/
theorem isNaN_pack {x : UnpackedFloat} (h : x.isNaN = false) : (Float.Model.pack x).isNaN = false := by
  refine isNaN_unpack ?_
  change unpackExponent (UnpackedFloat.pack Format.binary64 x) = -1#11 →
    unpackMantissa (UnpackedFloat.pack Format.binary64 x) = 0#52
  cases x with
  | notANumber => cases h
  | infinity sign => exact fun _ => unpackMantissa_packComponents
  | zero sign => exact fun _ => unpackMantissa_packComponents
  | finite sign mantissa exponent hpos =>
    simp only [UnpackedFloat.pack]
    split
    · exact fun _ => unpackMantissa_packComponents
    · next hsmall =>
      split
      · -- the exponent is below the one that infinity and NaN share
        intro hexponent
        rw [unpackExponent_packComponents] at hexponent
        have hlargest := congrArg BitVec.toNat hexponent
        rw [BitVec.toNat_ofNat, show (-1#11).toNat = 2047 by decide] at hlargest
        have hmod := Nat.mod_le (exponent + Format.binary64.exponentBias + (52 : Nat)).toNat (2 ^ 11)
        omega
      · intro hexponent
        rw [unpackExponent_packComponents] at hexponent
        exact absurd hexponent (by decide)

theorem isNaN_roundWithAccuracy (format : Format) (sign : Sign) (mantissa : Nat) (exponent : Int)
    (accuracy : Accuracy) : (roundWithAccuracy format sign mantissa exponent accuracy).isNaN = false := by
  simp only [roundWithAccuracy]
  split <;> rfl

theorem isNaN_toFloat (n : UInt64) : n.toFloat.isNaN = false := by
  refine isNaN_pack ?_
  simp only [UnpackedFloat.ofUInt64, UnpackedFloat.ofNat, UnpackedFloat.ofInt, UnpackedFloat.normalize, UnpackedFloat.round]
  split
  · exact isNaN_roundWithAccuracy _ _ _ _ _
  · rfl
  · exact isNaN_roundWithAccuracy _ _ _ _ _

theorem isNaN_neg {x : Float} (h : x.isNaN = false) : (-x).isNaN = false := by
  refine isNaN_pack ?_
  change x.toModel.unpack.isNaN = false at h
  cases hx : x.toModel.unpack with
  | notANumber => rw [hx] at h; cases h
  | infinity sign => rfl
  | zero sign => rfl
  | finite sign mantissa exponent hpos => rfl

/-- Whether a number is finite and not zero. -/
def isOrdinary : UnpackedFloat → Bool
  | .finite .. => true
  | _ => false

theorem isNaN_mul {format : Format} {x y : UnpackedFloat} (hx : x.isNaN = false) (hy : isOrdinary y = true) :
    (UnpackedFloat.mul format x y).isNaN = false := by
  cases y <;> cases hy
  cases x with
  | notANumber => cases hx
  | infinity sign => rfl
  | zero sign => rfl
  | finite sign mantissa exponent hpos => exact isNaN_roundWithAccuracy _ _ _ _ _

theorem isNaN_div {format : Format} {x y : UnpackedFloat} (hx : x.isNaN = false) (hy : isOrdinary y = true) :
    (UnpackedFloat.div format x y).isNaN = false := by
  cases y <;> cases hy
  cases x with
  | notANumber => cases hx
  | infinity sign => rfl
  | zero sign => rfl
  | finite sign mantissa exponent hpos => exact isNaN_roundWithAccuracy _ _ _ _ _

/-- The powers of ten that are stored exactly are neither infinite nor zero. -/
theorem isOrdinary_power : ∀ e : Fin 23, isOrdinary Float.exactlyRepresentablePowersOfTen[e].toModel.unpack = true := by
  decide

theorem isNaN_scientific (format : Format) (digits : Nat) (power : Int) :
    (UnpackedFloat.ofScientific format digits power).isNaN = false := by
  unfold UnpackedFloat.ofScientific
  split
  · rfl
  · split
    · rfl
    · split
      · rfl
      · split
        · exact isNaN_roundWithAccuracy _ _ _ _ _
        · exact isNaN_roundWithAccuracy _ _ _ _ _

/-- **Rounding a decimal gives a number.** -/
theorem isNaN_ofScientific (digits : Nat) (isSmall : Bool) (power : Nat) :
    (Float.ofScientific digits isSmall power).isNaN = false := by
  unfold Float.ofScientific
  split
  · next hsmall =>
    have hpower := isOrdinary_power ⟨power, by omega⟩
    cases isSmall with
    | true => exact isNaN_pack (isNaN_div (isNaN_toFloat digits.toUInt64) hpower)
    | false => exact isNaN_pack (isNaN_mul (isNaN_toFloat digits.toUInt64) hpower)
  · exact isNaN_pack (isNaN_scientific Format.binary64 digits _)

end Binary64

namespace Numeral

/-- **The value of a numeral is a number.** -/
theorem isNaN_toFloat (n : Numeral) : n.toFloat.isNaN = false := by
  have hmagnitude : n.magnitude.isNaN = false := by
    unfold magnitude
    simp only
    split
    · decide
    · split
      · decide
      · exact Binary64.isNaN_ofScientific _ _ _
  unfold toFloat
  split
  · exact Binary64.isNaN_neg hmagnitude
  · exact hmagnitude

/-! ## Texts that are numerals -/

/-- A sign is read off, and without one the text stays as it is. -/
theorem exists_readSign (s : Text) : ∃ sign, IsOptionalSign sign ∧ s = sign ++ (readSign s).2 := by
  unfold readSign
  split
  · exact ⟨['-'], Or.inr ⟨_, rfl, rfl⟩, rfl⟩
  · exact ⟨['+'], Or.inr ⟨_, rfl, rfl⟩, rfl⟩
  · exact ⟨[], Or.inl rfl, rfl⟩

theorem readSign_append {sign t : Text} (hsign : IsOptionalSign sign) (ht : ∀ c ∈ t.head?, isSign c = false) :
    (readSign (sign ++ t)).2 = t := by
  rcases hsign with rfl | ⟨c, hc, rfl⟩
  · cases t with
    | nil => rfl
    | cons c t =>
      have hc := ht c rfl
      unfold readSign
      split
      · next heq => cases heq; cases hc
      · next heq => cases heq; cases hc
      · rfl
  · simp only [isSign, Bool.or_eq_true, beq_iff_eq] at hc
    rcases hc with rfl | rfl <;> rfl

/-- The digits at the start of a text that goes on with no digit. -/
theorem takeWhile_digits {digits rest : Text} (hdigits : ∀ c ∈ digits, isDigit c = true)
    (hrest : ∀ c ∈ rest.head?, isDigit c = false) :
    (digits ++ rest).takeWhile isDigit = digits ∧ (digits ++ rest).dropWhile isDigit = rest := by
  rw [List.takeWhile_append_of_pos hdigits, List.dropWhile_append_of_pos hdigits]
  cases rest with
  | nil => simp
  | cons c rest => simp [hrest c rfl]

/-- **A mantissa is its digits before the point and its digits behind it**, and one of the two rows is not empty. -/
theorem IsMantissa.exists_parts {mantissa : Text} (h : IsMantissa mantissa) :
    ∃ whole fraction, (∀ c ∈ whole, isDigit c = true) ∧ (∀ c ∈ fraction, isDigit c = true) ∧
      ¬(whole = [] ∧ fraction = []) ∧ (mantissa = whole ∧ fraction = [] ∨ mantissa = whole ++ '.' :: fraction) := by
  have hwhole : ∀ c ∈ mantissa.takeWhile isDigit, isDigit c = true := fun c hc => List.mem_takeWhile_imp hc
  obtain ⟨digit, hmem, hdigit⟩ := h.digit
  cases hrest : mantissa.dropWhile isDigit with
  | nil =>
    have heq : mantissa = mantissa.takeWhile isDigit := by
      conv_lhs => rw [← List.takeWhile_append_dropWhile (p := isDigit) (l := mantissa), hrest, List.append_nil]
    refine ⟨mantissa.takeWhile isDigit, [], hwhole, nofun, fun hnil => ?_, Or.inl ⟨heq, rfl⟩⟩
    rw [heq, hnil.1] at hmem
    cases hmem
  | cons c fraction =>
    have heq : mantissa = mantissa.takeWhile isDigit ++ c :: fraction := by
      rw [← hrest, List.takeWhile_append_dropWhile]
    have hnot : isDigit c = false := by
      have hhead := List.head?_dropWhile_not isDigit mantissa
      rw [hrest] at hhead
      simpa using hhead
    have hpoint : c = '.' := by
      rcases h.characters c (by rw [heq]; simp) with hc | hc
      · rw [hc] at hnot
        cases hnot
      · exact hc
    obtain rfl := hpoint
    have hpoints := h.points
    rw [heq, List.count_append, List.count_cons_self] at hpoints
    -- another point would be the second one
    have hfraction : ∀ c ∈ fraction, isDigit c = true := fun c hc => by
      rcases h.characters c (by rw [heq]; simp [hc]) with hc | rfl
      · exact hc
      · have hpos := List.count_pos_iff.mpr hc
        omega
    refine ⟨mantissa.takeWhile isDigit, fraction, hwhole, hfraction, fun hnil => ?_, Or.inr heq⟩
    rw [heq, hnil.1, hnil.2, List.nil_append, List.mem_singleton] at hmem
    rw [hmem] at hdigit
    cases hdigit

theorem isSome_exponentOfText?_iff {s : Text} : (exponentOfText? s).isSome = true ↔ s = [] ∨ IsExponent s := by
  cases s with
  | nil => simp [exponentOfText?]
  | cons mark s =>
    simp only [exponentOfText?, reduceCtorEq, false_or]
    constructor
    · intro h
      split at h
      · next hexponent =>
        obtain ⟨hmark, hne, hdigits⟩ := hexponent
        obtain ⟨sign, hsign, hs⟩ := exists_readSign s
        exact ⟨mark, sign, _, by rw [← hs], hmark, hsign, hne, List.all_eq_true.mp hdigits⟩
      · cases h
    · rintro ⟨first, sign, digits, heq, hmark, hsign, hne, hdigits⟩
      obtain ⟨rfl, rfl⟩ := List.cons.inj heq
      have hhead : ∀ c ∈ digits.head?, isSign c = false := fun c hc =>
        not_isSign_of_isDigit (hdigits c (List.mem_of_mem_head? hc))
      rw [readSign_append hsign hhead, if_pos ⟨hmark, hne, List.all_eq_true.mpr hdigits⟩]
      rfl

/-- No digit and no point begins what may stand behind a mantissa. -/
theorem head?_exponent {exponent : Text} (h : exponent = [] ∨ IsExponent exponent) :
    ∀ c ∈ exponent.head?, isDigit c = false ∧ c ≠ '.' := by
  rcases h with rfl | ⟨mark, sign, digits, rfl, hmark, _⟩
  · exact nofun
  · intro c hc
    cases hc
    exact not_of_isExponentMark hmark

theorem count_point {digits : Text} (h : ∀ c ∈ digits, isDigit c = true) : digits.count '.' = 0 :=
  List.count_eq_zero.mpr fun hm => by cases h '.' hm

/-- Digits are a mantissa, with a point behind them or without, and with digits behind the point or without. -/
theorem isMantissa_of_parts {whole fraction : Text} (hwhole : ∀ c ∈ whole, isDigit c = true)
    (hfraction : ∀ c ∈ fraction, isDigit c = true) (hne : ¬(whole = [] ∧ fraction = [])) :
    IsMantissa (whole ++ '.' :: fraction) ∧ (fraction = [] → IsMantissa whole) := by
  have hdigit : ∀ {digits : Text}, digits ≠ [] → (∀ c ∈ digits, isDigit c = true) → ∃ c ∈ digits, isDigit c = true :=
    fun hne hdigits => by
      obtain ⟨c, hc⟩ := List.exists_mem_of_ne_nil _ hne
      exact ⟨c, hc, hdigits c hc⟩
  refine ⟨⟨fun c hc => ?_, ?_, ?_⟩, fun hnil => ⟨fun c hc => Or.inl (hwhole c hc), ?_, ?_⟩⟩
  · rcases List.mem_append.mp hc with hc | hc
    · exact Or.inl (hwhole c hc)
    · exact (List.mem_cons.mp hc).elim Or.inr fun hc => Or.inl (hfraction c hc)
  · rw [List.count_append, List.count_cons_self, count_point hwhole, count_point hfraction]
  · by_cases hempty : whole = []
    · obtain ⟨c, hc, hdigit⟩ := hdigit (fun hnil => hne ⟨hempty, hnil⟩) hfraction
      exact ⟨c, by simp [hc], hdigit⟩
    · obtain ⟨c, hc, hdigit⟩ := hdigit hempty hwhole
      exact ⟨c, by simp [hc], hdigit⟩
  · rw [count_point hwhole]
    exact Nat.zero_le 1
  · exact hdigit (fun hempty => hne ⟨hempty, hnil⟩) hwhole

/-- A text is read as a numeral exactly if it has a digit before the point or behind it and goes on with an exponent or
with nothing. -/
theorem isSome_ofText?_iff_parts {s t : Text} (h : (readSign s).2 = t) : (ofText? s).isSome = true ↔
    ¬(t.takeWhile isDigit = [] ∧ (readFraction (t.dropWhile isDigit)).1 = []) ∧
      (exponentOfText? (readFraction (t.dropWhile isDigit)).2).isSome = true := by
  subst h
  simp only [ofText?]
  split
  · next hnone => simp [hnone]
  · next hsome => rw [Option.isSome_map, and_iff_right hsome]

/-- **Exactly the numerals are read as numerals.** -/
theorem isSome_ofText?_iff {s : Text} : (ofText? s).isSome = true ↔ IsNumeral s := by
  constructor
  · intro h
    obtain ⟨sign, hsign, hs⟩ := exists_readSign s
    obtain ⟨hne, hexponent⟩ := (isSome_ofText?_iff_parts rfl).mp h
    rw [isSome_exponentOfText?_iff] at hexponent
    have hwhole : ∀ c ∈ (readSign s).2.takeWhile isDigit, isDigit c = true := fun c hc => List.mem_takeWhile_imp hc
    have hparts := List.takeWhile_append_dropWhile (p := isDigit) (l := (readSign s).2)
    generalize (readSign s).2.takeWhile isDigit = whole at *
    generalize (readSign s).2.dropWhile isDigit = behind at *
    unfold readFraction at hne hexponent
    split at hexponent
    · next behind =>
      have hfraction : ∀ c ∈ behind.takeWhile isDigit, isDigit c = true := fun c hc => List.mem_takeWhile_imp hc
      refine ⟨sign, _, _, ?_, hsign, (isMantissa_of_parts hwhole hfraction hne).1, hexponent⟩
      rw [hs, ← hparts, List.append_assoc, List.cons_append, List.takeWhile_append_dropWhile]
    · next hpoint =>
      have hnil : ¬(whole = [] ∧ ([] : Text) = []) := by simpa using hne
      have hnone : ∀ c ∈ ([] : Text), isDigit c = true := by simp
      refine ⟨sign, whole, behind, by rw [hs, ← hparts], hsign, (isMantissa_of_parts hwhole hnone hnil).2 rfl, hexponent⟩
  · rintro ⟨sign, mantissa, exponent, rfl, hsign, hmantissa, hexponent⟩
    have hbehind := head?_exponent hexponent
    obtain ⟨whole, fraction, hwhole, hfraction, hne, hparts⟩ := hmantissa.exists_parts
    rw [isSome_ofText?_iff_parts (readSign_append hsign (hmantissa.head?_not_isSign exponent))]
    have hdigits := takeWhile_digits hfraction fun c hc => (hbehind c hc).1
    rcases hparts with ⟨rfl, rfl⟩ | rfl
    · obtain ⟨htake, hdrop⟩ := takeWhile_digits hwhole fun c hc => (hbehind c hc).1
      have hfraction : readFraction exponent = ([], exponent) := by
        unfold readFraction
        split
        · exact absurd rfl (hbehind '.' rfl).2
        · rfl
      rw [htake, hdrop, hfraction]
      exact ⟨hne, isSome_exponentOfText?_iff.mpr hexponent⟩
    · rw [List.append_assoc, List.cons_append]
      have hpoint : ∀ c ∈ ('.' :: (fraction ++ exponent)).head?, isDigit c = false := by simp [isDigit]
      obtain ⟨htake, hdrop⟩ := takeWhile_digits hwhole hpoint
      rw [htake, hdrop, readFraction, hdigits.1, hdigits.2]
      exact ⟨hne, isSome_exponentOfText?_iff.mpr hexponent⟩

/-! ## The value -/

theorem isNaN_nothing : (0.0 / 0.0 : Float).isNaN = true := by decide

/-- **A numeral that was found is cut out whole and read.** -/
theorem exists_read_of_isLongest {taken s : Text} (h : IsLongest taken s) (hextent : extent? s = some (byteLength taken)) :
    takeBytes? (byteLength taken) s = some taken ∧ ∃ number, ofText? taken = some number ∧ read? s = some number := by
  obtain ⟨rest, hrest⟩ := h.beginning
  have hcut : takeBytes? (byteLength taken) s = some taken := takeBytes?_eq_some_iff.mpr ⟨rfl, rest, hrest.symm⟩
  obtain ⟨number, hnumber⟩ := Option.isSome_iff_exists.mp (isSome_ofText?_iff.mpr h.numeral)
  exact ⟨hcut, number, hnumber, by simp [read?, hextent, hcut, hnumber]⟩

end Numeral

/-- **The value of the longest numeral.** Let blanks at the start of a text be left out. If it begins with a numeral that
ends in a digit, then the scan ends behind the longest one, at the end of a character; what is cut out there is read as
a numeral, and the text has its value, which is a number. If the text begins with none, then it has no value. So its
value is NaN exactly if it begins with no numeral that ends in a digit. -/
theorem leading_is_longest (s : Text) :
    ((Numeral.leading s).isNaN = true ↔ ¬∃ taken, Numeral.IsLeading taken (trimStart s)) ∧
      ((∃ taken number, Numeral.IsLongest taken (trimStart s) ∧
          Numeral.extent? (trimStart s) = some (byteLength taken) ∧
          takeBytes? (byteLength taken) (trimStart s) = some taken ∧
          Numeral.ofText? taken = some number ∧ Numeral.leading s = number.toFloat) ∨
        Numeral.extent? (trimStart s) = none ∧ ¬∃ taken, Numeral.IsLeading taken (trimStart s)) := by
  rcases Numeral.extent?_cases (trimStart s) with ⟨taken, hlongest, hextent⟩ | ⟨hnone, hextent⟩
  · obtain ⟨hcut, number, hnumber, hread⟩ := Numeral.exists_read_of_isLongest hlongest hextent
    have hvalue : Numeral.leading s = number.toFloat := by simp only [Numeral.leading, hread]
    refine ⟨iff_of_false ?_ (not_not_intro ⟨taken, hlongest.toIsLeading⟩), Or.inl ⟨taken, number, hlongest, hextent, hcut,
      hnumber, hvalue⟩⟩
    rw [hvalue, Numeral.isNaN_toFloat]
    exact Bool.false_ne_true
  · have hread : Numeral.read? (trimStart s) = none := by simp [Numeral.read?, hextent]
    have hvalue : Numeral.leading s = 0.0 / 0.0 := by simp only [Numeral.leading, hread]
    have hnone' : ¬∃ taken, Numeral.IsLeading taken (trimStart s) := not_exists.mpr hnone
    exact ⟨iff_of_true (hvalue ▸ Numeral.isNaN_nothing) hnone', Or.inr ⟨hextent, hnone'⟩⟩

/-- A dangling point and an exponent without a digit are left behind. -/
example : ["5.", "12.5.1", "+.5e-3x", "1e+", ".e5", "-"].map (Numeral.extent? ·.toList) =
    [some 1, some 4, some 6, some 1, none, none] := by decide

end WindowRules

import WindowRules.Text.Blank

/-!
# The order of texts

Texts are ordered by their first difference: a text comes before its continuations, and otherwise the code points at the
first place where two texts differ decide (`precedes`). The order is total (`precedes_total`), transitive
(`precedes_trans`) and tells different texts apart (`precedes_antisymm`), so a list of texts has one sorted form
(`sort`).
-/

namespace WindowRules
namespace Text

/-- Whether the first text comes before the second one or is equal to it. -/
def precedes : Text → Text → Bool
  | [], _ => true
  | _ :: _, [] => false
  | c :: s, d :: t => c.toNat < d.toNat || (c == d && precedes s t)

/-- Puts a text into an ordered list, before the first text that it precedes. -/
def place (text : Text) : List Text → List Text
  | [] => [text]
  | head :: tail => if precedes text head then text :: head :: tail else head :: place text tail

/-- The texts of a list in order. -/
def sort : List Text → List Text
  | [] => []
  | head :: tail => place head (sort tail)

/-- Of two texts one comes first. -/
theorem precedes_total (s t : Text) : precedes s t || precedes t s := by
  induction s generalizing t with
  | nil => simp [precedes]
  | cons c s ih =>
    cases t with
    | nil => simp [precedes]
    | cons d t =>
      rcases Nat.lt_trichotomy c.toNat d.toNat with h | h | h
      · simp [precedes, h]
      · obtain rfl := Char.toNat_inj.mp h
        simpa [precedes] using ih t
      · simp [precedes, h]

/-- The order passes through a text between two others. -/
theorem precedes_trans {s t u : Text} (hst : precedes s t) (htu : precedes t u) : precedes s u := by
  induction s generalizing t u with
  | nil => rfl
  | cons c s ih =>
    cases t with
    | nil => simp [precedes] at hst
    | cons d t =>
      cases u with
      | nil => simp [precedes] at htu
      | cons e u =>
        simp only [precedes, Bool.or_eq_true, decide_eq_true_eq, Bool.and_eq_true, beq_iff_eq] at hst htu ⊢
        rcases hst with hcd | ⟨rfl, hst⟩
        · rcases htu with hde | ⟨rfl, _⟩
          · exact Or.inl (Nat.lt_trans hcd hde)
          · exact Or.inl hcd
        · rcases htu with hce | ⟨rfl, htu⟩
          · exact Or.inl hce
          · exact Or.inr ⟨rfl, ih hst htu⟩

/-- Texts that come before each other are equal. -/
theorem precedes_antisymm {s t : Text} (hst : precedes s t) (hts : precedes t s) : s = t := by
  induction s generalizing t with
  | nil =>
    cases t with
    | nil => rfl
    | cons d t => simp [precedes] at hts
  | cons c s ih =>
    cases t with
    | nil => simp [precedes] at hst
    | cons d t =>
      simp only [precedes, Bool.or_eq_true, decide_eq_true_eq, Bool.and_eq_true, beq_iff_eq] at hst hts
      rcases hst with hcd | ⟨rfl, hst⟩
      · rcases hts with hdc | ⟨rfl, _⟩
        · omega
        · omega
      · rcases hts with hdc | ⟨_, hts⟩
        · omega
        · rw [ih hst hts]

/-- A text that is placed is added to the list. -/
theorem place_perm (text : Text) (texts : List Text) : (place text texts).Perm (text :: texts) := by
  induction texts with
  | nil => exact List.Perm.refl _
  | cons head tail ih =>
    rw [place]
    split
    · exact List.Perm.refl _
    · exact (ih.cons head).trans (List.Perm.swap text head tail)

/-- Sorting keeps the texts of the list. -/
theorem sort_perm (texts : List Text) : (sort texts).Perm texts := by
  induction texts with
  | nil => exact List.Perm.refl _
  | cons head tail ih => exact (place_perm head (sort tail)).trans (ih.cons head)

/-- Placing a text keeps the order. -/
theorem pairwise_place (text : Text) {texts : List Text} (h : texts.Pairwise fun s t => precedes s t) :
    (place text texts).Pairwise fun s t => precedes s t := by
  induction texts with
  | nil => simp [place]
  | cons head tail ih =>
    obtain ⟨hhead, htail⟩ := List.pairwise_cons.mp h
    rw [place]
    split
    · next hp =>
      refine List.pairwise_cons.mpr ⟨fun other ho => ?_, h⟩
      rcases List.mem_cons.mp ho with rfl | ho
      · exact hp
      · exact precedes_trans hp (hhead other ho)
    · next hp =>
      refine List.pairwise_cons.mpr ⟨fun other ho => ?_, ih htail⟩
      rcases List.mem_cons.mp ((place_perm text tail).mem_iff.mp ho) with rfl | ho
      · simpa [hp] using precedes_total other head
      · exact hhead other ho

/-- A sorted list is in order. -/
theorem pairwise_sort (texts : List Text) : (sort texts).Pairwise fun s t => precedes s t := by
  induction texts with
  | nil => exact List.Pairwise.nil
  | cons head tail ih => exact pairwise_place head ih

/-- **Lists with the same texts have the same sorted form.** -/
theorem sort_eq_of_perm {texts others : List Text} (h : texts.Perm others) : sort texts = sort others :=
  List.Perm.eq_of_pairwise (fun _ _ _ _ hst hts => precedes_antisymm hst hts) (pairwise_sort texts)
    (pairwise_sort others) ((sort_perm texts).trans (h.trans (sort_perm others).symm))

end Text
end WindowRules

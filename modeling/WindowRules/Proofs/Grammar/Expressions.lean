import WindowRules.Text.Blank
import Mathlib.Data.List.Basic

/-!
# Parsing expressions

The lines of rules are given by a grammar of parsing expressions. Alternatives are tried in order, a repetition takes
all it can and gives nothing back, and a look-ahead takes nothing (`Grammar.Runs`). A run of an expression matches the
beginning of a text and leaves the rest, or it fails. It tells the tokens that were read, and the places where it could
not go on; the furthest of these is where an error is reported (`Grammar.Furthest`).

* `Runs.unique` — an expression has at most one run on a text. Proof: by induction on the run, one case for each way to
  go on.
* `runs_star_char`, `Spots.runs_star_anyBut` — a repetition of single characters takes the longest stretch of its class
  and misses the place behind it.
-/

namespace WindowRules
namespace Grammar

/-! ## Expressions -/

/-- The rules of the grammar whose text is told as a token. -/
inductive Part where
  /-- What stands before the equals sign of a rule on one line. -/
  | head
  /-- What stands between two commas of a rule on one line. -/
  | fragment
  /-- The key of an entry of a block. -/
  | key
  /-- The value of an entry of a block. -/
  | value
deriving DecidableEq, Repr

/-- The text that was read for a rule of the grammar. -/
structure Token where
  /-- The rule. -/
  part : Part
  /-- What was read. -/
  text : Text
deriving DecidableEq, Repr

/-- A parsing expression. -/
inductive Expression where
  /-- Nothing. -/
  | empty
  /-- A character of a class. -/
  | char (p : Char → Bool)
  /-- The end of the text. -/
  | finish
  /-- Two expressions one after the other. -/
  | seq (first second : Expression)
  /-- The first of two expressions that matches. -/
  | choice (first second : Expression)
  /-- An expression as often as it matches. -/
  | star (body : Expression)
  /-- Nothing, at a place where the expression does not match. -/
  | absent (body : Expression)
  /-- An expression whose text is told as one token. -/
  | token (part : Part) (body : Expression)

namespace Expression

/-- The given character. -/
def literal (c : Char) : Expression := char (· == c)

/-- Any character. -/
def any : Expression := char fun _ => true

/-- Any character at a place where the expression does not match. -/
def anyBut (body : Expression) : Expression := seq (absent body) any

/-- An expression at least once. -/
def plus (body : Expression) : Expression := seq body (star body)

/-- An expression, or nothing. -/
def optional (body : Expression) : Expression := choice body empty

end Expression

/-! ## Runs -/

/-- How a run ends: with the rest of the text and the tokens of what was read, or without a match. -/
abbrev Outcome := Option (Text × List Token)

/-- **The runs of an expression on a text.** `missed` lists the places where the run could not go on as it tried to, each
as the rest of the text. What a look-ahead tries is not listed, but only the place where it does not hold. -/
inductive Runs : Expression → Text → List Text → Outcome → Prop
  | empty (s : Text) : Runs .empty s [] (some (s, []))
  | char {p : Char → Bool} {c : Char} (h : p c = true) (s : Text) : Runs (.char p) (c :: s) [] (some (s, []))
  | charOther {p : Char → Bool} {c : Char} (h : p c = false) (s : Text) : Runs (.char p) (c :: s) [c :: s] none
  | charEnd (p : Char → Bool) : Runs (.char p) [] [[]] none
  | finish : Runs .finish [] [] (some ([], []))
  | finishOther (c : Char) (s : Text) : Runs .finish (c :: s) [c :: s] none
  | seq {first second : Expression} {s rest : Text} {missed others : List Text} {tokens : List Token}
      {outcome : Outcome} : Runs first s missed (some (rest, tokens)) → Runs second rest others outcome →
      Runs (.seq first second) s (missed ++ others) (outcome.map fun (rest, more) => (rest, tokens ++ more))
  | seqFails {first second : Expression} {s : Text} {missed : List Text} : Runs first s missed none →
      Runs (.seq first second) s missed none
  | choiceFirst {first second : Expression} {s rest : Text} {missed : List Text} {tokens : List Token} :
      Runs first s missed (some (rest, tokens)) → Runs (.choice first second) s missed (some (rest, tokens))
  | choiceSecond {first second : Expression} {s : Text} {missed others : List Text} {outcome : Outcome} :
      Runs first s missed none → Runs second s others outcome →
      Runs (.choice first second) s (missed ++ others) outcome
  | starMore {body : Expression} {s rest : Text} {missed others : List Text} {tokens : List Token} {outcome : Outcome} :
      Runs body s missed (some (rest, tokens)) → Runs (.star body) rest others outcome →
      Runs (.star body) s (missed ++ others) (outcome.map fun (rest, more) => (rest, tokens ++ more))
  | starStops {body : Expression} {s : Text} {missed : List Text} : Runs body s missed none →
      Runs (.star body) s missed (some (s, []))
  | absent {body : Expression} {s : Text} {missed : List Text} : Runs body s missed none →
      Runs (.absent body) s [] (some (s, []))
  | absentFails {body : Expression} {s rest : Text} {missed : List Text} {tokens : List Token} :
      Runs body s missed (some (rest, tokens)) → Runs (.absent body) s [s] none
  | token {part : Part} {body : Expression} {taken rest : Text} {missed : List Text} {tokens : List Token} :
      Runs body (taken ++ rest) missed (some (rest, tokens)) →
      Runs (.token part body) (taken ++ rest) missed (some (rest, [⟨part, taken⟩]))
  | tokenFails {part : Part} {body : Expression} {s : Text} {missed : List Text} : Runs body s missed none →
      Runs (.token part body) s missed none

/-- The expression matches the beginning of the text, leaves the rest and tells the tokens. -/
def Matches (e : Expression) (s rest : Text) (tokens : List Token) : Prop :=
  ∃ missed, Runs e s missed (some (rest, tokens))

/-- The expression does not match the beginning of the text. -/
def Fails (e : Expression) (s : Text) : Prop := ∃ missed, Runs e s missed none

/-- The furthest of the places that were missed. -/
structure Furthest (missed : List Text) (rest : Text) : Prop where
  mem : rest ∈ missed
  least : ∀ other ∈ missed, rest.length ≤ other.length

/-- **An expression has at most one run on a text.** -/
theorem Runs.unique {e : Expression} {s : Text} {missed missed' : List Text} {outcome outcome' : Outcome}
    (h : Runs e s missed outcome) (h' : Runs e s missed' outcome') : missed = missed' ∧ outcome = outcome' := by
  induction h generalizing missed' outcome' with
  | empty s => cases h'; exact ⟨rfl, rfl⟩
  | char hp s =>
    cases h' with
    | char _ _ => exact ⟨rfl, rfl⟩
    | charOther hp' _ => rw [hp] at hp'; cases hp'
  | charOther hp s =>
    cases h' with
    | char hp' _ => rw [hp] at hp'; cases hp'
    | charOther _ _ => exact ⟨rfl, rfl⟩
  | charEnd p => cases h'; exact ⟨rfl, rfl⟩
  | finish => cases h'; exact ⟨rfl, rfl⟩
  | finishOther c s => cases h'; exact ⟨rfl, rfl⟩
  | seq _ _ ihfirst ihsecond =>
    cases h' with
    | seq hfirst hsecond =>
      obtain ⟨rfl, heq⟩ := ihfirst hfirst
      cases heq
      obtain ⟨rfl, rfl⟩ := ihsecond hsecond
      exact ⟨rfl, rfl⟩
    | seqFails hfirst => cases (ihfirst hfirst).2
  | seqFails _ ih =>
    cases h' with
    | seq hfirst _ => cases (ih hfirst).2
    | seqFails hfirst => exact ⟨(ih hfirst).1, rfl⟩
  | choiceFirst _ ih =>
    cases h' with
    | choiceFirst hfirst => exact ih hfirst
    | choiceSecond hfirst _ => cases (ih hfirst).2
  | choiceSecond _ _ ihfirst ihsecond =>
    cases h' with
    | choiceFirst hfirst => cases (ihfirst hfirst).2
    | choiceSecond hfirst hsecond =>
      obtain ⟨rfl, _⟩ := ihfirst hfirst
      obtain ⟨rfl, rfl⟩ := ihsecond hsecond
      exact ⟨rfl, rfl⟩
  | starMore _ _ ihbody ihstar =>
    cases h' with
    | starMore hbody hstar =>
      obtain ⟨rfl, heq⟩ := ihbody hbody
      cases heq
      obtain ⟨rfl, rfl⟩ := ihstar hstar
      exact ⟨rfl, rfl⟩
    | starStops hbody => cases (ihbody hbody).2
  | starStops _ ih =>
    cases h' with
    | starMore hbody _ => cases (ih hbody).2
    | starStops hbody => exact ⟨(ih hbody).1, rfl⟩
  | absent _ ih =>
    cases h' with
    | absent _ => exact ⟨rfl, rfl⟩
    | absentFails hbody => cases (ih hbody).2
  | absentFails _ ih =>
    cases h' with
    | absent hbody => cases (ih hbody).2
    | absentFails _ => exact ⟨rfl, rfl⟩
  | @token part body taken rest missed tokens _ ih =>
    generalize hs : taken ++ rest = s at h'
    cases h' with
    | token hbody =>
      rw [← hs] at hbody
      obtain ⟨rfl, heq⟩ := ih hbody
      cases heq
      rw [List.append_cancel_right hs]
      exact ⟨rfl, rfl⟩
    | tokenFails hbody =>
      rw [← hs] at hbody
      cases (ih hbody).2
  | tokenFails _ ih =>
    cases h' with
    | token hbody => cases (ih hbody).2
    | tokenFails hbody => exact ⟨(ih hbody).1, rfl⟩

theorem Matches.unique {e : Expression} {s rest rest' : Text} {tokens tokens' : List Token}
    (h : Matches e s rest tokens) (h' : Matches e s rest' tokens') : rest = rest' ∧ tokens = tokens' := by
  obtain ⟨_, h⟩ := h
  obtain ⟨_, h'⟩ := h'
  have heq := (h.unique h').2
  cases heq
  exact ⟨rfl, rfl⟩

/-- No expression both matches and fails. -/
theorem Matches.not_fails {e : Expression} {s rest : Text} {tokens : List Token} (h : Matches e s rest tokens) :
    ¬Fails e s := by
  rintro ⟨_, h'⟩
  obtain ⟨_, h⟩ := h
  cases (h.unique h').2

/-! ## Matches one after the other -/

theorem Matches.seq {first second : Expression} {s rest final : Text} {tokens more : List Token}
    (h : Matches first s rest tokens) (hsecond : Matches second rest final more) :
    Matches (.seq first second) s final (tokens ++ more) := by
  obtain ⟨_, h⟩ := h
  obtain ⟨_, hsecond⟩ := hsecond
  exact ⟨_, .seq h hsecond⟩

theorem Fails.seq {first second : Expression} {s : Text} (h : Fails first s) : Fails (.seq first second) s := by
  obtain ⟨_, h⟩ := h
  exact ⟨_, .seqFails h⟩

theorem Matches.seq_fails {first second : Expression} {s rest : Text} {tokens : List Token}
    (h : Matches first s rest tokens) (hsecond : Fails second rest) : Fails (.seq first second) s := by
  obtain ⟨_, h⟩ := h
  obtain ⟨_, hsecond⟩ := hsecond
  exact ⟨_, .seq h hsecond⟩

theorem Matches.choice_first {first second : Expression} {s rest : Text} {tokens : List Token}
    (h : Matches first s rest tokens) : Matches (.choice first second) s rest tokens := by
  obtain ⟨_, h⟩ := h
  exact ⟨_, .choiceFirst h⟩

theorem Fails.choice_second {first second : Expression} {s rest : Text} {tokens : List Token} (h : Fails first s)
    (hsecond : Matches second s rest tokens) : Matches (.choice first second) s rest tokens := by
  obtain ⟨_, h⟩ := h
  obtain ⟨_, hsecond⟩ := hsecond
  exact ⟨_, .choiceSecond h hsecond⟩

theorem Matches.star {body : Expression} {s rest final : Text} {tokens more : List Token}
    (h : Matches body s rest tokens) (hstar : Matches (.star body) rest final more) :
    Matches (.star body) s final (tokens ++ more) := by
  obtain ⟨_, h⟩ := h
  obtain ⟨_, hstar⟩ := hstar
  exact ⟨_, .starMore h hstar⟩

theorem Fails.star {body : Expression} {s : Text} (h : Fails body s) : Matches (.star body) s s [] := by
  obtain ⟨_, h⟩ := h
  exact ⟨_, .starStops h⟩

theorem Fails.choice {first second : Expression} {s : Text} (h : Fails first s) (hsecond : Fails second s) :
    Fails (.choice first second) s := by
  obtain ⟨_, h⟩ := h
  obtain ⟨_, hsecond⟩ := hsecond
  exact ⟨_, .choiceSecond h hsecond⟩

/-- The text of a token is what its expression took. -/
theorem Matches.token {part : Part} {body : Expression} {taken rest : Text} {tokens : List Token}
    (h : Matches body (taken ++ rest) rest tokens) :
    Matches (.token part body) (taken ++ rest) rest [⟨part, taken⟩] := by
  obtain ⟨_, h⟩ := h
  exact ⟨_, .token h⟩

theorem matches_literal (c : Char) (s : Text) : Matches (.literal c) (c :: s) s [] :=
  ⟨_, .char (p := (· == c)) (beq_self_eq_true c) s⟩

/-! ## Classes of characters -/

/-- A stretch of a class ends in front of a character of another one. -/
theorem dropWhile_append_eq {p : Char → Bool} {s rest : Text} (hs : ∀ c ∈ s, p c = true)
    (hrest : ∀ c ∈ rest.head?, p c = false) : (s ++ rest).dropWhile p = rest := by
  rw [List.dropWhile_append_of_pos hs]
  cases rest with
  | nil => rfl
  | cons c rest => exact List.dropWhile_cons_of_neg (by simp [hrest c rfl])

/-- The expression matches exactly where a character of the class comes next. -/
structure Spots (body : Expression) (p : Char → Bool) : Prop where
  found : ∀ {c : Char}, p c = true → ∀ s, ∃ rest tokens, Matches body (c :: s) rest tokens
  other : ∀ {c : Char}, p c = false → ∀ s, Fails body (c :: s)
  nil : Fails body []

theorem spots_char (p : Char → Bool) : Spots (.char p) p where
  found := fun hc s => ⟨s, [], _, .char hc s⟩
  other := fun hc s => ⟨_, .charOther hc s⟩
  nil := ⟨_, .charEnd p⟩

theorem Spots.choice {first second : Expression} {p q : Char → Bool} (h : Spots first p) (hsecond : Spots second q) :
    Spots (.choice first second) fun c => p c || q c where
  found := by
    intro c hc s
    cases hp : p c with
    | true =>
      obtain ⟨rest, tokens, _, hrun⟩ := h.found hp s
      exact ⟨rest, tokens, _, .choiceFirst hrun⟩
    | false =>
      obtain ⟨_, hfails⟩ := h.other hp s
      obtain ⟨rest, tokens, _, hrun⟩ := hsecond.found (by simpa [hp] using hc) s
      exact ⟨rest, tokens, _, .choiceSecond hfails hrun⟩
  other := by
    intro c hc s
    obtain ⟨hp, hq⟩ := Bool.or_eq_false_iff.mp hc
    exact (h.other hp s).choice (hsecond.other hq s)
  nil := h.nil.choice hsecond.nil

/-- A repetition of a class takes the longest stretch of it, and misses the place behind. -/
theorem runs_star_char (p : Char → Bool) (s : Text) :
    Runs (.star (.char p)) s [s.dropWhile p] (some (s.dropWhile p, [])) := by
  induction s with
  | nil => exact .starStops (.charEnd p)
  | cons c s ih =>
    cases hc : p c with
    | true =>
      rw [List.dropWhile_cons_of_pos hc]
      exact .starMore (.char hc s) ih
    | false =>
      rw [List.dropWhile_cons_of_neg (by simp [hc])]
      exact .starStops (.charOther hc s)

namespace Spots

variable {body : Expression} {p : Char → Bool} (h : Spots body p)

include h

theorem runs_anyBut {c : Char} (hc : p c = false) (s : Text) : Runs (.anyBut body) (c :: s) [] (some (s, [])) := by
  obtain ⟨_, hfails⟩ := h.other hc s
  exact .seq (.absent hfails) (.char rfl s)

theorem anyBut_fails {c : Char} (hc : p c = true) (s : Text) : Runs (.anyBut body) (c :: s) [c :: s] none := by
  obtain ⟨rest, tokens, _, hrun⟩ := h.found hc s
  exact .seqFails (.absentFails hrun)

theorem anyBut_nil : Runs (.anyBut body) [] [[]] none := by
  obtain ⟨_, hfails⟩ := h.nil
  exact .seq (.absent hfails) (.charEnd _)

/-- A repetition that stops in front of a class takes the longest stretch without it. -/
theorem runs_star_anyBut (s : Text) :
    Runs (.star (.anyBut body)) s [s.dropWhile (!p ·)] (some (s.dropWhile (!p ·), [])) := by
  induction s with
  | nil => exact .starStops h.anyBut_nil
  | cons c s ih =>
    cases hc : p c with
    | false =>
      rw [List.dropWhile_cons_of_pos (by simp [hc])]
      exact .starMore (h.runs_anyBut hc s) ih
    | true =>
      rw [List.dropWhile_cons_of_neg (by simp [hc])]
      exact .starStops (h.anyBut_fails hc s)

end Spots

end Grammar
end WindowRules

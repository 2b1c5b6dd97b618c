import WindowRules.Text.Blank
import WindowRules.Text.CaseTable

/-!
# Lowercase forms

The full lowercase form of a text. Every character is mapped on its own (`lowerChar`) except the capital sigma, whose
small form depends on its place: `ς` at the end of a word and `σ` elsewhere (`endsWord`). Whether a word ends is read
off the nearest characters on either side that do not have the property `Case_Ignorable`.
-/

namespace WindowRules
namespace Text

/-- The lowercase form of a character on its own; that of İ is an `i` and a combining dot. -/
def lowerChar (c : Char) : Text :=
  if c.toNat < 128 then [c.toLower]
  else if c = 'İ' then ['i', '\u0307']
  else match capitals.find? (·.covers c.toNat) with
    | some run => [run.lower c.toNat]
    | none => [c]

/-- Whether the first character of the text that is not ignorable is a cased one. -/
def startsCased (s : Text) : Bool :=
  match s.dropWhile (inRanges ignorableRanges) with
  | [] => false
  | c :: _ => inRanges casedRanges c

/-- Whether a letter between two texts is the last of its word: a cased letter comes before it and none comes after.
The text before it is given in reverse. -/
def endsWord (before after : Text) : Bool := startsCased before && !startsCased after

/-- The lowercase form of the rest of a text, of which `before` is the first part in reverse. -/
def lowerFrom (before : Text) : Text → Text
  | [] => []
  | c :: rest =>
    (if c = 'Σ' then [if endsWord before rest then 'ς' else 'σ'] else lowerChar c) ++ lowerFrom (c :: before) rest

/-- The lowercase form of a text. -/
def lower (s : Text) : Text := lowerFrom [] s

/-- The lowercase form of a text in which only the ASCII capitals are mapped. -/
def lowerAscii (s : Text) : Text := s.map Char.toLower

end Text
end WindowRules

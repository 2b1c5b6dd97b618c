import WindowRules.Document
import WindowRules.Render
import WindowRules.RuleStore

/-!
# Conversion

A document is written back node by node (`Document.write`). The first rule with a signature is written as the rule that
all rules with this signature were merged into; later ones are left out with all their lines. Every other line is
copied, except that a block written in place of a block takes up one blank line after it, since its own text ends with a
newline; so a text that is converted again does not grow.

Converting a text is reading it, merging its rules and writing it (`convert`); a strict conversion refuses a text that
has problems (`convertStrictly`).
-/

namespace WindowRules

/-- How far a document has been written. -/
structure Progress where
  /-- The numbers of the next rules. -/
  counters : Counters
  /-- The signatures of the rules that have been written. -/
  written : List Signature
  /-- A blank line that comes next is left out. -/
  absorbsBlank : Bool
deriving DecidableEq, Repr

namespace Progress

/-- Nothing has been written. -/
def start : Progress := ⟨{}, [], false⟩

end Progress

namespace Content

/-- The pieces of text for a part of a document, and how far the document has been written then. -/
def write (set : RuleSet) (dialect : Dialect) (progress : Progress) (content : Content) : List Text × Progress :=
  match content.rule? with
  | none =>
    (if progress.absorbsBlank && content.lines.all (Text.trim · == []) then [] else content.lines,
      { progress with absorbsBlank := false })
  | some rule =>
    if rule.signature ∈ progress.written then ([], progress)
    else match set.get? rule.signature with
      | some merged =>
        let text := merged.write dialect progress.counters
        ([text], ⟨progress.counters.advance merged.subject, rule.signature :: progress.written,
          content.isBlock && text.getLast? == some '\n'⟩)
      | none => (content.lines, ⟨progress.counters, rule.signature :: progress.written, false⟩)

end Content

namespace Document

/-- The pieces of text for the nodes of a document. -/
def pieces (set : RuleSet) (dialect : Dialect) (progress : Progress) : List Node → List Text
  | [] => []
  | node :: nodes =>
    let (texts, progress) := node.content.write set dialect progress
    texts ++ pieces set dialect progress nodes

/-- Writes a document with the merged rules of a set. -/
def write (document : Document) (set : RuleSet) (dialect : Dialect) : Text :=
  ['\n'].intercalate (pieces set dialect .start document.nodes)

/-- Writes a document with its own rules merged. -/
def writeMerged (document : Document) (dialect : Dialect) : Text :=
  document.write (RuleSet.ofRules document.rules) dialect

end Document

/-- Converts a text to the dialect of the options. Whatever is no rule is copied. -/
def convert (options : Options) (text : Text) : Text := (Document.read options text).writeMerged options.dialect

/-- Converts a text, unless the options are strict and the text has problems. -/
def convertStrictly (options : Options) (text : Text) : Except Problem Text :=
  let document := Document.read options text
  if options.strict ∧ document.problems ≠ [] then .error (Problem.combine document.problems)
  else .ok (document.writeMerged options.dialect)

/-- Converts a text to several dialects in turn, each time the result of the time before. -/
def convertInTurn : List Dialect → Text → List Text
  | [], _ => []
  | dialect :: dialects, text =>
    let converted := convert { dialect } text
    converted :: convertInTurn dialects converted

end WindowRules

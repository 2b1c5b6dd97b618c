import WindowRules.Block

/-!
# Documents

A configuration text is read line by line into nodes (`Document.read`): rules on one line, rules in blocks, and lines
that are copied as they stand. Every node keeps the lines it was read from, the index of the first of them and the
problems found there.

The nodes tile the text: their lines, one after another, are the lines of the text (`flatMap_lines_read`).
-/

namespace WindowRules

/-- How texts are read and converted. -/
structure Options where
  /-- The dialect in which values are kept and rules are written. -/
  dialect : Dialect := .block
  /-- A text with problems is not converted. -/
  strict : Bool := false
  /-- Blocks are read as rules, and not only rules on one line. -/
  parseBlocks : Bool := true
deriving DecidableEq, Repr

/-- What a stretch of lines was read as. -/
inductive Content where
  /-- A line that is no rule. -/
  | verbatim (line : Text)
  /-- A rule on one line. -/
  | lineRule (rule : Rule) (line : Text)
  /-- A rule in a block. -/
  | blockRule (rule : Rule) (opening : Text) (body : List Text) (closing : Text)
deriving DecidableEq, Repr

namespace Content

/-- The lines of the text that were read. -/
def lines : Content → List Text
  | verbatim line => [line]
  | lineRule _ line => [line]
  | blockRule _ opening body closing => opening :: body ++ [closing]

/-- The rule, if there is one. -/
def rule? : Content → Option Rule
  | verbatim _ => none
  | lineRule rule _ => some rule
  | blockRule rule .. => some rule

/-- Whether a rule was written as a block. -/
def isBlock : Content → Bool
  | blockRule .. => true
  | _ => false

/-- There is always a first line. -/
theorem lines_ne_nil (content : Content) : content.lines ≠ [] := by cases content <;> simp [lines]

end Content

/-- A part of a document. -/
structure Node where
  /-- The index of the first line, counted from zero. -/
  start : Nat
  /-- What the lines were read as. -/
  content : Content
  /-- The problems found in the lines. -/
  problems : List Problem

namespace Node

/-- The lines of the node. -/
def lines (node : Node) : List Text := node.content.lines

/-- The index behind the last line. -/
def stop (node : Node) : Nat := node.start + node.lines.length

/-- Reads a line that opens no block. -/
def ofLine (dialect : Dialect) (start : Nat) (line : Text) : Node :=
  match Line.read? dialect line with
  | none => ⟨start, .verbatim line, []⟩
  | some rule => ⟨start, .lineRule rule line, rule.malformed.map fun item => .malformed (start + 1) item.key⟩

/-- A line that opens a block which is never closed. -/
def ofUnterminated (start : Nat) (line : Text) : Node := ⟨start, .verbatim line, [.unterminated (start + 1)]⟩

/-- Reads a block. -/
def ofBlock (dialect : Dialect) (subject : Subject) (start : Nat) (opening : Text) (body : List Text) (closing : Text) :
    Node :=
  let entries := Block.readBody dialect subject (start + 2) body
  ⟨start, .blockRule ⟨subject, entries.map Prod.fst⟩ opening body closing, entries.filterMap Prod.snd⟩

/-- The lines of a line are that line. -/
@[simp] theorem lines_ofLine (dialect : Dialect) (start : Nat) (line : Text) :
    (ofLine dialect start line).lines = [line] := by
  rw [ofLine]; split <;> rfl

/-- A line that opens an unclosed block is kept. -/
@[simp] theorem lines_ofUnterminated (start : Nat) (line : Text) : (ofUnterminated start line).lines = [line] := rfl

/-- A block keeps its lines. -/
@[simp] theorem lines_ofBlock (dialect : Dialect) (subject : Subject) (start : Nat) (opening : Text) (body : List Text)
    (closing : Text) : (ofBlock dialect subject start opening body closing).lines = opening :: body ++ [closing] := rfl

end Node

/-- A text as it was read. -/
structure Document where
  /-- The parts of the text in order. -/
  nodes : List Node

namespace Document

/-- The subject of the rule whose block the line opens, where blocks are read. -/
def opening? (options : Options) (line : Text) : Option Subject :=
  if options.parseBlocks then Block.opening? (Text.trim line) else none

/-- Reads the lines from the one with index `start` on. -/
def readNodes (options : Options) (start : Nat) : List Text → List Node
  | [] => []
  | line :: rest =>
    match opening? options line with
    | none => .ofLine options.dialect start line :: readNodes options (start + 1) rest
    | some subject =>
      match _h : Block.close? rest with
      | none => .ofUnterminated start line :: readNodes options (start + 1) rest
      | some (body, closing, after) =>
        .ofBlock options.dialect subject start line body closing ::
          readNodes options (start + (body.length + 2)) after
termination_by lines => lines.length
decreasing_by
  all_goals simp only [List.length_cons]
  · omega
  · omega
  · rw [Block.eq_of_close? _h, List.length_append, List.length_cons]; omega

/-- The lines of a text, which a newline divides. -/
def textLines (text : Text) : List Text := text.splitOn '\n'

/-- Reads a text. -/
def read (options : Options) (text : Text) : Document := ⟨readNodes options 0 (textLines text)⟩

/-- The lines of the document. -/
def lines (document : Document) : List Text := document.nodes.flatMap Node.lines

/-- The rules of the document in order. -/
def rules (document : Document) : List Rule := document.nodes.filterMap fun node => node.content.rule?

/-- The problems of the document in order. -/
def problems (document : Document) : List Problem := document.nodes.flatMap Node.problems

/-- The nodes that are read from some lines hold these lines. -/
theorem flatMap_lines_readNodes (options : Options) (start : Nat) (lines : List Text) :
    (readNodes options start lines).flatMap Node.lines = lines := by
  fun_induction readNodes options start lines with
  | case1 => rfl
  | case2 start line rest h ih => simp [ih]
  | case3 start line rest subject h hc ih => simp [ih]
  | case4 start line rest subject h body closing after hc ih => simp [ih, Block.eq_of_close? hc]

/-- **The nodes tile the text.** -/
theorem flatMap_lines_read (options : Options) (text : Text) :
    (read options text).lines = textLines text := flatMap_lines_readNodes options 0 _

end Document
end WindowRules

import WindowRules.Line

/-!
# Rules in blocks

A block opens with the keyword of a rule, an optional label in brackets and a brace (`Block.opening?`), closes with a
brace on a line of its own (`Block.isClosing`), and has an entry on each line between: a key, and mostly an equals sign
and a value (`Entry.read`). The lines of a block are found by looking for its end (`Block.close?`); a line that ends
with an opening brace stops the search, so that a block without an end never swallows another one.

Nothing is lost when a block is closed (`eq_of_close?`).
-/

namespace WindowRules

/-! ## Entries -/

/-- An entry of a block. -/
structure Entry where
  /-- The text before the first equals sign, space or tab. -/
  key : Text
  /-- The trimmed text after the equals sign, if there is one. -/
  value? : Option Text
deriving DecidableEq, Repr

namespace Entry

/-- Why a line is no entry. -/
inductive Fault where
  /-- The line starts with an equals sign. -/
  | missingKey
  /-- Behind the key and its blanks stands neither an equals sign nor the end; `column` is the one-based place. -/
  | strayText (column : Nat)
deriving DecidableEq, Repr

/-- The one-based place of the character that does not fit. -/
def Fault.column : Fault → Nat
  | missingKey => 1
  | strayText column => column

/-- What was expected in place of that character. -/
def Fault.explanation : Fault → Text
  | missingKey => "parsing error: expected entry_key".toList
  | strayText _ => "parsing error: expected EOI".toList

/-- A character that a key may hold. -/
def isKeyChar (c : Char) : Bool := !(c == '=' || Text.isSpaceOrTab c)

/-- Reads a trimmed line as an entry. -/
def read (line : Text) : Except Fault Entry :=
  let key := line.takeWhile isKeyChar
  let rest := (line.dropWhile isKeyChar).dropWhile Text.isSpaceOrTab
  if key = [] then .error .missingKey
  else match rest with
    | [] => .ok ⟨key, none⟩
    | '=' :: value => .ok ⟨key, some (Text.trim value)⟩
    | _ => .error (.strayText (line.length - rest.length + 1))

/-- The item of an entry; `line` is the entry as it is written. The name of a rule is no item. -/
def item? (dialect : Dialect) (subject : Subject) (line : Text) (entry : Entry) : Option Item :=
  if entry.key = "name".toList then none
  else some <|
    match Text.stripPrefix? Fragment.conditionMark entry.key with
    | none => Fragment.flag dialect (Keys.flagKey entry.key) (entry.value?.getD [])
    | some [] => .malformed line
    | some condition =>
      match entry.value?, subject with
      | none, _ => .predicate condition
      | some [], _ => .malformed line
      | some value, .window => .selector condition (dialect.encode value)
      | some value, .layer => Line.namespaceSelector dialect value

end Entry

/-! ## Blocks -/

namespace Block

/-- A character that may follow the keyword of a rule directly. -/
def isWordChar (c : Char) : Bool := c.isAlphanum || c == '_'

/-- The text after a label in brackets, if the text begins with one, and otherwise the text itself. -/
def dropLabel : Text → Text
  | '[' :: s => ((Text.cutAt? (· == ']') s).map Prod.snd).getD ('[' :: s)
  | s => s

/-- The subject of the rule whose block a trimmed line opens, if it opens one. -/
def opening? (line : Text) : Option Subject := do
  let subject ← Subject.ofKeyword? line
  let rest := ((line.drop subject.keyword.length).dropWhile isWordChar).dropWhile Text.isSpaceOrTab
  if (dropLabel rest).dropWhile Text.isSpaceOrTab = ['{'] then some subject else none

/-- Whether a trimmed line closes a block. -/
def isClosing (line : Text) : Bool := line == ['}']

/-- Whether a trimmed line ends as the opening of a block does. -/
def endsOpen (line : Text) : Bool := line.getLast? == some '{'

/-- Divides the lines after an opening into the body of the block, the line that closes it and the lines after that. -/
def close? : List Text → Option (List Text × Text × List Text)
  | [] => none
  | line :: rest =>
    if isClosing (Text.trim line) then some ([], line, rest)
    else if endsOpen (Text.trim line) then none
    else (close? rest).map fun (body, closing, after) => (line :: body, closing, after)

/-- **Closing a block loses nothing**: the body, the closing line and the rest are the lines. -/
theorem eq_of_close? {lines body after : List Text} {closing : Text} (h : close? lines = some (body, closing, after)) :
    lines = body ++ closing :: after := by
  induction lines generalizing body with
  | nil => cases h
  | cons line rest ih =>
    rw [close?] at h
    split at h
    · cases h; rfl
    · split at h
      · cases h
      · obtain ⟨⟨b, c, a⟩, hb, he⟩ := Option.map_eq_some_iff.mp h
        cases he
        rw [ih hb, List.cons_append]

/-- Reads a line of the body: the item it gives and the problem it has; a silent line and a name give none. -/
def readLine? (dialect : Dialect) (subject : Subject) (number : Nat) (line : Text) : Option (Item × Option Problem) :=
  let line := Text.trim line
  if Line.isSilent line then none
  else match Entry.read line with
    | .error fault => some (.malformed line, some (.unparsable number fault.column fault.explanation))
    | .ok entry =>
      (entry.item? dialect subject line).map fun item =>
        (item, if item.isMalformed then some (.malformed number line) else none)

/-- Reads the body of a block whose first line has the given number. -/
def readBody (dialect : Dialect) (subject : Subject) (number : Nat) (body : List Text) : List (Item × Option Problem) :=
  (body.zipIdx number).filterMap fun (line, number) => readLine? dialect subject number line

end Block
end WindowRules

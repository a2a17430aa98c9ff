/-!
# Written documents

A `Document` is what a report writes: texts, numbers, lists and records with their fields
in order. `Document.pretty` writes it over several lines, two blanks deeper for each
level; an empty list stays on its line.
-/

namespace DocTypes

namespace Json

/-- A document to be written. -/
inductive Document where
  | text (value : String)
  | number (value : Nat)
  | list (items : List Document)
  | record (fields : List (String × Document))
  deriving Repr, Inhabited

/-- A digit of a character's number, in base sixteen. -/
def hexDigit (n : Nat) : Char := Nat.digitChar (n % 16)

/-- A character inside a quoted text. Quotes, backslashes and control characters are
escaped. -/
def escapeChar (c : Char) : List Char :=
  match c with
  | '"' => ['\\', '"']
  | '\\' => ['\\', '\\']
  | '\n' => ['\\', 'n']
  | '\r' => ['\\', 'r']
  | '\t' => ['\\', 't']
  | '\x08' => ['\\', 'b']
  | '\x0c' => ['\\', 'f']
  | _ =>
    if c.toNat < 0x20 then ['\\', 'u', '0', '0', hexDigit (c.toNat / 16), hexDigit c.toNat]
    else [c]

/-- A text in quotes. -/
def quote (s : String) : String := String.ofList ('"' :: s.toList.flatMap escapeChar ++ ['"'])

/-- The beginning of a line at a level. -/
def lineStart (level : Nat) : String := "\n" ++ String.ofList (List.replicate (2 * level) ' ')

/-- Items between brackets, each on a line of its own. -/
def bracketed (left right : String) (level : Nat) : List String → String
  | [] => left ++ right
  | items =>
    left ++ ",".intercalate (items.map (lineStart (level + 1) ++ ·)) ++ lineStart level ++ right

mutual

/-- Write a document that begins at a level. -/
def Document.prettyAt (level : Nat) : Document → String
  | .text s => quote s
  | .number n => toString n
  | .list items => bracketed "[" "]" level (prettyItems (level + 1) items)
  | .record fields => bracketed "\x7b" "\x7d" level (prettyFields (level + 1) fields)

/-- Write the items of a list. -/
def prettyItems (level : Nat) : List Document → List String
  | [] => []
  | item :: rest => item.prettyAt level :: prettyItems level rest

/-- Write the fields of a record. -/
def prettyFields (level : Nat) : List (String × Document) → List String
  | [] => []
  | (name, value) :: rest =>
    (quote name ++ ": " ++ value.prettyAt level) :: prettyFields level rest

end

/-- Write a document over several lines. -/
def Document.pretty (d : Document) : String := d.prettyAt 0

end Json

end DocTypes

/-
# `CallLang.Timing.Document` — reports for other programs

A document is a tree of texts, numbers, lists and records with ordered fields.
It is written as JSON, one element a line, two spaces a level.
-/
import CallLang.Decimal.Layout

namespace CallLang

/-- A document.  Its texts hold no quotes, backslashes or controls. -/
inductive Document
  | text (s : String)
  | integer (n : Int)
  | real (x : Binary Format.binary64)
  | list (items : List Document)
  | record (fields : List (String × Document))

/-- The text of a number in a document. -/
def documentReal : Binary Format.binary64 → String
  | .nan => "NaN"
  | .signed s c =>
    if c.val = Format.binary64.infinity then (if s then "-Infinity" else "Infinity")
    else Binary.shortestText (.signed s c)

/-- A new line at a level. -/
def documentLine (level : Nat) : String :=
  "\n" ++ String.ofList (List.replicate (2 * level) ' ')

/-- Written elements between two brackets, one a line. -/
def documentBlock (level : Nat) (opening closing : String) (items : List String) : String :=
  if items = [] then opening ++ closing
  else opening ++ documentLine (level + 1) ++ ("," ++ documentLine (level + 1)).intercalate items
    ++ documentLine level ++ closing

namespace Document

mutual

/-- Writes a document whose first line is at a level. -/
def render (level : Nat) : Document → String
  | .text s => "\"" ++ s ++ "\""
  | .integer n => integerText n
  | .real x => documentReal x
  | .list items => documentBlock level "[" "]" (renderItems (level + 1) items)
  | .record fields => documentBlock level "\x7b" "\x7d" (renderFields (level + 1) fields)

/-- Writes each element of a list. -/
def renderItems (level : Nat) : List Document → List String
  | [] => []
  | item :: items => item.render level :: renderItems level items

/-- Writes each field of a record. -/
def renderFields (level : Nat) : List (String × Document) → List String
  | [] => []
  | (name, value) :: fields =>
    ("\"" ++ name ++ "\": " ++ value.render level) :: renderFields level fields

end

end Document

end CallLang

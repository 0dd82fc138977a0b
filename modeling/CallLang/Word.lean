/-
# `CallLang.Word` — the kind of a word

A word is a number, a symbol, or neither.  Symbols are the ten operator signs
and identifiers; the word need not name an operator to be a symbol.
-/
import CallLang.Numeral
import CallLang.Token

namespace CallLang

/-- An ASCII letter. -/
def isLetter (c : Char) : Bool :=
  ('a' ≤ c && c ≤ 'z') || ('A' ≤ c && c ≤ 'Z')

/-- What an identifier may start with. -/
def startsIdentifier (c : Char) : Bool :=
  isLetter c || c = '_'

/-- What an identifier may go on with. -/
def continuesIdentifier (c : Char) : Bool :=
  startsIdentifier c || isDigit c || c = '?' || c = '!' || c = '-'

/-- Whether the characters spell an identifier. -/
def isIdentifier : List Char → Bool
  | [] => false
  | c :: cs => startsIdentifier c && cs.all continuesIdentifier

/-- The words that are symbols without being identifiers. -/
def operatorSigns : List String :=
  ["=", "/=", "<", "<=", ">", ">=", "+", "-", "*", "/"]

/-- Whether a text is a symbol.  Like a number text, an identifier may have one
line feed behind it. -/
def isSymbolText (text : String) : Bool :=
  operatorSigns.contains text || isIdentifier (dropFinalNewline text.toList)

/-- The kind of a word. -/
def wordKind (text : String) : TokenKind :=
  if isNumberText text then .number
  else if isSymbolText text then .symbol
  else .unhandled

end CallLang

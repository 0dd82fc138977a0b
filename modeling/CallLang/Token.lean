/-
# `CallLang.Token` — tokens and the characters that decide them

A source text is a sequence of characters.  Five of the classes below are
decided by one character alone: blanks separate, a semicolon opens a comment,
and parens and quotes are tokens of their own.  Every other character belongs
to a word, and the word as a whole decides its kind (`CallLang.Word`).
-/

namespace CallLang

/-- The kinds of token. -/
inductive TokenKind
  | openParen
  | closeParen
  | quote
  | symbol
  | number
  | unhandled
  deriving DecidableEq, Repr

/-- The name under which a kind is reported. -/
def TokenKind.label : TokenKind → String
  | .openParen => "OPEN_PAREN"
  | .closeParen => "CLOSE_PAREN"
  | .quote => "QUOTE"
  | .symbol => "SYMBOL"
  | .number => "NUMBER"
  | .unhandled => "UNHANDLED"

/-- A token: its kind, its text, and the span `[pos, stop)` of source
positions it was read from, counted in characters. -/
structure Token where
  kind : TokenKind
  text : String
  pos : Nat := 0
  stop : Nat := 0
  deriving DecidableEq, Repr

/-- The same token, read `n` characters further on. -/
def Token.shift (n : Nat) (t : Token) : Token :=
  { t with pos := t.pos + n, stop := t.stop + n }

/-! ## Characters -/

/-- What one character means outside a comment. -/
inductive CharClass
  | blank
  | semicolon
  | delimiter (kind : TokenKind)
  | plain
  deriving DecidableEq, Repr

/-- The six blanks: space, tab, line feed, carriage return, form feed and
vertical tab.  No other character separates words. -/
def isBlank (c : Char) : Bool :=
  c = ' ' || c = '\t' || c = '\n' || c = '\r' || c = '\x0c' || c = '\x0b'

/-- A comment runs up to, and excludes, the first line feed or carriage return. -/
def endsComment (c : Char) : Bool :=
  c = '\n' || c = '\r'

/-- The class of a character outside a comment. -/
def charClass (c : Char) : CharClass :=
  if isBlank c then .blank
  else if c = ';' then .semicolon
  else if c = '(' then .delimiter .openParen
  else if c = ')' then .delimiter .closeParen
  else if c = '\'' || c = '"' then .delimiter .quote
  else .plain

theorem isBlank_of_endsComment {c : Char} (h : endsComment c) : isBlank c := by
  simp only [endsComment, Bool.or_eq_true, decide_eq_true_eq] at h
  rcases h with h | h <;> subst h <;> rfl

end CallLang

/-
# `CallLang.Text.Quoted` — texts shown in quotes

A text is shown between single quotes, or between double ones when it holds
single quotes and no double one.  The quote in use and the backslash get a
backslash before them, line ends and tabs are shown by letter, and characters
that are not printable by their code point.
-/
import CallLang.Text.Printable

namespace CallLang

/-- A code point in hexadecimal digits, filled up to a width with zeros. -/
def codePointText (width n : Nat) : List Char :=
  let ds := Nat.toDigits 16 n
  List.replicate (width - ds.length) '0' ++ ds

/-- How one character is shown between quotes. -/
def shownChar (quote c : Char) : List Char :=
  if c = quote || c = '\\' then ['\\', c]
  else if c = '\t' then ['\\', 't']
  else if c = '\n' then ['\\', 'n']
  else if c = '\r' then ['\\', 'r']
  else if isPrintable c then [c]
  else if c.toNat < 0x100 then '\\' :: 'x' :: codePointText 2 c.toNat
  else if c.toNat < 0x10000 then '\\' :: 'u' :: codePointText 4 c.toNat
  else '\\' :: 'U' :: codePointText 8 c.toNat

/-- The quote that a text is shown in. -/
def quoteFor (cs : List Char) : Char :=
  if cs.contains '\'' && !cs.contains '"' then '"' else '\''

/-- A text shown in quotes. -/
def quoted (cs : List Char) : List Char :=
  let quote := quoteFor cs
  quote :: (cs.flatMap (shownChar quote) ++ [quote])

end CallLang

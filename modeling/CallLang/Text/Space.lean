/-
# `CallLang.Text.Space` — the spaces of all scripts

Settings and command lines may be spaced with any of these characters; source
texts may not (`CallLang.isBlank`).
-/

namespace CallLang

/-- The space characters of all scripts, controls that separate text
included. -/
def isSpace (c : Char) : Bool :=
  let n := c.toNat
  (0x09 ≤ n && n ≤ 0x0d) || (0x1c ≤ n && n ≤ 0x20) || n = 0x85 || n = 0xa0 || n = 0x1680
    || (0x2000 ≤ n && n ≤ 0x200a) || n = 0x2028 || n = 0x2029 || n = 0x202f || n = 0x205f
    || n = 0x3000

/-- A row of characters without the spaces at both ends. -/
def trimSpaces (cs : List Char) : List Char :=
  ((cs.dropWhile isSpace).reverse.dropWhile isSpace).reverse

end CallLang

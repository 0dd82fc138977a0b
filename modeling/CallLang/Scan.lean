/-
# `CallLang.Scan` — from a source text to its tokens

The scanner reads one character at a time and keeps only what is still open:
nothing, a comment, or a word with the place where it started.  A character
may close the open word, may be a token itself, and decides what is open next.
Reading a text in two pieces is therefore reading the second piece from where
the first one left off (`scan_append`).
-/
import CallLang.Word

namespace CallLang

/-- What is open between two characters.  The characters of a word are kept
newest first. -/
inductive Mode
  | between
  | comment
  | word (start : Nat) (seen : List Char)
  deriving DecidableEq, Repr

/-- The token of a word that starts at `start`. -/
def wordToken (start : Nat) (cs : List Char) : Token :=
  ⟨wordKind (String.ofList cs), String.ofList cs, start, start + cs.length⟩

/-- The token of a paren or quote. -/
def delimiterToken (kind : TokenKind) (pos : Nat) (c : Char) : Token :=
  ⟨kind, String.singleton c, pos, pos + 1⟩

namespace Mode

/-- The token of the open word, if a word is open. -/
def close : Mode → List Token
  | .word start seen => [wordToken start seen.reverse]
  | _ => []

/-- What is open after the character `c` at `pos`. -/
def next (m : Mode) (pos : Nat) (c : Char) : Mode :=
  match m with
  | .comment => if endsComment c then .between else .comment
  | .between =>
    match charClass c with
    | .semicolon => .comment
    | .plain => .word pos [c]
    | _ => .between
  | .word start seen =>
    match charClass c with
    | .semicolon => .comment
    | .plain => .word start (c :: seen)
    | _ => .between

/-- The tokens that are complete once the character `c` at `pos` is read. -/
def emits (m : Mode) (pos : Nat) (c : Char) : List Token :=
  match m with
  | .comment => []
  | _ =>
    match charClass c with
    | .plain => []
    | .delimiter kind => m.close ++ [delimiterToken kind pos c]
    | _ => m.close

end Mode

/-- The tokens of `cs`, read from position `pos` on in mode `m`. -/
def scan (m : Mode) (pos : Nat) : List Char → List Token
  | [] => m.close
  | c :: cs => m.emits pos c ++ scan (m.next pos c) (pos + 1) cs

/-- The tokens of a source text. -/
def tokenize (source : String) : List Token :=
  scan .between 0 source.toList

/-! ## Reading in two pieces -/

/-- What is open after all of `cs`. -/
def Mode.after (m : Mode) (pos : Nat) : List Char → Mode
  | [] => m
  | c :: cs => (m.next pos c).after (pos + 1) cs

/-- The tokens that are complete after all of `cs`. -/
def Mode.emitsAll (m : Mode) (pos : Nat) : List Char → List Token
  | [] => []
  | c :: cs => m.emits pos c ++ (m.next pos c).emitsAll (pos + 1) cs

theorem scan_append (m : Mode) (pos : Nat) (cs ds : List Char) :
    scan m pos (cs ++ ds)
      = m.emitsAll pos cs ++ scan (m.after pos cs) (pos + cs.length) ds := by
  induction cs generalizing m pos with
  | nil => rfl
  | cons c cs ih =>
    simp only [List.cons_append, scan, Mode.emitsAll, Mode.after, ih, List.append_assoc,
      List.length_cons]
    rw [Nat.add_right_comm, Nat.add_assoc]

theorem scan_eq_emitsAll (m : Mode) (pos : Nat) (cs : List Char) :
    scan m pos cs = m.emitsAll pos cs ++ (m.after pos cs).close := by
  have h := scan_append m pos cs []
  rwa [List.append_nil, scan] at h

end CallLang

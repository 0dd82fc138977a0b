/-
# `CallLang.Proofs.Extension` — a source text with more text behind it

The scanner decides a token when it closes it, and never again.  So what stands
behind a text can change its last token only, and that only if it is a word
which the text breaks off (`Mode.EndsAt` says that an open word reaches up to
where the scanner is).  A line end breaks off words and comments alike
(`scan_newline`): behind it the scanner is as at the start, further on by as
many characters (`scan_shift`).

A program ends in a close paren, which is no word.  All its tokens are decided
when the text ends, and the parser reads no others.
-/
import CallLang.Proofs.Grammar
import CallLang.Proofs.Pieces
import CallLang.Run

namespace CallLang

/-! ## The word that is still open -/

namespace Mode

/-- `m.EndsAt pos`: a word that is open in the mode `m` reaches up to `pos`. -/
def EndsAt (m : Mode) (pos : Nat) : Prop :=
  match m with
  | .word start seen => seen ≠ [] ∧ (∀ c ∈ seen, IsWordChar c) ∧ start + seen.length = pos
  | _ => True

variable {m : Mode} {pos : Nat}

theorem EndsAt.next (h : m.EndsAt pos) (c : Char) : (m.next pos c).EndsAt (pos + 1) := by
  cases m with
  | comment =>
      simp only [Mode.next]
      split <;> trivial
  | between =>
      simp only [Mode.next]
      cases hclass : charClass c with
      | plain =>
          have hc := charClass_eq_plain_iff.mp hclass
          exact ⟨List.cons_ne_nil _ _, List.forall_mem_singleton.mpr hc, rfl⟩
      | blank | semicolon | delimiter kind => trivial
  | word start seen =>
      obtain ⟨-, hword, hpos⟩ := h
      simp only [Mode.next]
      cases hclass : charClass c with
      | plain =>
          have hc := charClass_eq_plain_iff.mp hclass
          exact ⟨List.cons_ne_nil _ _, List.forall_mem_cons.mpr ⟨hc, hword⟩, congrArg (· + 1) hpos⟩
      | blank | semicolon | delimiter kind => trivial

theorem EndsAt.after (h : m.EndsAt pos) (cs : List Char) :
    (m.after pos cs).EndsAt (pos + cs.length) := by
  induction cs generalizing m pos with
  | nil => exact h
  | cons c cs ih =>
      have htail := ih (h.next c)
      rwa [Nat.add_assoc, Nat.add_comm 1] at htail

theorem EndsAt.close_cases (h : m.EndsAt pos) :
    m.close = [] ∨ ∃ start w, m.close = [wordToken start w] ∧ w ≠ [] ∧
      (∀ c ∈ w, IsWordChar c) ∧ start + w.length = pos := by
  cases m with
  | between | comment => exact Or.inl rfl
  | word start seen =>
      obtain ⟨hne, hword, hpos⟩ := h
      exact Or.inr ⟨start, seen.reverse, rfl, by simpa using hne, by simpa using hword,
        by simpa using hpos⟩

/-- The same mode, `n` characters further on. -/
def shift (n : Nat) : Mode → Mode
  | .word start seen => .word (start + n) seen
  | m => m

end Mode

/-! ## Reading further on -/

theorem wordToken_shift (n start : Nat) (w : List Char) :
    wordToken (start + n) w = (wordToken start w).shift n := by
  simp only [wordToken, Token.shift, Nat.add_right_comm]

theorem delimiterToken_shift (n pos : Nat) (kind : TokenKind) (c : Char) :
    delimiterToken kind (pos + n) c = (delimiterToken kind pos c).shift n := by
  simp only [delimiterToken, Token.shift, Nat.add_right_comm]

namespace Mode

variable (m : Mode) (n pos : Nat) (c : Char)

theorem close_shift : (m.shift n).close = m.close.map (Token.shift n) := by
  cases m with
  | between | comment => rfl
  | word start seen => simp only [shift, close, wordToken_shift, List.map_singleton]

theorem next_shift : (m.shift n).next (pos + n) c = (m.next pos c).shift n := by
  cases m with
  | comment =>
      simp only [shift, next]
      split <;> rfl
  | between | word start seen =>
      simp only [shift, next]
      cases charClass c <;> rfl

theorem emits_shift : (m.shift n).emits (pos + n) c = (m.emits pos c).map (Token.shift n) := by
  have hclose := m.close_shift n
  cases m with
  | comment => rfl
  | between | word start seen =>
      simp only [shift] at hclose ⊢
      simp only [emits]
      cases charClass c with
      | plain => rfl
      | blank | semicolon => exact hclose
      | delimiter kind =>
          simp only [List.map_append, ← hclose, List.map_singleton, delimiterToken_shift]

end Mode

/-- Where the reading starts shows in the positions of the tokens and nowhere
else. -/
theorem scan_shift (m : Mode) (n pos : Nat) (cs : List Char) :
    scan (m.shift n) (pos + n) cs = (scan m pos cs).map (Token.shift n) := by
  induction cs generalizing m pos with
  | nil => exact m.close_shift n
  | cons c cs ih =>
      rw [scan, scan, m.emits_shift, m.next_shift, Nat.add_right_comm, ih, List.map_append]

theorem scan_newline (m : Mode) (pos : Nat) (cs : List Char) :
    scan m pos ('\n' :: cs) = m.close ++ scan .between (pos + 1) cs := by
  cases m <;> rfl

/-! ## The tokens of the two texts -/

theorem tokenize_append_eq (s t : String) :
    tokenize (s ++ t) = Mode.between.emitsAll 0 s.toList ++
      scan (Mode.between.after 0 s.toList) s.toList.length t.toList := by
  rw [tokenize, String.toList_append, scan_append, Nat.zero_add]

theorem tokenize_eq_emitsAll (s : String) :
    tokenize s = Mode.between.emitsAll 0 s.toList ++ (Mode.between.after 0 s.toList).close :=
  scan_eq_emitsAll _ _ _

theorem endsAt_length (s : String) :
    (Mode.between.after 0 s.toList).EndsAt s.toList.length := by
  have hstart : Mode.between.EndsAt 0 := trivial
  have hend := hstart.after s.toList
  rwa [Nat.zero_add] at hend

theorem tokenize_append_newline (s t : String) :
    tokenize (s ++ "\n" ++ t) =
      tokenize s ++ (tokenize t).map (Token.shift (s.toList.length + 1)) := by
  have hrest := scan_shift .between (s.toList.length + 1) 0 t.toList
  rw [Nat.zero_add] at hrest
  have htext : ("\n" ++ t).toList = '\n' :: t.toList := String.toList_append
  rw [String.append_assoc, tokenize_append_eq, htext, scan_newline, tokenize_eq_emitsAll s,
    List.append_assoc, tokenize, ← hrest]
  rfl

/-! ## The program of the longer text -/

theorem Derives.exists_closeParen {ts : List Token} {e : Expr} (h : Derives ts e) :
    ∃ us c, ts = us ++ [c] ∧ c.kind = .closeParen := by
  cases h with
  | @call o s c op us ps _ _ _ _ _ _ hc => exact ⟨o :: s :: us, c, rfl, hc⟩

theorem wordKind_ne_closeParen (text : String) : wordKind text ≠ .closeParen :=
  wordKind_ne_of_delimits .closeParen text

/-- A call is decided before the word that may stand open behind it. -/
theorem Derives.of_open_word {used rest settled : List Token} {w : Token} {e : Expr}
    (h : Derives used e) (hw : w.kind ≠ .closeParen) (hsplit : used ++ rest = settled ++ [w]) :
    ∃ rest', settled = used ++ rest' := by
  obtain ⟨us, c, rfl, hc⟩ := h.exists_closeParen
  rcases List.eq_nil_or_concat rest with rfl | ⟨rest, v, rfl⟩
  · rw [List.append_nil] at hsplit
    obtain ⟨-, hlast⟩ := List.append_inj' hsplit rfl
    obtain rfl : c = w := List.singleton_inj.mp hlast
    exact absurd hc hw
  · rw [List.concat_eq_append, ← List.append_assoc] at hsplit
    obtain ⟨hinit, -⟩ := List.append_inj' hsplit rfl
    exact ⟨rest, hinit.symm⟩

/-- The tokens of a program are decided where its text ends. -/
theorem exists_emitted {s : String} {e : Expr} (h : parseSource s = .ok e) :
    ∃ used rest, Mode.between.emitsAll 0 s.toList = used ++ rest ∧ Derives used e := by
  obtain ⟨n, hcall⟩ := derives_of_parseSource h
  have hsplit := List.take_append_drop n (tokenize s)
  rw [tokenize_eq_emitsAll] at hcall hsplit
  rcases (endsAt_length s).close_cases with hclose | ⟨start, w, hclose, -, -, -⟩
  · rw [hclose, List.append_nil] at hcall hsplit
    exact ⟨_, _, hsplit.symm, hcall⟩
  · rw [hclose] at hcall hsplit
    obtain ⟨rest, hrest⟩ := hcall.of_open_word (wordKind_ne_closeParen _) hsplit
    exact ⟨_, rest, hrest, hcall⟩

theorem parseSource_append {s : String} {e : Expr} (h : parseSource s = .ok e) (t : String) :
    parseSource (s ++ t) = .ok e := by
  obtain ⟨used, rest, hemitted, hcall⟩ := exists_emitted h
  rw [parseSource, parse, tokenize_append_eq, hemitted, List.append_assoc,
    parseWithRest_append hcall]
  rfl

/-- **Text that is appended does not change a program.**  The tokens of `s` are
tokens of `s` followed by `t`, in the same places, but for a word that `s` breaks
off.  With a line end in between they are all of them, and behind them come the
tokens of `t`, moved on by what stands before.  So if `s` is a program, `s`
followed by any text is the same program, and runs as it does. -/
theorem source_append (s t : String) :
    (∃ settled last, tokenize s = settled ++ last ∧ settled <+: tokenize (s ++ t) ∧
      (last = [] ∨ ∃ w, last = [w] ∧ w.stop = s.toList.length ∧
        w.text.toList ≠ [] ∧ ∀ c ∈ w.text.toList, IsWordChar c)) ∧
    tokenize (s ++ "\n" ++ t) =
      tokenize s ++ (tokenize t).map (Token.shift (s.toList.length + 1)) ∧
    (∀ e, parseSource s = .ok e → parseSource (s ++ t) = .ok e ∧
      ∀ channel, run channel (s ++ t) = run channel s) := by
  refine ⟨⟨_, _, tokenize_eq_emitsAll s, ?_, ?_⟩, tokenize_append_newline s t, ?_⟩
  · rw [tokenize_append_eq]
    exact List.prefix_append _ _
  · rcases (endsAt_length s).close_cases with hclose | ⟨start, w, hclose, hne, hword, hstop⟩
    · exact Or.inl hclose
    · refine Or.inr ⟨_, hclose, hstop, ?_, ?_⟩
      · simpa [wordToken] using hne
      · simpa [wordToken] using hword
  · intro e h
    have happend := parseSource_append h t
    refine ⟨happend, ?_⟩
    intro channel
    rw [run, run, happend, h]

/-- The text behind `(+ 1 2)` closes no call and no comment of it. -/
theorem source_append_stray :
    parseSource "(+ 1 2)" = .ok (.binary .add [.number "1", .number "2"]) ∧
      parseSource ("(+ 1 2)" ++ "3) ; \"") = .ok (.binary .add [.number "1", .number "2"]) := by
  have hparse : parseSource "(+ 1 2)" = .ok (.binary .add [.number "1", .number "2"]) := rfl
  exact ⟨hparse, ((source_append "(+ 1 2)" "3) ; \"").2.2 _ hparse).1⟩

end CallLang

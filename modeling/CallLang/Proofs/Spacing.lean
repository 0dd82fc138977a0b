/-
# `CallLang.Proofs.Spacing` — the same tokens, spaced in another way

Tokens can be written down in many ways.  Between two of them stands a
separator, a row of blanks and of comments that are closed.  It may be empty
next to a paren or a quote, since no word goes on across these.  `Spacing ts` is
one such way of writing `ts`, and `tokenize_spacing` says that its text has these
tokens and no others, in the places where they are written.

    over a separator    the scanner, with nothing open, comes out behind it with
                        nothing open again (`scan_separator`);
    over the tokens     each of them is a paren, a quote or a word, and behind a
                        word the text does not go on with one (`scan_row`).

The parser asks for the kinds and the texts of tokens, and never for their
places: tokens without places are read alike, and are refused alike
(`parse_unplaced`).  So the spacing of a program does not show in what it means.
-/
import Mathlib.Data.List.Chain
import CallLang.Proofs.Moves
import CallLang.Proofs.Pieces

namespace CallLang

/-! ## Separators -/

/-- What may stand between two tokens: blanks, and comments with the line ends
that close them. -/
inductive IsSeparator : List Char → Prop
  | nil : IsSeparator []
  | blank {c : Char} {sep : List Char} : isBlank c → IsSeparator sep → IsSeparator (c :: sep)
  | comment {body sep : List Char} {c : Char} :
      (∀ d ∈ body, endsComment d = false) → endsComment c → IsSeparator sep →
      IsSeparator (';' :: (body ++ c :: sep))

section Separators

variable {sep : List Char}

theorem scan_separator (h : IsSeparator sep) (pos : Nat) (rest : List Char) :
    scan .between pos (sep ++ rest) = scan .between (pos + sep.length) rest := by
  induction h generalizing pos with
  | nil => rfl
  | blank hc _ ih =>
      rw [List.cons_append, scan_blank hc, ih, List.length_cons, Nat.add_assoc, Nat.add_comm 1]
  | @comment body sep c hbody hend _ ih =>
      have hclose : ∀ d ∈ (c :: (sep ++ rest)).head?, endsComment d := by
        intro d hd
        obtain rfl := Option.some.inj hd
        exact hend
      rw [List.cons_append, List.append_assoc, List.cons_append, scan_comment hbody hclose,
        scan_blank (isBlank_of_endsComment hend), ih]
      congr 1
      simp only [List.length_cons, List.length_append]
      omega

theorem IsSeparator.edge (h : IsSeparator sep) (hne : sep ≠ []) (rest : List Char) :
    ∀ c ∈ (sep ++ rest).head?, ¬ IsWordChar c := by
  intro d hd
  cases h with
  | nil => exact absurd rfl hne
  | blank hc _ =>
      obtain rfl := Option.some.inj hd
      exact not_isWordChar_of_isBlank hc
  | comment _ _ _ =>
      obtain rfl := Option.some.inj hd
      decide

end Separators

/-! ## Tokens in a row, with separators -/

/-- A paren or a quote. -/
def Token.IsDelimiter (t : Token) : Prop :=
  t.kind = .openParen ∨ t.kind = .closeParen ∨ t.kind = .quote

instance : DecidablePred Token.IsDelimiter :=
  fun _ => inferInstanceAs (Decidable (_ ∨ _))

/-- A token with the separator that is written behind it. -/
structure Spaced where
  token : Token
  behind : List Char
  separates : IsSeparator behind

namespace Spaced

/-- Two neighbours stay apart: something is written between them, or one of them
is a paren or a quote. -/
def Apart (r r' : Spaced) : Prop :=
  r.behind ≠ [] ∨ r.token.IsDelimiter ∨ r'.token.IsDelimiter

instance : DecidableRel Apart :=
  fun _ _ => inferInstanceAs (Decidable (_ ∨ _))

/-- The text of a row. -/
def text : List Spaced → List Char
  | [] => []
  | r :: row => r.token.text.toList ++ (r.behind ++ text row)

/-- The tokens of a row that is written from `pos` on, in their places. -/
def tokens (pos : Nat) : List Spaced → List Token
  | [] => []
  | r :: row =>
    ⟨r.token.kind, r.token.text, pos, pos + r.token.text.toList.length⟩ ::
      tokens (pos + r.token.text.toList.length + r.behind.length) row

end Spaced

/-- A way of writing down the tokens `ts`: a separator in front, and one behind
each of them. -/
structure Spacing (ts : List Token) where
  lead : List Char
  row : List Spaced
  separates : IsSeparator lead
  writes : row.map (·.token) = ts
  apart : row.IsChain Spaced.Apart

namespace Spacing

variable {ts : List Token}

/-- The text that is written. -/
def text (w : Spacing ts) : String :=
  String.ofList (w.lead ++ Spaced.text w.row)

/-- The tokens, in the places where they are written. -/
def tokens (w : Spacing ts) : List Token :=
  Spaced.tokens w.lead.length w.row

end Spacing

/-! ## The tokens of the text -/

theorem not_isDelimiter_wordToken (pos : Nat) (w : List Char) :
    ¬ (wordToken pos w).IsDelimiter := by
  rintro (h | h | h)
  · exact wordKind_ne_of_delimits .openParen _ h
  · exact wordKind_ne_of_delimits .closeParen _ h
  · exact wordKind_ne_of_delimits .singleQuote _ h

theorem Lexeme.edge {t : Token} (h : Lexeme t) (hdelim : t.IsDelimiter) (rest : List Char) :
    ∀ c ∈ (t.text.toList ++ rest).head?, ¬ IsWordChar c := by
  cases h with
  | delimiter hc =>
      intro d hd
      rw [delimiterToken, String.toList_singleton] at hd
      obtain rfl := Option.some.inj hd
      exact not_isWordChar_of_delimits hc
  | word _ _ => exact absurd hdelim (not_isDelimiter_wordToken _ _)

theorem Spaced.edge {r : Spaced} {row : List Spaced} (hword : ¬ r.token.IsDelimiter)
    (hlexemes : ∀ r' ∈ row, Lexeme r'.token) (hapart : (r :: row).IsChain Apart) :
    ∀ c ∈ (r.behind ++ text row).head?, ¬ IsWordChar c := by
  by_cases hne : r.behind = []
  · rw [hne, List.nil_append]
    cases row with
    | nil => exact fun _ hc => nomatch hc
    | cons r' row =>
        obtain ⟨hr, -⟩ := List.isChain_cons_cons.mp hapart
        have hdelim : r'.token.IsDelimiter :=
          (hr.resolve_left (not_not_intro hne)).resolve_left hword
        exact (hlexemes r' List.mem_cons_self).edge hdelim _
  · exact r.separates.edge hne _

/-- The text of a token is read as that token, wherever it is written, if what
follows does not make a word longer. -/
theorem Lexeme.scan {t : Token} (h : Lexeme t) {rest : List Char}
    (hrest : ¬ t.IsDelimiter → ∀ c ∈ rest.head?, ¬ IsWordChar c) (pos : Nat) :
    scan .between pos (t.text.toList ++ rest)
      = ⟨t.kind, t.text, pos, pos + t.text.toList.length⟩ ::
          CallLang.scan .between (pos + t.text.toList.length) rest := by
  cases h with
  | @delimiter c kind place hc =>
      have hscan := scan_delimiter hc pos rest
      simpa [delimiterToken] using hscan
  | @word w place hne hw =>
      have hscan := scan_word hne hw (hrest (not_isDelimiter_wordToken place w)) pos
      simpa [wordToken] using hscan

theorem scan_row {row : List Spaced} (hlexemes : ∀ r ∈ row, Lexeme r.token)
    (hapart : row.IsChain Spaced.Apart) (pos : Nat) :
    scan .between pos (Spaced.text row) = Spaced.tokens pos row := by
  induction row generalizing pos with
  | nil => rfl
  | cons r row ih =>
      obtain ⟨hr, hrow⟩ := List.forall_mem_cons.mp hlexemes
      have hedge : ¬ r.token.IsDelimiter →
          ∀ c ∈ (r.behind ++ Spaced.text row).head?, ¬ IsWordChar c :=
        fun hword => Spaced.edge hword hrow hapart
      rw [Spaced.text, hr.scan hedge, scan_separator r.separates, ih hrow hapart.tail,
        Spaced.tokens]

/-! ## Tokens without their places -/

/-- A token without its place. -/
def Token.unplaced (t : Token) : Token :=
  { t with pos := 0, stop := 0 }

/-- The same error at a token without its place. -/
def ParseError.unplaced : ParseError → ParseError
  | .noInitialCall found => .noInitialCall (found.map Token.unplaced)
  | .missingOperator found => .missingOperator found.unplaced
  | .unknownOperator found => .unknownOperator found.unplaced
  | .unhandledToken found => .unhandledToken found.unplaced
  | .unexpectedEnd => .unexpectedEnd

/-- The same report without the place of its token. -/
def Diagnostic.unplaced (d : Diagnostic) : Diagnostic :=
  { d with token := d.token.map Token.unplaced }

theorem ParseError.diagnostic_unplaced (error : ParseError) :
    error.unplaced.diagnostic = error.diagnostic.unplaced := by
  cases error <;> rfl

/-- What one token leads to, the place of a refused one left out. -/
def ParseStep.unplaced : ParseStep → ParseStep
  | .more s => .more s
  | .done e => .done e
  | .fail error => .fail error.unplaced

theorem Moves.unplaced {s s' : ParseState} {t : Token} (h : Moves s t s') :
    Moves s t.unplaced s' := by
  cases h with
  | start hk => exact .start hk
  | operator hk hop => exact .operator hk hop
  | number hk => exact .number hk
  | openString hk => exact .openString hk
  | openCall hk => exact .openCall hk
  | closeCall hk => exact .closeCall hk
  | word hk => exact .word hk
  | closeString hk => exact .closeString hk

theorem Stops.unplaced {s : ParseState} {t : Token} {error : ParseError} (h : Stops s t error) :
    Stops s t.unplaced error.unplaced := by
  cases h with
  | start hk => exact .start hk
  | noOperator hk => exact .noOperator hk
  | otherOperator hk hop => exact .otherOperator hk hop
  | noParameter hk => exact .noParameter hk

namespace ParseState

/-- One token is read alike wherever it stands. -/
theorem step_unplaced (s : ParseState) (t : Token) :
    s.step t.unplaced = (s.step t).unplaced := by
  cases hstep : s.step t with
  | more s' => exact step_of_moves (step_eq_more_iff.mp hstep).unplaced
  | done e =>
      obtain ⟨top, rfl, hk, rfl⟩ := step_eq_done_iff.mp hstep
      exact step_eq_done_iff.mpr ⟨top, rfl, hk, rfl⟩
  | fail error => exact step_of_stops (step_eq_fail_iff.mp hstep).unplaced

theorem feed_unplaced (s : ParseState) (k : Nat) (ts : List Token) :
    s.feed k (ts.map Token.unplaced) = (s.feed k ts).mapError ParseError.unplaced := by
  induction ts generalizing s k with
  | nil => cases s <;> rfl
  | cons t ts ih =>
      simp only [List.map_cons, feed, step_unplaced]
      cases s.step t with
      | more s' => exact ih s' (k + 1)
      | done e => rfl
      | fail error => rfl

end ParseState

theorem parse_unplaced (ts : List Token) :
    parse (ts.map Token.unplaced) = (parse ts).mapError ParseError.unplaced := by
  simp only [parse, parseWithRest, ParseState.feed_unplaced]
  cases ParseState.start.feed 0 ts <;> rfl

/-- Tokens of the same kinds and texts are the same program, or are refused with
the same report but for the place of its token. -/
theorem parse_report_congr {ts us : List Token}
    (h : ts.map Token.unplaced = us.map Token.unplaced) :
    (parse ts).mapError (·.diagnostic.unplaced) = (parse us).mapError (·.diagnostic.unplaced) := by
  have key : ∀ ts, (parse ts).mapError (·.diagnostic.unplaced)
      = (parse (ts.map Token.unplaced)).mapError ParseError.diagnostic := by
    intro ts
    rw [parse_unplaced]
    cases parse ts with
    | ok e => rfl
    | error error => exact congrArg Except.error error.diagnostic_unplaced.symm
  rw [key ts, key us, h]

theorem Spaced.unplaced_tokens (pos : Nat) (row : List Spaced) :
    (tokens pos row).map Token.unplaced = (row.map (·.token)).map Token.unplaced := by
  induction row generalizing pos with
  | nil => rfl
  | cons r row ih => simp only [tokens, List.map_cons, ih, Token.unplaced]

/-! ## Spacing does not matter -/

theorem tokenize_text {source : String} (w : Spacing (tokenize source)) :
    tokenize w.text = w.tokens := by
  have hlexemes : ∀ r ∈ w.row, Lexeme r.token := by
    intro r hr
    have hmem : r.token ∈ w.row.map (·.token) := List.mem_map_of_mem hr
    rw [w.writes] at hmem
    exact lexeme_of_mem_tokenize hmem
  rw [tokenize, Spacing.text, String.toList_ofList, scan_separator w.separates,
    scan_row hlexemes w.apart, Nat.zero_add, Spacing.tokens]

/-- **Spacing does not matter.**  However the tokens of a source text are written
down, with blanks and closed comments around them: the text that is written has
these tokens, by kind and text, in the places where they are written.  It is the
same program, or it is refused with the same class and message, at a token of
the same kind and text. -/
theorem tokenize_spacing (source : String) (w : Spacing (tokenize source)) :
    tokenize w.text = w.tokens ∧
    (tokenize w.text).map Token.unplaced = (tokenize source).map Token.unplaced ∧
    (parseSource w.text).mapError (·.diagnostic.unplaced)
      = (parseSource source).mapError (·.diagnostic.unplaced) := by
  have htokens := tokenize_text w
  have hunplaced : (tokenize w.text).map Token.unplaced = (tokenize source).map Token.unplaced := by
    rw [htokens, Spacing.tokens, Spaced.unplaced_tokens, w.writes]
  exact ⟨htokens, hunplaced, parse_report_congr hunplaced⟩

theorem isSeparator_comment : IsSeparator ";(\"\r".toList :=
  have hbody : ∀ c ∈ ['(', '"'], endsComment c = false :=
    List.forall_mem_cons.mpr ⟨rfl, List.forall_mem_singleton.mpr rfl⟩
  .comment hbody rfl .nil

/-- The tokens of `(+ 1 2)` with such a comment before them and one between them,
and nothing between the last two. -/
def Spacing.commented : Spacing (tokenize "(+ 1 2)") where
  lead := ";(\"\r".toList
  row := [
    ⟨⟨.openParen, "(", 0, 1⟩, " ".toList, .blank rfl .nil⟩,
    ⟨⟨.symbol, "+", 1, 2⟩, ";(\"\r".toList, isSeparator_comment⟩,
    ⟨⟨.number, "1", 3, 4⟩, "\t".toList, .blank rfl .nil⟩,
    ⟨⟨.number, "2", 5, 6⟩, [], .nil⟩,
    ⟨⟨.closeParen, ")", 6, 7⟩, [], .nil⟩ ]
  separates := isSeparator_comment
  writes := rfl
  apart := by decide

theorem tokenize_spacing_commented :
    tokenize ";(\"\r( +;(\"\r1\t2)" =
      [⟨.openParen, "(", 4, 5⟩, ⟨.symbol, "+", 6, 7⟩, ⟨.number, "1", 11, 12⟩,
        ⟨.number, "2", 13, 14⟩, ⟨.closeParen, ")", 14, 15⟩] ∧
    (parseSource ";(\"\r( +;(\"\r1\t2)").mapError (·.diagnostic.unplaced)
      = .ok (.binary .add [.number "1", .number "2"]) := by
  obtain ⟨htokens, -, hparse⟩ := tokenize_spacing "(+ 1 2)" Spacing.commented
  exact ⟨htokens, hparse⟩

end CallLang

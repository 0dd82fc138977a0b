/-
# `CallLang.Proofs.Pieces` — a source text, piece by piece

The scanner reads characters; a reader of the text sees pieces.  Where nothing
is open, what comes next is one of

    a blank,
    a paren or a quote,
    a comment, up to the line end that closes it or the end of the text,
    a word, up to the first character that is none of a word,

and behind it nothing is open again.  The four `scan_…` equations say what the
scanner makes of each piece, whatever follows it.  `pieces_induction` says that
every text is such a row of pieces, so that what holds of a text when it holds
behind each kind of piece holds of all texts.
-/
import CallLang.Scan

namespace CallLang

/-! ## The characters, class by class -/

/-- `Delimits c kind`: the character `c` is a token of its own, of this kind. -/
inductive Delimits : Char → TokenKind → Prop
  | openParen : Delimits '(' .openParen
  | closeParen : Delimits ')' .closeParen
  | singleQuote : Delimits '\'' .quote
  | doubleQuote : Delimits '"' .quote

/-- What words are made of: any character but blanks, parens, quotes and the
semicolon. -/
def IsWordChar (c : Char) : Prop :=
  isBlank c = false ∧ (∀ kind, ¬ Delimits c kind) ∧ c ≠ ';'

theorem charClass_of_isBlank {c : Char} (h : isBlank c) : charClass c = .blank := by
  simp only [charClass, h, if_true]

theorem charClass_of_delimits {c : Char} {kind : TokenKind} (h : Delimits c kind) :
    charClass c = .delimiter kind := by
  cases h <;> rfl

theorem charClass_of_isWordChar {c : Char} (h : IsWordChar c) : charClass c = .plain := by
  obtain ⟨hblank, hdelim, hsemi⟩ := h
  have hopen : c ≠ '(' := by
    rintro rfl
    exact hdelim _ .openParen
  have hclose : c ≠ ')' := by
    rintro rfl
    exact hdelim _ .closeParen
  have hsingle : c ≠ '\'' := by
    rintro rfl
    exact hdelim _ .singleQuote
  have hdouble : c ≠ '"' := by
    rintro rfl
    exact hdelim _ .doubleQuote
  simp [charClass, hblank, hsemi, hopen, hclose, hsingle, hdouble]

/-- Every character is of one of the four classes. -/
theorem char_cases (c : Char) :
    isBlank c ∨ (∃ kind, Delimits c kind) ∨ c = ';' ∨ IsWordChar c := by
  by_cases hblank : isBlank c
  · exact Or.inl hblank
  · by_cases hdelim : ∃ kind, Delimits c kind
    · exact Or.inr (Or.inl hdelim)
    · by_cases hsemi : c = ';'
      · exact Or.inr (Or.inr (Or.inl hsemi))
      · refine Or.inr (Or.inr (Or.inr ⟨?_, ?_, hsemi⟩))
        · simpa using hblank
        · exact fun kind hk => hdelim ⟨kind, hk⟩

theorem charClass_eq_plain_iff {c : Char} : charClass c = .plain ↔ IsWordChar c := by
  refine ⟨fun h => ?_, charClass_of_isWordChar⟩
  rcases char_cases c with hblank | ⟨kind, hdelim⟩ | rfl | hword
  · rw [charClass_of_isBlank hblank] at h
    cases h
  · rw [charClass_of_delimits hdelim] at h
    cases h
  · exact absurd h (by decide)
  · exact hword

instance : DecidablePred IsWordChar :=
  fun _ => decidable_of_iff _ charClass_eq_plain_iff

theorem not_isWordChar_of_isBlank {c : Char} (h : isBlank c) : ¬ IsWordChar c := by
  intro hword
  exact absurd h (by simp [hword.1])

theorem not_isWordChar_of_delimits {c : Char} {kind : TokenKind} (h : Delimits c kind) :
    ¬ IsWordChar c :=
  fun hword => hword.2.1 kind h

theorem isBlank_eq_false_of_delimits {c : Char} {kind : TokenKind} (h : Delimits c kind) :
    isBlank c = false := by
  cases h <;> rfl

theorem Delimits.unique {c : Char} {kind kind' : TokenKind} (h : Delimits c kind)
    (h' : Delimits c kind') : kind = kind' := by
  cases h <;> cases h' <;> rfl

theorem ne_semicolon_of_delimits {c : Char} {kind : TokenKind} (h : Delimits c kind) :
    c ≠ ';' := by
  cases h <;> decide

theorem ne_semicolon_of_isBlank {c : Char} (h : isBlank c) : c ≠ ';' := by
  rintro rfl
  exact absurd h (by decide)

/-! ## What the scanner makes of a piece -/

theorem scan_blank {c : Char} (h : isBlank c) (pos : Nat) (rest : List Char) :
    scan .between pos (c :: rest) = scan .between (pos + 1) rest := by
  simp only [scan, Mode.emits, Mode.next, charClass_of_isBlank h, Mode.close, List.nil_append]

theorem scan_delimiter {c : Char} {kind : TokenKind} (h : Delimits c kind) (pos : Nat)
    (rest : List Char) :
    scan .between pos (c :: rest)
      = delimiterToken kind pos c :: scan .between (pos + 1) rest := by
  simp only [scan, Mode.emits, Mode.next, charClass_of_delimits h, Mode.close, List.nil_append,
    List.singleton_append]

theorem scan_commentBody {body : List Char} (h : ∀ c ∈ body, endsComment c = false) (pos : Nat)
    (rest : List Char) :
    scan .comment pos (body ++ rest) = scan .comment (pos + body.length) rest := by
  induction body generalizing pos with
  | nil => rfl
  | cons c body ih =>
      obtain ⟨hc, hbody⟩ := List.forall_mem_cons.mp h
      rw [List.cons_append, scan]
      simp only [Mode.emits, Mode.next, hc, List.nil_append, Bool.false_eq_true, if_false]
      rw [ih hbody, List.length_cons, Nat.add_assoc, Nat.add_comm 1]

theorem scan_commentEnd {rest : List Char} (h : ∀ c ∈ rest.head?, endsComment c) (pos : Nat) :
    scan .comment pos rest = scan .between pos rest := by
  cases rest with
  | nil => rfl
  | cons c rest =>
      have hc : endsComment c := h c rfl
      rw [scan_blank (isBlank_of_endsComment hc), scan]
      simp only [Mode.emits, Mode.next, hc, if_true, List.nil_append]

theorem scan_comment {body rest : List Char} (hbody : ∀ c ∈ body, endsComment c = false)
    (hrest : ∀ c ∈ rest.head?, endsComment c) (pos : Nat) :
    scan .between pos (';' :: (body ++ rest))
      = scan .between (pos + 1 + body.length) rest := by
  have hopen : scan .between pos (';' :: (body ++ rest)) = scan .comment (pos + 1) (body ++ rest) :=
    rfl
  rw [hopen, scan_commentBody hbody, scan_commentEnd hrest]

theorem scan_wordBody {w : List Char} (h : ∀ c ∈ w, IsWordChar c) (start pos : Nat)
    (seen rest : List Char) :
    scan (.word start seen) pos (w ++ rest)
      = scan (.word start (w.reverse ++ seen)) (pos + w.length) rest := by
  induction w generalizing pos seen with
  | nil => rfl
  | cons c w ih =>
      obtain ⟨hc, hw⟩ := List.forall_mem_cons.mp h
      rw [List.cons_append, scan]
      simp only [Mode.emits, Mode.next, charClass_of_isWordChar hc, List.nil_append]
      rw [ih hw, List.length_cons, Nat.add_assoc, Nat.add_comm 1]
      simp

theorem scan_wordEnd {rest : List Char} (h : ∀ c ∈ rest.head?, ¬ IsWordChar c) (start pos : Nat)
    (seen : List Char) :
    scan (.word start seen) pos rest
      = wordToken start seen.reverse :: scan .between pos rest := by
  cases rest with
  | nil => rfl
  | cons c rest =>
      have hc : charClass c ≠ .plain := mt charClass_eq_plain_iff.mp (h c rfl)
      simp only [scan, Mode.emits, Mode.next]
      cases hclass : charClass c with
      | plain => exact absurd hclass hc
      | blank | semicolon | delimiter kind => rfl

theorem scan_word {w rest : List Char} (hne : w ≠ []) (hw : ∀ c ∈ w, IsWordChar c)
    (hrest : ∀ c ∈ rest.head?, ¬ IsWordChar c) (pos : Nat) :
    scan .between pos (w ++ rest)
      = wordToken pos w :: scan .between (pos + w.length) rest := by
  cases w with
  | nil => exact absurd rfl hne
  | cons c w =>
      obtain ⟨hc, hw⟩ := List.forall_mem_cons.mp hw
      rw [List.cons_append, scan]
      simp only [Mode.emits, Mode.next, charClass_of_isWordChar hc, List.nil_append]
      rw [scan_wordBody hw, scan_wordEnd hrest, List.length_cons, Nat.add_assoc, Nat.add_comm 1]
      simp

theorem wordKind_ne_of_delimits {c : Char} {kind : TokenKind} (h : Delimits c kind)
    (text : String) : wordKind text ≠ kind := by
  unfold wordKind
  split
  · cases h <;> decide
  · split <;> cases h <;> decide

/-! ## Every text is a row of pieces -/

/-- The characters up to the first that `p` refuses, and that one first in what
follows. -/
theorem exists_leading {α : Type} (p : α → Prop) (xs : List α) :
    ∃ ys zs, xs = ys ++ zs ∧ (∀ y ∈ ys, p y) ∧ ∀ z ∈ zs.head?, ¬ p z := by
  induction xs with
  | nil => exact ⟨[], [], rfl, List.forall_mem_nil _, fun _ h => nomatch h⟩
  | cons x xs ih =>
      by_cases hx : p x
      · obtain ⟨ys, zs, hxs, hys, hzs⟩ := ih
        exact ⟨x :: ys, zs, by rw [hxs, List.cons_append], List.forall_mem_cons.mpr ⟨hx, hys⟩, hzs⟩
      · refine ⟨[], x :: xs, rfl, List.forall_mem_nil _, ?_⟩
        intro z hz
        obtain rfl : x = z := Option.some.inj hz
        exact hx

@[elab_as_elim]
theorem pieces_induction {P : List Char → Prop}
    (nil : P [])
    (blank : ∀ c rest, isBlank c → P rest → P (c :: rest))
    (delimiter : ∀ c kind rest, Delimits c kind → P rest → P (c :: rest))
    (comment : ∀ body rest, (∀ c ∈ body, endsComment c = false) →
      (∀ c ∈ rest.head?, endsComment c) → P rest → P (';' :: (body ++ rest)))
    (word : ∀ w rest, w ≠ [] → (∀ c ∈ w, IsWordChar c) →
      (∀ c ∈ rest.head?, ¬ IsWordChar c) → P rest → P (w ++ rest))
    (cs : List Char) : P cs := by
  -- Behind a piece the text is shorter, but by more than one character at times.
  induction hlen : cs.length using Nat.strongRecOn generalizing cs with
  | ind n ih =>
      subst hlen
      cases cs with
      | nil => exact nil
      | cons c cs =>
          have shorter : ∀ rest : List Char, rest.length ≤ cs.length → P rest :=
            fun rest h => ih rest.length (Nat.lt_succ_of_le h) rest rfl
          rcases char_cases c with hblank | ⟨kind, hdelim⟩ | rfl | hword
          · exact blank c cs hblank (shorter cs (Nat.le_refl _))
          · exact delimiter c kind cs hdelim (shorter cs (Nat.le_refl _))
          · obtain ⟨body, rest, rfl, hbody, hrest⟩ := exists_leading (endsComment · = false) cs
            refine comment body rest hbody ?_ (shorter rest (by simp))
            intro d hd
            simpa using hrest d hd
          · obtain ⟨w, rest, rfl, hw, hrest⟩ := exists_leading IsWordChar cs
            rw [← List.cons_append]
            exact word (c :: w) rest (List.cons_ne_nil _ _)
              (List.forall_mem_cons.mpr ⟨hword, hw⟩) hrest (shorter rest (by simp))

/-! ## What the tokens of a text look like -/

/-- `Lexeme t`: the token `t` is a paren or quote with the kind that belongs to
it, or a word with the kind that the word decides. -/
inductive Lexeme : Token → Prop
  | delimiter {c : Char} {kind : TokenKind} {pos : Nat} :
      Delimits c kind → Lexeme (delimiterToken kind pos c)
  | word {w : List Char} {pos : Nat} :
      w ≠ [] → (∀ c ∈ w, IsWordChar c) → Lexeme (wordToken pos w)

theorem lexeme_of_mem_scan {pos : Nat} {cs : List Char} {t : Token}
    (h : t ∈ scan .between pos cs) : Lexeme t := by
  induction cs using pieces_induction generalizing pos with
  | nil => exact absurd h List.not_mem_nil
  | blank c rest hc ih =>
      rw [scan_blank hc] at h
      exact ih h
  | delimiter c kind rest hc ih =>
      rw [scan_delimiter hc] at h
      rcases List.mem_cons.mp h with rfl | h
      · exact .delimiter hc
      · exact ih h
  | comment body rest hbody hrest ih =>
      rw [scan_comment hbody hrest] at h
      exact ih h
  | word w rest hne hw hrest ih =>
      rw [scan_word hne hw hrest] at h
      rcases List.mem_cons.mp h with rfl | h
      · exact .word hne hw
      · exact ih h

theorem lexeme_of_mem_tokenize {source : String} {t : Token} (h : t ∈ tokenize source) :
    Lexeme t :=
  lexeme_of_mem_scan h

end CallLang

/-
# `CallLang.Proofs.Coverage` — no character of a source text is lost

## What is proved, and against what

`tokenize_covers` speaks of the positions of a text.  Each of them lies in
exactly one place: in the span of one token, in a comment, or on a blank
outside of comments.  None of these notions is taken from the scanner:

| | |
| :-- | :-- |
| span | the characters from `pos` up to `stop`, which spell the text of the token |
| comment | `IsComment`: a semicolon in no earlier comment, and what follows up to the line end |
| word | `MaximalRun`: characters of a word, with none on either side |

## How

The pieces of `CallLang.Proofs.Pieces` are put at their positions: `Tiles cs i
ts` cuts the text `cs` from the position `i` on, and `ts` are the tokens among
the pieces.  Two facts travel along a tiling from left to right: no comment that
was opened before reaches beyond the place where a piece starts (`Clear`), and a
word does not start right behind a character of a word (`Edge`).
-/
import Mathlib.Logic.ExistsUnique
import CallLang.Proofs.Pieces

namespace CallLang

/-! ## Runs, words and comments by their positions -/

/-- `RunsTo p cs i j`: the characters of `cs` from `i` up to `j` have the
property `p`, and no further ones. -/
structure RunsTo (p : Char → Prop) (cs : List Char) (i j : Nat) : Prop where
  lt : i < j
  inside : ∀ k, i ≤ k → k < j → ∃ c, cs[k]? = some c ∧ p c
  ends : ∀ c, cs[j]? = some c → ¬ p c

/-- `MaximalRun cs i j`: the positions from `i` up to `j` hold characters of a
word, and their neighbours on both sides do not. -/
structure MaximalRun (cs : List Char) (i j : Nat) : Prop extends RunsTo IsWordChar cs i j where
  starts : ∀ k c, k + 1 = i → cs[k]? = some c → ¬ IsWordChar c

/-- `IsComment cs start stop`: a semicolon at `start`, in no comment that was
opened earlier, opens a comment, which goes on up to `stop`: the first line end
behind it, or the end of the text. -/
def IsComment (cs : List Char) (start stop : Nat) : Prop :=
  cs[start]? = some ';' ∧ (∀ s < start, ∀ t, IsComment cs s t → t ≤ start) ∧
    RunsTo (endsComment · = false) cs start stop
termination_by start

/-- A position in no comment. -/
def Outside (cs : List Char) (i : Nat) : Prop :=
  ∀ s t, IsComment cs s t → ¬ (s ≤ i ∧ i < t)

/-- No comment that was opened before `i` reaches beyond it. -/
def Clear (cs : List Char) (i : Nat) : Prop :=
  ∀ s < i, ∀ t, IsComment cs s t → t ≤ i

section Runs

variable {p : Char → Prop} {cs : List Char} {i j k : Nat}

theorem RunsTo.unique (h : RunsTo p cs i j) (h' : RunsTo p cs i k) : j = k := by
  have key : ∀ {a b : Nat}, RunsTo p cs i a → RunsTo p cs i b → ¬ a < b := by
    intro a b ha hb hlt
    obtain ⟨c, hc, hp⟩ := hb.inside a (Nat.le_of_lt ha.lt) hlt
    exact ha.ends c hc hp
  exact Nat.le_antisymm (Nat.le_of_not_lt (key h' h)) (Nat.le_of_not_lt (key h h'))

theorem RunsTo.le_length (h : RunsTo p cs i j) : j ≤ cs.length := by
  have hlt := h.lt
  obtain ⟨c, hc, -⟩ := h.inside (j - 1) (Nat.le_sub_one_of_lt hlt) (by omega)
  obtain ⟨hlast, -⟩ := List.getElem?_eq_some_iff.mp hc
  omega

theorem runsTo_append {pre w rest : List Char} (hne : w ≠ []) (hw : ∀ c ∈ w, p c)
    (hrest : ∀ c ∈ rest.head?, ¬ p c) :
    RunsTo p (pre ++ (w ++ rest)) pre.length (pre.length + w.length) := by
  refine ⟨?_, ?_, ?_⟩
  · have hpos : 0 < w.length := List.length_pos_iff.mpr hne
    omega
  · intro k hk hlt
    have hin : k - pre.length < w.length := by omega
    refine ⟨w[k - pre.length], ?_, hw _ (List.getElem_mem hin)⟩
    rw [List.getElem?_append_right hk, List.getElem?_append_left hin, List.getElem?_eq_getElem hin]
  · intro c hc
    rw [List.getElem?_append_right (Nat.le_add_right _ _), Nat.add_sub_cancel_left,
      List.getElem?_append_right (Nat.le_refl _), Nat.sub_self, ← List.head?_eq_getElem?] at hc
    exact hrest c hc

end Runs

/-! ## Comments -/

section Comments

variable {cs : List Char} {i j s t : Nat}

theorem isComment_iff :
    IsComment cs i j ↔
      cs[i]? = some ';' ∧ Clear cs i ∧ RunsTo (endsComment · = false) cs i j := by
  rw [IsComment]
  exact Iff.rfl

theorem clear_zero : Clear cs 0 :=
  fun _ hs => absurd hs (Nat.not_lt_zero _)

theorem Clear.outside (h : Clear cs i) (hi : cs[i]? ≠ some ';') : Outside cs i := by
  rintro s t hcomment ⟨hs, ht⟩
  rcases Nat.lt_or_eq_of_le hs with hlt | rfl
  · exact absurd ht (Nat.not_lt.mpr (h s hlt t hcomment))
  · exact hi (isComment_iff.mp hcomment).1

theorem Clear.succ (h : Clear cs i) (hi : cs[i]? ≠ some ';') : Clear cs (i + 1) := by
  intro s hs t hcomment
  rcases Nat.lt_or_eq_of_le (Nat.le_of_lt_succ hs) with hlt | rfl
  · exact Nat.le_succ_of_le (h s hlt t hcomment)
  · exact absurd (isComment_iff.mp hcomment).1 hi

theorem Clear.run {p : Char → Prop} (h : Clear cs i) (hrun : RunsTo p cs i j)
    (hp : ∀ c, p c → c ≠ ';') : ∀ k, i ≤ k → k ≤ j → Clear cs k := by
  intro k hk
  induction hk with
  | refl => exact fun _ => h
  | @step k hk ih =>
      intro hlt
      obtain ⟨c, hc, hpc⟩ := hrun.inside k hk hlt
      refine (ih (Nat.le_of_succ_le hlt)).succ ?_
      rw [hc]
      exact fun heq => hp c hpc (Option.some.inj heq)

theorem Clear.comment (h : IsComment cs i j) : Clear cs j := by
  obtain ⟨-, hclear, hrun⟩ := isComment_iff.mp h
  intro s hs t hcomment
  rcases Nat.lt_trichotomy s i with hlt | rfl | hgt
  · exact Nat.le_trans (hclear s hlt t hcomment) (Nat.le_of_lt hrun.lt)
  · exact Nat.le_of_eq ((isComment_iff.mp hcomment).2.2.unique hrun)
  · have hle : j ≤ s := (isComment_iff.mp hcomment).2.1 i hgt j h
    exact absurd hs (Nat.not_lt.mpr hle)

/-- Comments do not overlap. -/
theorem IsComment.unique {i' j' k : Nat} (h : IsComment cs i j) (h' : IsComment cs i' j')
    (hk : i ≤ k ∧ k < j) (hk' : i' ≤ k ∧ k < j') : i = i' ∧ j = j' := by
  have key : ∀ {a b a' b' : Nat}, IsComment cs a b → IsComment cs a' b' → k < b → a' ≤ k →
      ¬ a < a' := by
    intro a b a' b' hc hc' hb ha' hlt
    have hle : b ≤ a' := (isComment_iff.mp hc').2.1 a hlt b hc
    omega
  obtain rfl : i = i' :=
    Nat.le_antisymm (Nat.le_of_not_lt (key h' h hk'.2 hk.1))
      (Nat.le_of_not_lt (key h h' hk.2 hk'.1))
  exact ⟨rfl, (isComment_iff.mp h).2.2.unique (isComment_iff.mp h').2.2⟩

end Comments

/-! ## The pieces at their positions -/

/-- `Tiles cs i ts`: from the position `i` on the text `cs` is a row of pieces,
and `ts` are the tokens among them. -/
inductive Tiles (cs : List Char) : Nat → List Token → Prop
  | done : Tiles cs cs.length []
  | blank {i : Nat} {c : Char} {ts : List Token} :
      cs[i]? = some c → isBlank c → Tiles cs (i + 1) ts → Tiles cs i ts
  | delimiter {i : Nat} {c : Char} {kind : TokenKind} {ts : List Token} :
      cs[i]? = some c → Delimits c kind → Tiles cs (i + 1) ts →
      Tiles cs i (delimiterToken kind i c :: ts)
  | comment {i j : Nat} {ts : List Token} :
      cs[i]? = some ';' → RunsTo (endsComment · = false) cs i j → Tiles cs j ts → Tiles cs i ts
  | word {i j : Nat} {ts : List Token} :
      RunsTo IsWordChar cs i j → Tiles cs j ts →
      Tiles cs i (wordToken i (cs.extract i j) :: ts)

theorem extract_append (pre w rest : List Char) :
    (pre ++ (w ++ rest)).extract pre.length (pre.length + w.length) = w := by
  simp

/-- What the scanner reads from a position on is a tiling from there. -/
theorem tiles_scan {full cs : List Char} (pre : List Char) (hfull : full = pre ++ cs) :
    Tiles full pre.length (scan .between pre.length cs) := by
  induction cs using pieces_induction generalizing pre with
  | nil =>
      obtain rfl : full = pre := by rw [hfull, List.append_nil]
      exact .done
  | blank c rest hc ih =>
      have hrest := ih (pre ++ [c]) (by simp [hfull])
      rw [List.length_append, List.length_singleton] at hrest
      rw [scan_blank hc]
      exact .blank (by simp [hfull]) hc hrest
  | delimiter c kind rest hc ih =>
      have hrest := ih (pre ++ [c]) (by simp [hfull])
      rw [List.length_append, List.length_singleton] at hrest
      rw [scan_delimiter hc]
      exact .delimiter (by simp [hfull]) hc hrest
  | comment body rest hbody hend ih =>
      have hrest := ih (pre ++ (';' :: body)) (by simp [hfull])
      rw [List.length_append] at hrest
      rw [scan_comment hbody hend, Nat.add_assoc, Nat.add_comm 1, ← List.length_cons]
      refine .comment (by simp [hfull]) ?_ hrest
      subst hfull
      refine runsTo_append (List.cons_ne_nil _ _) ?_ ?_
      · exact List.forall_mem_cons.mpr ⟨rfl, hbody⟩
      · intro c hc
        simp [hend c hc]
  | word w rest hne hw hend ih =>
      have hrest := ih (pre ++ w) (by simp [hfull])
      rw [List.length_append] at hrest
      rw [scan_word hne hw hend]
      subst hfull
      have hword := Tiles.word (runsTo_append hne hw hend) hrest
      rwa [extract_append] at hword

/-! ## What is known where a piece starts -/

/-- A word that starts at `i` has no character of a word before it. -/
def Edge (cs : List Char) (i : Nat) : Prop :=
  (∀ k c, k + 1 = i → cs[k]? = some c → ¬ IsWordChar c) ∨ ∀ c, cs[i]? = some c → ¬ IsWordChar c

section Tilings

variable {cs : List Char} {i : Nat} {ts : List Token}

theorem edge_zero : Edge cs 0 :=
  Or.inl fun _ _ hk => absurd hk (Nat.succ_ne_zero _)

theorem edge_succ {c : Char} (hc : cs[i]? = some c) (h : ¬ IsWordChar c) : Edge cs (i + 1) := by
  refine Or.inl ?_
  intro k d hk hd
  obtain rfl : k = i := Nat.succ.inj hk
  obtain rfl : c = d := Option.some.inj (hc.symm.trans hd)
  exact h

theorem length_extract {j : Nat} (h : j ≤ cs.length) : (cs.extract i j).length = j - i := by
  rw [List.length_take, List.length_drop]
  omega

/-- `TokenAt cs t`: the token `t` is a paren or quote of the text, or a word of
it. -/
inductive TokenAt (cs : List Char) : Token → Prop
  | delimiter {i : Nat} {c : Char} {kind : TokenKind} :
      cs[i]? = some c → Delimits c kind → TokenAt cs (delimiterToken kind i c)
  | word {i j : Nat} : MaximalRun cs i j → TokenAt cs (wordToken i (cs.extract i j))

theorem wordToken_stop {j : Nat} (h : RunsTo IsWordChar cs i j) :
    (wordToken i (cs.extract i j)).stop = j := by
  show i + (cs.extract i j).length = j
  have hlt := h.lt
  rw [length_extract h.le_length]
  omega

theorem TokenAt.spells {t : Token} (h : TokenAt cs t) :
    t.pos < t.stop ∧ t.stop ≤ cs.length ∧ t.text.toList = cs.extract t.pos t.stop := by
  cases h with
  | @delimiter i c kind hc hd =>
      obtain ⟨hlt, hget⟩ := List.getElem?_eq_some_iff.mp hc
      refine ⟨Nat.lt_succ_self i, hlt, ?_⟩
      show (String.singleton c).toList = (cs.drop i).take (i + 1 - i)
      rw [String.toList_singleton, Nat.add_sub_cancel_left, List.drop_eq_getElem_cons hlt, hget]
      rfl
  | @word i j hrun =>
      rw [wordToken_stop hrun.toRunsTo]
      exact ⟨hrun.lt, hrun.le_length, String.toList_ofList⟩

theorem Tiles.le_pos (h : Tiles cs i ts) : ∀ t ∈ ts, i ≤ t.pos := by
  induction h with
  | done => exact List.forall_mem_nil _
  | blank _ _ _ ih => exact fun t ht => Nat.le_of_succ_le (ih t ht)
  | delimiter _ _ _ ih =>
      exact List.forall_mem_cons.mpr ⟨Nat.le_refl _, fun t ht => Nat.le_of_succ_le (ih t ht)⟩
  | comment _ hrun _ ih => exact fun t ht => Nat.le_trans (Nat.le_of_lt hrun.lt) (ih t ht)
  | word hrun _ ih =>
      exact List.forall_mem_cons.mpr
        ⟨Nat.le_refl _, fun t ht => Nat.le_trans (Nat.le_of_lt hrun.lt) (ih t ht)⟩

theorem Tiles.pairwise (h : Tiles cs i ts) : ts.Pairwise (·.stop ≤ ·.pos) := by
  induction h with
  | done => exact .nil
  | blank _ _ _ ih => exact ih
  | delimiter _ _ hrest ih => exact .cons hrest.le_pos ih
  | comment _ _ _ ih => exact ih
  | word hrun hrest ih =>
      refine .cons ?_ ih
      rw [wordToken_stop hrun]
      exact hrest.le_pos

theorem Tiles.tokenAt (h : Tiles cs i ts) (hclear : Clear cs i) (hedge : Edge cs i) :
    ∀ t ∈ ts, TokenAt cs t ∧ ∀ k, t.pos ≤ k → k < t.stop → Outside cs k := by
  induction h with
  | done => exact List.forall_mem_nil _
  | blank hc hblank _ ih =>
      have hsemi := ne_semicolon_of_isBlank hblank
      exact ih (hclear.succ (by simpa [hc] using hsemi))
        (edge_succ hc (not_isWordChar_of_isBlank hblank))
  | @delimiter i c kind ts hc hdelim _ ih =>
      have hsemi : cs[i]? ≠ some ';' := by simpa [hc] using ne_semicolon_of_delimits hdelim
      refine List.forall_mem_cons.mpr ⟨⟨.delimiter hc hdelim, ?_⟩, ?_⟩
      · intro k hle hlt
        obtain rfl : i = k := Nat.le_antisymm hle (Nat.le_of_lt_succ hlt)
        exact hclear.outside hsemi
      · exact ih (hclear.succ hsemi) (edge_succ hc (not_isWordChar_of_delimits hdelim))
  | comment hc hrun _ ih =>
      refine ih (Clear.comment (isComment_iff.mpr ⟨hc, hclear, hrun⟩)) (Or.inr ?_)
      intro d hd
      have hend : endsComment d := by simpa using hrun.ends d hd
      exact not_isWordChar_of_isBlank (isBlank_of_endsComment hend)
  | @word i j ts hrun _ ih =>
      have hclears := hclear.run hrun fun c hc => hc.2.2
      refine List.forall_mem_cons.mpr ⟨⟨?_, ?_⟩, ?_⟩
      · rcases hedge with hbefore | hhere
        · exact .word ⟨hrun, hbefore⟩
        · obtain ⟨c, hc, hword⟩ := hrun.inside i (Nat.le_refl _) hrun.lt
          exact absurd hword (hhere c hc)
      · intro k hle hlt
        rw [wordToken_stop hrun] at hlt
        obtain ⟨c, hc, hword⟩ := hrun.inside k hle hlt
        refine (hclears k hle (Nat.le_of_lt hlt)).outside ?_
        rw [hc]
        exact fun heq => hword.2.2 (Option.some.inj heq)
      · exact ih (hclears j (Nat.le_of_lt hrun.lt) (Nat.le_refl _)) (Or.inr hrun.ends)

end Tilings

/-! ## Where a position lies -/

/-- The places that a position of a text can lie in. -/
inductive Place
  | token (t : Token)
  | blank
  | comment (start stop : Nat)

/-- `LiesIn cs ts i place`: the position `i` of the text `cs` lies in this
place, when `ts` are the tokens of the text. -/
inductive LiesIn (cs : List Char) (ts : List Token) (i : Nat) : Place → Prop
  | token {t : Token} : t ∈ ts → t.pos ≤ i → i < t.stop → LiesIn cs ts i (.token t)
  | blank {c : Char} : cs[i]? = some c → isBlank c → Outside cs i → LiesIn cs ts i .blank
  | comment {start stop : Nat} :
      IsComment cs start stop → start ≤ i → i < stop → LiesIn cs ts i (.comment start stop)

section Places

variable {cs : List Char} {i k : Nat} {ts : List Token}

theorem LiesIn.of_cons {t : Token} {place : Place} (h : LiesIn cs ts k place) :
    LiesIn cs (t :: ts) k place := by
  cases h with
  | token ht hpos hstop => exact .token (List.mem_cons_of_mem _ ht) hpos hstop
  | blank hc hblank hout => exact .blank hc hblank hout
  | comment hc hstart hstop => exact .comment hc hstart hstop

/-- No position from `i` on is left out. -/
theorem Tiles.exists_place (h : Tiles cs i ts) (hclear : Clear cs i) (hk : i ≤ k)
    (hlen : k < cs.length) : ∃ place, LiesIn cs ts k place := by
  induction h with
  | done => exact absurd hlen (Nat.not_lt.mpr hk)
  | @blank i c ts hc hblank _ ih =>
      have hsemi : cs[i]? ≠ some ';' := by simpa [hc] using ne_semicolon_of_isBlank hblank
      rcases Nat.lt_or_eq_of_le hk with hlt | rfl
      · exact ih (hclear.succ hsemi) hlt
      · exact ⟨_, .blank hc hblank (hclear.outside hsemi)⟩
  | @delimiter i c kind ts hc hdelim _ ih =>
      have hsemi : cs[i]? ≠ some ';' := by simpa [hc] using ne_semicolon_of_delimits hdelim
      rcases Nat.lt_or_eq_of_le hk with hlt | rfl
      · obtain ⟨place, hplace⟩ := ih (hclear.succ hsemi) hlt
        exact ⟨place, hplace.of_cons⟩
      · exact ⟨_, .token List.mem_cons_self (Nat.le_refl _) (Nat.lt_succ_self _)⟩
  | @comment i j ts hc hrun _ ih =>
      have hcomment : IsComment cs i j := isComment_iff.mpr ⟨hc, hclear, hrun⟩
      rcases Nat.lt_or_ge k j with hlt | hge
      · exact ⟨_, .comment hcomment hk hlt⟩
      · exact ih (Clear.comment hcomment) hge
  | @word i j ts hrun _ ih =>
      rcases Nat.lt_or_ge k j with hlt | hge
      · refine ⟨_, .token List.mem_cons_self hk ?_⟩
        rwa [wordToken_stop hrun]
      · have hclears := hclear.run hrun fun c hc => hc.2.2
        obtain ⟨place, hplace⟩ := ih (hclears j (Nat.le_of_lt hrun.lt) (Nat.le_refl _)) hge
        exact ⟨place, hplace.of_cons⟩

theorem TokenAt.not_blank {t : Token} {c : Char} (h : TokenAt cs t) (hpos : t.pos ≤ k)
    (hstop : k < t.stop) (hc : cs[k]? = some c) : isBlank c = false := by
  cases h with
  | @delimiter i d kind hd hdelim =>
      obtain rfl : i = k := Nat.le_antisymm hpos (Nat.le_of_lt_succ hstop)
      obtain rfl : d = c := Option.some.inj (hd.symm.trans hc)
      exact isBlank_eq_false_of_delimits hdelim
  | @word i j hrun =>
      rw [wordToken_stop hrun.toRunsTo] at hstop
      obtain ⟨d, hd, hword⟩ := hrun.inside k hpos hstop
      obtain rfl : d = c := Option.some.inj (hd.symm.trans hc)
      exact hword.1

theorem eq_of_spans (hpair : ts.Pairwise (·.stop ≤ ·.pos)) {t u : Token} (ht : t ∈ ts)
    (hu : u ∈ ts) (hkt : t.pos ≤ k ∧ k < t.stop) (hku : u.pos ≤ k ∧ k < u.stop) : t = u := by
  induction hpair with
  | nil => exact absurd ht List.not_mem_nil
  | @cons v vs hv _ ih =>
      rcases List.mem_cons.mp ht with rfl | ht' <;> rcases List.mem_cons.mp hu with rfl | hu'
      · rfl
      · have hle := hv u hu'
        omega
      · have hle := hv t ht'
        omega
      · exact ih ht' hu'

/-- A position lies in one place at most. -/
theorem LiesIn.unique {place place' : Place} (hpair : ts.Pairwise (·.stop ≤ ·.pos))
    (htokens : ∀ t ∈ ts, TokenAt cs t ∧ ∀ k, t.pos ≤ k → k < t.stop → Outside cs k)
    (h : LiesIn cs ts i place) (h' : LiesIn cs ts i place') : place = place' := by
  have blankToken : ∀ {c t}, cs[i]? = some c → isBlank c → t ∈ ts → t.pos ≤ i → i < t.stop →
      False := by
    intro c t hc hblank ht hpos hstop
    have hnot := (htokens t ht).1.not_blank hpos hstop hc
    exact absurd hblank (by simp [hnot])
  have commentToken : ∀ {a b t}, IsComment cs a b → a ≤ i → i < b → t ∈ ts → t.pos ≤ i →
      i < t.stop → False := by
    intro a b t hcomment ha hb ht hpos hstop
    exact (htokens t ht).2 i hpos hstop a b hcomment ⟨ha, hb⟩
  cases h with
  | token ht hpos hstop =>
      cases h' with
      | token hu hpos' hstop' => rw [eq_of_spans hpair ht hu ⟨hpos, hstop⟩ ⟨hpos', hstop'⟩]
      | blank hc hblank hout => exact (blankToken hc hblank ht hpos hstop).elim
      | comment hcomment ha hb => exact (commentToken hcomment ha hb ht hpos hstop).elim
  | blank hc hblank hout =>
      cases h' with
      | token ht hpos hstop => exact (blankToken hc hblank ht hpos hstop).elim
      | blank => rfl
      | comment hcomment ha hb => exact absurd ⟨ha, hb⟩ (hout _ _ hcomment)
  | comment hcomment ha hb =>
      cases h' with
      | token ht hpos hstop => exact (commentToken hcomment ha hb ht hpos hstop).elim
      | blank _ _ hout => exact absurd ⟨ha, hb⟩ (hout _ _ hcomment)
      | comment hcomment' ha' hb' =>
          obtain ⟨rfl, rfl⟩ := hcomment.unique hcomment' ⟨ha, hb⟩ ⟨ha', hb'⟩
          rfl

theorem LiesIn.delimiter_mem {place : Place} {c : Char} {kind : TokenKind}
    (htokens : ∀ t ∈ ts, TokenAt cs t) (h : LiesIn cs ts i place) (hc : cs[i]? = some c)
    (hdelim : Delimits c kind) (hout : Outside cs i) : delimiterToken kind i c ∈ ts := by
  cases h with
  | @token t ht hpos hstop =>
      cases htokens t ht with
      | @delimiter j d kind' hd hdelim' =>
          obtain rfl : j = i := Nat.le_antisymm hpos (Nat.le_of_lt_succ hstop)
          obtain rfl : d = c := Option.some.inj (hd.symm.trans hc)
          obtain rfl := hdelim.unique hdelim'
          exact ht
      | @word j l hrun =>
          rw [wordToken_stop hrun.toRunsTo] at hstop
          obtain ⟨d, hd, hword⟩ := hrun.inside i hpos hstop
          obtain rfl : d = c := Option.some.inj (hd.symm.trans hc)
          exact absurd hword (not_isWordChar_of_delimits hdelim)
  | blank hd hblank =>
      obtain rfl := Option.some.inj (hd.symm.trans hc)
      exact absurd hblank (by simp [isBlank_eq_false_of_delimits hdelim])
  | comment hcomment ha hb => exact absurd ⟨ha, hb⟩ (hout _ _ hcomment)

end Places

/-! ## The tokens of a source text -/

theorem tiles_tokenize (source : String) : Tiles source.toList 0 (tokenize source) :=
  tiles_scan [] rfl

theorem tokenAt_of_mem_tokenize {source : String} {t : Token} (h : t ∈ tokenize source) :
    TokenAt source.toList t :=
  ((tiles_tokenize source).tokenAt clear_zero edge_zero t h).1

/-- **The tokens cover the text.**  The span of a token is not empty, lies in the
text and spells the token, and tokens stand in order.  Every position lies in
exactly one place: in a token, on a blank outside of comments, or in a comment.
A paren or quote outside of comments is a token of its own, of the kind that
belongs to it; and every other token is a word that could not be longer, of the
kind that the word decides. -/
theorem tokenize_covers (source : String) :
    (∀ t ∈ tokenize source, t.pos < t.stop ∧ t.stop ≤ source.toList.length ∧
      t.text.toList = source.toList.extract t.pos t.stop) ∧
    (tokenize source).Pairwise (·.stop ≤ ·.pos) ∧
    (∀ i < source.toList.length, ∃! place, LiesIn source.toList (tokenize source) i place) ∧
    (∀ i c kind, source.toList[i]? = some c → Delimits c kind → Outside source.toList i →
      ⟨kind, String.singleton c, i, i + 1⟩ ∈ tokenize source) ∧
    (∀ t ∈ tokenize source,
      (∃ c, Delimits c t.kind ∧ t.text = String.singleton c ∧ t.stop = t.pos + 1) ∨
      (MaximalRun source.toList t.pos t.stop ∧ t.kind = wordKind t.text)) := by
  have htiles := tiles_tokenize source
  have htokens := htiles.tokenAt clear_zero edge_zero
  have hplace : ∀ i < source.toList.length,
      ∃ place, LiesIn source.toList (tokenize source) i place :=
    fun i hi => htiles.exists_place clear_zero (Nat.zero_le i) hi
  refine ⟨?_, htiles.pairwise, ?_, ?_, ?_⟩
  · intro t ht
    exact (htokens t ht).1.spells
  · intro i hi
    obtain ⟨place, hlies⟩ := hplace i hi
    exact ⟨place, hlies, fun other hother => hother.unique htiles.pairwise htokens hlies⟩
  · intro i c kind hc hdelim hout
    obtain ⟨hlt, -⟩ := List.getElem?_eq_some_iff.mp hc
    obtain ⟨place, hlies⟩ := hplace i hlt
    exact hlies.delimiter_mem (fun t ht => (htokens t ht).1) hc hdelim hout
  · intro t ht
    cases (htokens t ht).1 with
    | @delimiter i c kind hc hdelim => exact Or.inl ⟨c, hdelim, rfl, rfl⟩
    | @word i j hrun =>
        refine Or.inr ⟨?_, rfl⟩
        rw [wordToken_stop hrun.toRunsTo]
        exact hrun

end CallLang

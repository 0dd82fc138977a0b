/-
# `CallLang.Proofs.Words` — the languages of number and symbol texts

What a word is follows from two grammars, and neither of them asks how a text is
read.

| | |
| :-- | :-- |
| numerals | `IsNumeral`: digits with a point at will, a sign and an exponent at will |
| identifiers | `IsIdentifier`: a letter or an underscore, then letters, digits and `_ ? ! -` |

A number text is a numeral, and a symbol text is an operator sign or an identifier;
numerals and identifiers may have one line feed behind them.  The tests for the
kind of a word accept exactly these texts, and no text is in both languages: a
numeral starts with a digit, a point or a minus sign, and an identifier does not
(`not_number_and_symbol`).  So nothing hangs on which test comes first.

The line feed shows only in texts that are handed in by themselves.  No word of a
source text holds one, since blanks end words.
-/
import CallLang.Proofs.RoundTrip

namespace CallLang

/-! ## Identifiers -/

/-- An identifier: a letter or an underscore, then any of letters, digits and four
signs. -/
inductive IsIdentifier : List Char → Prop
  | mk {c : Char} {cs : List Char} :
      isLetter c ∨ c = '_' →
      (∀ d ∈ cs, isLetter d ∨ isDigit d ∨ d = '_' ∨ d = '?' ∨ d = '!' ∨ d = '-') →
      IsIdentifier (c :: cs)

theorem startsIdentifier_iff {c : Char} : startsIdentifier c ↔ isLetter c ∨ c = '_' := by
  simp [startsIdentifier]

theorem continuesIdentifier_iff {c : Char} :
    continuesIdentifier c ↔
      isLetter c ∨ isDigit c ∨ c = '_' ∨ c = '?' ∨ c = '!' ∨ c = '-' := by
  simp only [continuesIdentifier, Bool.or_eq_true, startsIdentifier_iff, decide_eq_true_eq,
    or_assoc, or_left_comm (a := c = '_')]

/-- The test accepts exactly the identifiers. -/
theorem isIdentifier_iff {cs : List Char} : isIdentifier cs ↔ IsIdentifier cs := by
  cases cs with
  | nil => exact ⟨fun h => (nomatch h), fun h => (nomatch h)⟩
  | cons c cs =>
      rw [isIdentifier, Bool.and_eq_true, startsIdentifier_iff, List.all_eq_true]
      simp only [continuesIdentifier_iff]
      exact ⟨fun h => .mk h.1 h.2, fun ⟨hc, hcs⟩ => ⟨hc, hcs⟩⟩

theorem IsIdentifier.ne_nil {cs : List Char} (h : IsIdentifier cs) : cs ≠ [] := by
  cases h
  exact List.cons_ne_nil _ _

theorem IsIdentifier.newline_not_mem {cs : List Char} (h : IsIdentifier cs) : '\n' ∉ cs := by
  obtain ⟨hc, hcs⟩ := h
  intro hmem
  rcases List.mem_cons.mp hmem with rfl | hmem
  · exact absurd hc (by decide)
  · exact absurd (hcs _ hmem) (by decide)

/-! ## One line feed at will -/

/-- `FeedAtWill p text`: the text is one of the language `p`, or one of it with a
line feed behind it. -/
def FeedAtWill (p : List Char → Prop) (text : String) : Prop :=
  ∃ w, p w ∧ (text.toList = w ∨ text.toList = w ++ ['\n'])

theorem dropFinalNewline_iff {p : List Char → Prop} (hp : ∀ w, p w → '\n' ∉ w) {text : String} :
    p (dropFinalNewline text.toList) ↔ FeedAtWill p text := by
  constructor
  · intro h
    obtain ⟨feed, hfeed, htext⟩ := exists_feed text.toList
    refine ⟨_, h, ?_⟩
    rcases hfeed with rfl | rfl
    · rw [List.append_nil] at htext
      exact Or.inl htext
    · exact Or.inr htext
  · rintro ⟨w, hw, htext | htext⟩
    · rw [htext, dropFinalNewline_of_not_mem (hp w hw)]
      exact hw
    · rw [htext, dropFinalNewline_append (hp w hw) (Or.inr rfl)]
      exact hw

theorem feedAtWill_iff_of_not_mem {p : List Char → Prop} {text : String}
    (hfeed : '\n' ∉ text.toList) : FeedAtWill p text ↔ p text.toList := by
  constructor
  · rintro ⟨w, hw, htext | htext⟩
    · rwa [htext]
    · exact absurd (htext ▸ List.mem_append_right w List.mem_cons_self) hfeed
  · exact fun h => ⟨_, h, Or.inl rfl⟩

theorem FeedAtWill.exists_head?_eq {p : List Char → Prop} {text : String} (h : FeedAtWill p text)
    (hp : ∀ w, p w → w ≠ []) : ∃ w, p w ∧ w.head? = text.toList.head? := by
  obtain ⟨w, hw, htext⟩ := h
  refine ⟨w, hw, ?_⟩
  rcases htext with htext | htext
  · rw [htext]
  · rw [htext, List.head?_append, List.head?_eq_some_head (hp w hw)]
    rfl

theorem IsNumeral.newline_not_mem {cs : List Char} (h : IsNumeral cs) : '\n' ∉ cs := by
  intro hmem
  exact absurd (h.isWordChar.2 _ hmem) (by decide)

/-! ## The two languages -/

/-- The number texts are the numerals. -/
theorem isNumberText_iff {text : String} : isNumberText text ↔ FeedAtWill IsNumeral text := by
  rw [isNumberText, Numeral.ofText?, Numeral.read?_isSome_iff]
  exact dropFinalNewline_iff fun _ h => h.newline_not_mem

theorem isSymbolText_iff {text : String} :
    isSymbolText text ↔ text ∈ operatorSigns ∨ FeedAtWill IsIdentifier text := by
  have hidentifier : IsIdentifier (dropFinalNewline text.toList) ↔ FeedAtWill IsIdentifier text :=
    dropFinalNewline_iff fun _ h => h.newline_not_mem
  rw [isSymbolText, Bool.or_eq_true, List.contains_iff_mem, isIdentifier_iff, hidentifier]

section Heads

variable {c : Char} {cs ds : List Char}

theorem IsNumeral.head (h : IsNumeral (c :: cs)) : isDigit c ∨ c = '.' ∨ c = '-' := by
  have front : ∀ {ds rest : List Char}, IsDigits ds → c :: cs = ds ++ rest → isDigit c := by
    intro ds rest hds heq
    cases ds with
    | nil => exact absurd rfl hds.1
    | cons d ds =>
        obtain ⟨rfl, -⟩ := List.cons.inj heq
        exact hds.2 c List.mem_cons_self
  generalize hwhole : c :: cs = whole at h
  cases h with
  | @parts sign mantissa exponent hsign hmantissa _ =>
      rcases hsign with rfl | rfl
      · cases hmantissa with
        | whole hds => exact Or.inl (front hds hwhole)
        | wholePoint hds _ =>
            rw [List.nil_append, List.append_assoc] at hwhole
            exact Or.inl (front hds hwhole)
        | point _ => exact Or.inr (Or.inl (List.cons.inj hwhole).1)
      · exact Or.inr (Or.inr (List.cons.inj hwhole).1)

theorem isDigit_eq_false_of_isLetter (h : isLetter c) : isDigit c = false := by
  simp only [isLetter, isDigit, Bool.or_eq_true, Bool.and_eq_true, decide_eq_true_eq, Char.le_def,
    UInt32.le_iff_toNat_le, Bool.and_eq_false_iff, decide_eq_false_iff_not] at h ⊢
  have h0 : ('0' : Char).val.toNat = 48 := rfl
  have h9 : ('9' : Char).val.toNat = 57 := rfl
  have ha : ('a' : Char).val.toNat = 97 := rfl
  have hA : ('A' : Char).val.toNat = 65 := rfl
  omega

theorem IsIdentifier.not_isNumeral (h : IsIdentifier cs) (h' : IsNumeral ds)
    (hhead : cs.head? = ds.head?) : False := by
  cases h with
  | @mk c cs hc _ =>
      cases ds with
      | nil => cases hhead
      | cons d ds =>
          obtain rfl := Option.some.inj hhead
          rcases h'.head with hdigit | rfl | rfl
          · rcases hc with hletter | rfl
            · rw [isDigit_eq_false_of_isLetter hletter] at hdigit
              cases hdigit
            · exact absurd hdigit (by decide)
          · exact absurd hc (by decide)
          · exact absurd hc (by decide)

end Heads

/-- No text is a number text and a symbol text. -/
theorem not_number_and_symbol {text : String} (hnumber : FeedAtWill IsNumeral text)
    (hsymbol : text ∈ operatorSigns ∨ FeedAtWill IsIdentifier text) : False := by
  rcases hsymbol with hsign | hidentifier
  · have hnone : ∀ sign ∈ operatorSigns, ¬ isNumberText sign := by decide
    exact hnone text hsign (isNumberText_iff.mpr hnumber)
  · obtain ⟨ds, hds, hdhead⟩ := hnumber.exists_head?_eq fun w hw => hw.isWordChar.1
    obtain ⟨cs, hcs, hchead⟩ := hidentifier.exists_head?_eq fun w hw => hw.ne_nil
    exact hcs.not_isNumeral hds (hchead.trans hdhead.symm)

/-! ## The kind of a word -/

section Kinds

variable {text : String}

theorem wordKind_eq_symbol_iff : wordKind text = .symbol ↔ isSymbolText text := by
  rw [wordKind]
  split
  next hnumber =>
    have hnot : ¬ isSymbolText text := fun hsymbol =>
      not_number_and_symbol (isNumberText_iff.mp hnumber) (isSymbolText_iff.mp hsymbol)
    simp [hnot]
  next => split <;> simp [*]

theorem wordKind_eq_unhandled_iff :
    wordKind text = .unhandled ↔ ¬ isNumberText text ∧ ¬ isSymbolText text := by
  rw [wordKind]
  split
  · simp [*]
  · split <;> simp [*]

theorem wordKind_eq_symbolFirst (text : String) :
    wordKind text =
      if isSymbolText text then .symbol else if isNumberText text then .number else .unhandled := by
  split
  next hsymbol => exact wordKind_eq_symbol_iff.mpr hsymbol
  next hsymbol =>
    split
    next hnumber => exact wordKind_eq_number_iff_isNumberText.mpr hnumber
    next hnumber => exact wordKind_eq_unhandled_iff.mpr ⟨hnumber, hsymbol⟩

end Kinds

theorem Lexeme.newline_not_mem {t : Token} (h : Lexeme t) : '\n' ∉ t.text.toList := by
  intro hmem
  cases h with
  | delimiter hc =>
      rw [delimiterToken, String.toList_singleton, List.mem_singleton] at hmem
      subst hmem
      cases hc
  | @word w pos _ hw =>
      rw [wordToken_text, String.toList_ofList] at hmem
      exact absurd (hw _ hmem) (by decide)

theorem Lexeme.isSymbol {t : Token} (h : Lexeme t) (hk : t.kind = .symbol) :
    t.text ∈ operatorSigns ∨ IsIdentifier t.text.toList := by
  have hsymbol : t.text ∈ operatorSigns ∨ FeedAtWill IsIdentifier t.text := by
    rw [← isSymbolText_iff, ← wordKind_eq_symbol_iff]
    cases h with
    | delimiter hc => cases hc <;> cases hk
    | word _ _ => exact hk
  exact hsymbol.imp_right (feedAtWill_iff_of_not_mem h.newline_not_mem).mp

/-- **The kind of a word is that of its grammar.**  A text is a number exactly if
it is a numeral, and a symbol exactly if it is an operator sign or an identifier;
numerals and identifiers may have one line feed behind them.  No text is both, so
that the tests for the two may be made in either order, and any other text is
unhandled.  A token of a source text holds no line feed, so that there a number is
a numeral and a symbol is a sign or an identifier as it stands. -/
theorem wordKind_grammar (text : String) :
    (isNumberText text ↔ FeedAtWill IsNumeral text) ∧
    (wordKind text = .number ↔ FeedAtWill IsNumeral text) ∧
    (wordKind text = .symbol ↔ text ∈ operatorSigns ∨ FeedAtWill IsIdentifier text) ∧
    (wordKind text = .unhandled ↔
      ¬ FeedAtWill IsNumeral text ∧ ¬ (text ∈ operatorSigns ∨ FeedAtWill IsIdentifier text)) ∧
    ¬ (FeedAtWill IsNumeral text ∧ (text ∈ operatorSigns ∨ FeedAtWill IsIdentifier text)) ∧
    wordKind text =
      (if isSymbolText text then .symbol else if isNumberText text then .number else .unhandled) ∧
    (∀ source, ∀ t ∈ tokenize source, '\n' ∉ t.text.toList ∧
      (t.kind = .number → IsNumeral t.text.toList) ∧
      (t.kind = .symbol → t.text ∈ operatorSigns ∨ IsIdentifier t.text.toList)) := by
  refine ⟨isNumberText_iff, ?_, ?_, ?_, fun h => not_number_and_symbol h.1 h.2,
    wordKind_eq_symbolFirst text, ?_⟩
  · rw [wordKind_eq_number_iff_isNumberText, isNumberText_iff]
  · rw [wordKind_eq_symbol_iff, isSymbolText_iff]
  · rw [wordKind_eq_unhandled_iff, isNumberText_iff, isSymbolText_iff]
  · intro source t ht
    have hlexeme := lexeme_of_mem_tokenize ht
    exact ⟨hlexeme.newline_not_mem, hlexeme.isNumeral, hlexeme.isSymbol⟩

/-- A number text may end in a line feed; as a word of a source text it does not. -/
theorem wordKind_grammar_feed :
    wordKind "-.5e3\n" = .number ∧ FeedAtWill IsNumeral "-.5e3\n" ∧
    ⟨.number, "-.5e3", 1, 6⟩ ∈ tokenize "(-.5e3\n)" ∧ IsNumeral "-.5e3".toList := by
  have hkind : wordKind "-.5e3\n" = .number := by decide
  have hmem : ⟨.number, "-.5e3", 1, 6⟩ ∈ tokenize "(-.5e3\n)" := by decide
  obtain ⟨-, hnumber, -, -, -, -, htokens⟩ := wordKind_grammar "-.5e3\n"
  exact ⟨hkind, hnumber.mp hkind, hmem, (htokens _ _ hmem).2.1 rfl⟩

end CallLang

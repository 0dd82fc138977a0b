/-
# `CallLang.Proofs.RoundTrip` — the expressions that source texts stand for

Not every expression is read from some text: there are unary calls of `+`,
number texts such as `0x`, strings with a quote in them.  `Expr.IsProgram` says
which expressions are left, and `parseSource_image` that those are exactly the
ones that the reader of source texts answers with.

    →   What is read was derived from tokens, and each token is a paren, a
        quote or a word of the text.  So a number carries a numeral, and a
        string carries parens and words.
    ←   A program is written down (`Expr.written`) and read back.  The text
        holds no semicolon, hence no comment, and a text without comments may
        be cut wherever a word does not go on (`scan_append_of_edge`).  Cut
        there, each part reads as the phrase of the grammar that it spells.
-/
import CallLang.Proofs.Grammar
import CallLang.Proofs.Numerals
import CallLang.Proofs.Pieces
import CallLang.Proofs.Tree

namespace CallLang

/-! ## Programs -/

/-- A part of a string that no blank divides: a paren, or the characters of a
word. -/
inductive IsStringPart : List Char → Prop
  | openParen : IsStringPart ['(']
  | closeParen : IsStringPart [')']
  | word {w : List Char} : w ≠ [] → (∀ c ∈ w, IsWordChar c) → IsStringPart w

namespace Expr

mutual

/-- `IsProgram e`: the expression `e` is a call that can be written down. -/
inductive IsProgram : Expr → Prop
  | conditional {params : List Expr} :
      (∀ p ∈ params, IsParam p) → IsProgram (.conditional params)
  | predicate {name : Comparison} {params : List Expr} :
      (∀ p ∈ params, IsParam p) → IsProgram (.predicate name params)
  | binary {name : Arithmetic} {params : List Expr} :
      (∀ p ∈ params, IsParam p) → IsProgram (.binary name params)
  | print {param : Option Expr} :
      (∀ p ∈ param, IsParam p) → IsProgram (.unary .print param)

/-- The expression can be written down as a parameter. -/
inductive IsParam : Expr → Prop
  | number {text : String} : IsNumeral text.toList → IsParam (.number text)
  | string {ws : List (List Char)} :
      (∀ w ∈ ws, IsStringPart w) → IsParam (.string (" ".intercalate (ws.map String.ofList)))
  | call {e : Expr} : IsProgram e → IsParam e

end

/-! ## Their written form -/

/-- The written form of a call whose parameters are written as `params`. -/
def callText (op : Operator) (params : List Char) : List Char :=
  '(' :: (op.text.toList ++ (params ++ [')']))

mutual

/-- The written form of an expression; a `foreign` node has none. -/
def written : Expr → List Char
  | .number text => text.toList
  | .string text => '"' :: (text.toList ++ ['"'])
  | .conditional params => callText .conditional (writtenAll params)
  | .predicate name params => callText (.named (.comparison name)) (writtenAll params)
  | .binary name params => callText (.named (.arithmetic name)) (writtenAll params)
  | .unary name none => callText (.named name) []
  | .unary name (some param) => callText (.named name) (' ' :: param.written)
  | .foreign _ => []

/-- The written form of parameters, a space in front of each. -/
def writtenAll : List Expr → List Char
  | [] => []
  | p :: ps => ' ' :: (p.written ++ writtenAll ps)

end

end Expr

/-! ## The kind of a word, and the characters of a numeral -/

theorem isWordChar_of_isDigit {c : Char} (h : isDigit c) : IsWordChar c := by
  rcases char_cases c with hblank | ⟨kind, hdelim⟩ | rfl | hword
  · simp only [isBlank, Bool.or_eq_true, decide_eq_true_eq] at hblank
    rcases hblank with ((((rfl | rfl) | rfl) | rfl) | rfl) | rfl <;> exact absurd h (by decide)
  · cases hdelim <;> exact absurd h (by decide)
  · exact absurd h (by decide)
  · exact hword

theorem IsDigits.isWordChar {ds : List Char} (h : IsDigits ds) : ∀ c ∈ ds, IsWordChar c :=
  fun c hc => isWordChar_of_isDigit (h.2 c hc)

theorem IsMantissa.isWordChar {cs : List Char} (h : IsMantissa cs) :
    cs ≠ [] ∧ ∀ c ∈ cs, IsWordChar c := by
  have hpoint : IsWordChar '.' := by decide
  cases h with
  | whole hds => exact ⟨hds.1, hds.isWordChar⟩
  | wholePoint hds hfs =>
      have hright := List.forall_mem_cons.mpr ⟨hpoint, fun c hc => isWordChar_of_isDigit (hfs c hc)⟩
      exact ⟨by simp, List.forall_mem_append.mpr ⟨hds.isWordChar, hright⟩⟩
  | point hfs => exact ⟨by simp, List.forall_mem_cons.mpr ⟨hpoint, hfs.isWordChar⟩⟩

theorem IsExponent.isWordChar {cs : List Char} (h : IsExponent cs) : ∀ c ∈ cs, IsWordChar c := by
  cases h with
  | none => exact List.forall_mem_nil _
  | @marked mark sign ds hmark hsign hds =>
      have hm : IsWordChar mark := by rcases hmark with rfl | rfl <;> decide
      have hs : ∀ c ∈ sign, IsWordChar c := by
        rcases hsign with rfl | rfl | rfl
        · exact List.forall_mem_nil _
        · exact List.forall_mem_singleton.mpr (by decide)
        · exact List.forall_mem_singleton.mpr (by decide)
      exact List.forall_mem_cons.mpr ⟨hm, List.forall_mem_append.mpr ⟨hs, hds.isWordChar⟩⟩

theorem IsNumeral.isWordChar {cs : List Char} (h : IsNumeral cs) :
    cs ≠ [] ∧ ∀ c ∈ cs, IsWordChar c := by
  cases h with
  | @parts sign mantissa exponent hsign hmantissa hexponent =>
      obtain ⟨hne, hm⟩ := hmantissa.isWordChar
      have hs : ∀ c ∈ sign, IsWordChar c := by
        rcases hsign with rfl | rfl
        · exact List.forall_mem_nil _
        · exact List.forall_mem_singleton.mpr (by decide)
      refine ⟨by simp [hne], List.forall_mem_append.mpr ⟨hs, ?_⟩⟩
      exact List.forall_mem_append.mpr ⟨hm, hexponent.isWordChar⟩

theorem dropFinalNewline_of_isWordChar {w : List Char} (h : ∀ c ∈ w, IsWordChar c) :
    dropFinalNewline w = w := by
  refine dropFinalNewline_of_not_mem ?_
  intro hmem
  exact absurd (h _ hmem) (by decide)

theorem wordKind_eq_number_iff_isNumberText {text : String} :
    wordKind text = .number ↔ isNumberText text := by
  rw [wordKind]
  split
  · simp [*]
  · split <;> simp [*]

/-- A word is a number exactly when it is a numeral: no line end can stand
behind a word. -/
theorem wordKind_eq_number_iff {w : List Char} (h : ∀ c ∈ w, IsWordChar c) :
    wordKind (String.ofList w) = .number ↔ IsNumeral w := by
  rw [wordKind_eq_number_iff_isNumberText, isNumberText, Numeral.ofText?, String.toList_ofList,
    dropFinalNewline_of_isWordChar h]
  exact Numeral.read?_isSome_iff

theorem wordKind_ne_quote (text : String) : wordKind text ≠ .quote :=
  wordKind_ne_of_delimits .singleQuote text

@[simp] theorem wordToken_kind (pos : Nat) (w : List Char) :
    (wordToken pos w).kind = wordKind (String.ofList w) := by
  simp only [wordToken]

@[simp] theorem wordToken_text (pos : Nat) (w : List Char) :
    (wordToken pos w).text = String.ofList w := by
  simp only [wordToken]

theorem Operator.text_spec (op : Operator) :
    op.text.toList ≠ [] ∧ (∀ c ∈ op.text.toList, IsWordChar c) ∧ wordKind op.text = .symbol := by
  have key : ∀ op ∈ all, op.text.toList ≠ [] ∧ op.text.toList.all (decide <| IsWordChar ·) ∧
      wordKind op.text = .symbol := by decide
  obtain ⟨hne, hw, hkind⟩ := key op (mem_all op)
  exact ⟨hne, by simpa using hw, hkind⟩

/-! ## What is read is a program -/

section Read

variable {t : Token}

theorem Lexeme.isNumeral (h : Lexeme t) (hk : t.kind = .number) : IsNumeral t.text.toList := by
  cases h with
  | delimiter hc => cases hc <;> cases hk
  | @word w pos hne hw =>
      rw [wordToken_kind] at hk
      simpa using (wordKind_eq_number_iff hw).mp hk

theorem Lexeme.isStringPart (h : Lexeme t) (hk : t.kind ≠ .quote) :
    IsStringPart t.text.toList := by
  cases h with
  | delimiter hc =>
      cases hc with
      | openParen => simpa [delimiterToken] using IsStringPart.openParen
      | closeParen => simpa [delimiterToken] using IsStringPart.closeParen
      | singleQuote | doubleQuote => exact absurd rfl hk
  | @word w pos hne hw => simpa using IsStringPart.word hne hw

end Read

theorem Expr.isProgram_call {op : Operator} {params : List Expr}
    (h : ∀ p ∈ params, Expr.IsParam p) : (Expr.call op params).IsProgram := by
  match op with
  | .conditional => exact .conditional h
  | .named (.comparison _) => exact .predicate h
  | .named (.arithmetic _) => exact .binary h
  | .named .print => exact .print fun p hp => h p (List.mem_of_mem_head? hp)

mutual

theorem Derives.isProgram : ∀ {ts : List Token} {e : Expr}, Derives ts e →
    (∀ t ∈ ts, Lexeme t) → e.IsProgram
  | _, _, .call _ _ _ hps hnode _, hts => by
      obtain rfl := Operator.names_iff.mp hnode
      refine Expr.isProgram_call (hps.isParam fun t ht => hts t ?_)
      simp [ht]

theorem DerivesParam.isParam : ∀ {ts : List Token} {e : Expr}, DerivesParam ts e →
    (∀ t ∈ ts, Lexeme t) → e.IsParam
  | _, _, .number hk, hts => .number ((hts _ List.mem_cons_self).isNumeral hk)
  | _, _, @DerivesParam.string _ _ ws _ hws _, hts => by
      have hparts : ∀ w ∈ ws.map (·.text.toList), IsStringPart w := by
        intro w hw
        obtain ⟨t, ht, rfl⟩ := List.mem_map.mp hw
        exact (hts t (by simp [ht])).isStringPart (hws t ht)
      have htexts : (ws.map (·.text.toList)).map String.ofList = ws.map (·.text) := by simp
      exact htexts ▸ Expr.IsParam.string hparts
  | _, _, .call h, hts => .call (h.isProgram hts)

theorem DerivesParams.isParam : ∀ {ts : List Token} {es : List Expr}, DerivesParams ts es →
    (∀ t ∈ ts, Lexeme t) → ∀ p ∈ es, p.IsParam
  | _, _, .nil, _ => List.forall_mem_nil _
  | _, _, .cons h hs, hts => by
      obtain ⟨hleft, hright⟩ := List.forall_mem_append.mp hts
      exact List.forall_mem_cons.mpr ⟨h.isParam hleft, hs.isParam hright⟩

end

theorem isProgram_of_parseSource {source : String} {e : Expr} (h : parseSource source = .ok e) :
    e.IsProgram := by
  obtain ⟨n, hcall⟩ := derives_of_parseSource h
  refine hcall.isProgram ?_
  exact fun t ht => lexeme_of_mem_tokenize (List.mem_of_mem_take ht)

/-! ## Strings hold no quotes -/

theorem forall_mem_intercalate {α : Type} {p : α → Prop} {sep : List α} {xss : List (List α)}
    (hsep : ∀ x ∈ sep, p x) (h : ∀ xs ∈ xss, ∀ x ∈ xs, p x) :
    ∀ x ∈ sep.intercalate xss, p x := by
  induction xss with
  | nil => exact List.forall_mem_nil _
  | cons xs xss ih =>
      obtain ⟨hxs, hxss⟩ := List.forall_mem_cons.mp h
      cases xss with
      | nil => rwa [List.intercalate_singleton]
      | cons ys yss =>
          rw [List.intercalate_cons_cons]
          exact List.forall_mem_append.mpr ⟨List.forall_mem_append.mpr ⟨hxs, hsep⟩, ih hxss⟩

theorem toList_intercalate_ofList (ws : List (List Char)) :
    (" ".intercalate (ws.map String.ofList)).toList = [' '].intercalate ws := by
  have hwords : (ws.map String.ofList).map String.toList = ws := by simp
  rw [String.toList_intercalate, hwords]
  rfl

theorem IsStringPart.ne_of_mem {w : List Char} (h : IsStringPart w) :
    ∀ c ∈ w, c ≠ ';' ∧ ¬ Delimits c .quote := by
  cases h with
  | openParen | closeParen =>
      intro c hc
      obtain rfl := List.mem_singleton.mp hc
      exact ⟨by decide, fun hquote => nomatch hquote⟩
  | word _ hw =>
      intro c hc
      exact ⟨(hw c hc).2.2, (hw c hc).2.1 .quote⟩

theorem ne_of_mem_words {ws : List (List Char)} (h : ∀ w ∈ ws, IsStringPart w) :
    ∀ c ∈ [' '].intercalate ws, c ≠ ';' ∧ ¬ Delimits c .quote := by
  refine forall_mem_intercalate ?_ fun w hw => (h w hw).ne_of_mem
  intro c hc
  obtain rfl := List.mem_singleton.mp hc
  exact ⟨by decide, fun hquote => nomatch hquote⟩

namespace Expr

theorem IsParam.child {e p : Expr} (he : e.IsParam) (hp : p ∈ e.children) : p.IsParam := by
  cases he with
  | number _ | string _ => exact absurd hp List.not_mem_nil
  | call h =>
      cases h with
      | conditional hps | predicate hps | binary hps => exact hps p hp
      | print hps => exact hps p (Option.mem_toList.mp hp)

theorem IsParam.of_within {d e : Expr} (he : e.IsParam) (h : d.Within e) : d.IsParam := by
  induction h with
  | self => exact he
  | child hp _ ih => exact ih (he.child hp)

theorem IsParam.quote_not_mem {text : String} (h : (Expr.string text).IsParam) :
    '"' ∉ text.toList ∧ '\'' ∉ text.toList := by
  cases h with
  | @string ws hws =>
      rw [toList_intercalate_ofList]
      exact ⟨fun hmem => (ne_of_mem_words hws _ hmem).2 .doubleQuote,
        fun hmem => (ne_of_mem_words hws _ hmem).2 .singleQuote⟩
  | call h => cases h

end Expr

/-! ## Cutting a text -/

/-- A text without comments may be cut wherever no word goes on. -/
theorem scan_append_of_edge {cs rest : List Char} (hcs : ';' ∉ cs)
    (hrest : ∀ c ∈ rest.head?, ¬ IsWordChar c) (pos : Nat) :
    scan .between pos (cs ++ rest)
      = scan .between pos cs ++ scan .between (pos + cs.length) rest := by
  induction cs using pieces_induction generalizing pos with
  | nil => rfl
  | blank c cs hc ih =>
      have htail := ih (fun hmem => hcs (List.mem_cons_of_mem _ hmem)) (pos + 1)
      rw [List.cons_append, scan_blank hc, scan_blank hc, htail, List.length_cons, Nat.add_assoc,
        Nat.add_comm 1]
  | delimiter c kind cs hc ih =>
      have htail := ih (fun hmem => hcs (List.mem_cons_of_mem _ hmem)) (pos + 1)
      rw [List.cons_append, scan_delimiter hc, scan_delimiter hc, htail, List.length_cons,
        Nat.add_assoc, Nat.add_comm 1, List.cons_append]
  | comment body cs _ _ _ => exact absurd List.mem_cons_self hcs
  | word w cs hne hw hend ih =>
      have htail := ih (fun hmem => hcs (List.mem_append_right _ hmem)) (pos + w.length)
      have hends : ∀ c ∈ (cs ++ rest).head?, ¬ IsWordChar c := by
        cases cs with
        | nil => exact hrest
        | cons d cs => exact hend
      rw [List.append_assoc, scan_word hne hw hends, scan_word hne hw hend, htail,
        List.length_append, Nat.add_assoc, List.cons_append]

theorem edge_of_delimits {c : Char} {kind : TokenKind} (h : Delimits c kind) (cs : List Char) :
    ∀ d ∈ (c :: cs).head?, ¬ IsWordChar d := by
  intro d hd
  obtain rfl := Option.some.inj hd
  exact not_isWordChar_of_delimits h

/-! ## What is written is read -/

theorem scan_lastWord {w : List Char} (hne : w ≠ []) (hw : ∀ c ∈ w, IsWordChar c) (pos : Nat) :
    scan .between pos w = [wordToken pos w] := by
  have hnone : ∀ c ∈ ([] : List Char).head?, ¬ IsWordChar c := fun _ hc => nomatch hc
  have hscan := scan_word hne hw hnone pos
  rwa [List.append_nil] at hscan

theorem scan_stringPart {w : List Char} (h : IsStringPart w) (pos : Nat) :
    ∃ t, scan .between pos w = [t] ∧ t.text = String.ofList w ∧ t.kind ≠ .quote := by
  cases h with
  | openParen => exact ⟨_, scan_delimiter .openParen pos [], rfl, by simp [delimiterToken]⟩
  | closeParen => exact ⟨_, scan_delimiter .closeParen pos [], rfl, by simp [delimiterToken]⟩
  | word hne hw => exact ⟨_, scan_lastWord hne hw pos, rfl, wordKind_ne_quote _⟩

theorem scan_words {ws : List (List Char)} (h : ∀ w ∈ ws, IsStringPart w) (pos : Nat) :
    (scan .between pos ([' '].intercalate ws)).map (·.text) = ws.map String.ofList ∧
    ∀ t ∈ scan .between pos ([' '].intercalate ws), t.kind ≠ .quote := by
  induction ws generalizing pos with
  | nil => exact ⟨rfl, List.forall_mem_nil _⟩
  | cons w ws ih =>
      obtain ⟨hw, hws⟩ := List.forall_mem_cons.mp h
      obtain ⟨t, hscan, htext, hkind⟩ := scan_stringPart hw pos
      cases ws with
      | nil =>
          rw [List.intercalate_singleton, hscan]
          exact ⟨by simp [htext], by simpa using hkind⟩
      | cons v ws =>
          have hsemi : ';' ∉ w := fun hmem => (hw.ne_of_mem _ hmem).1 rfl
          have hedge : ∀ c ∈ (' ' :: [' '].intercalate (v :: ws)).head?, ¬ IsWordChar c := by
            intro c hc
            obtain rfl := Option.some.inj hc
            decide
          rw [List.intercalate_cons_cons, List.append_assoc, List.singleton_append,
            scan_append_of_edge hsemi hedge, scan_blank (by decide), hscan]
          obtain ⟨htexts, hkinds⟩ := ih hws (pos + w.length + 1)
          exact ⟨by simp [htext, htexts], List.forall_mem_cons.mpr ⟨hkind, hkinds⟩⟩

/-- `Spells cs p`: the text `cs` holds no comment and reads as the parameter
`p`, wherever it stands. -/
structure Spells (cs : List Char) (p : Expr) : Prop where
  noComment : ';' ∉ cs
  derives : ∀ pos, DerivesParam (scan .between pos cs) p

/-- The same of parameters, one after another, that a word may stand before. -/
structure SpellsAll (cs : List Char) (ps : List Expr) : Prop where
  noComment : ';' ∉ cs
  edge : ∀ c ∈ cs.head?, ¬ IsWordChar c
  derives : ∀ pos, DerivesParams (scan .between pos cs) ps

theorem Spells.number {text : String} (h : IsNumeral text.toList) :
    Spells text.toList (.number text) := by
  obtain ⟨hne, hw⟩ := h.isWordChar
  refine ⟨fun hmem => (hw _ hmem).2.2 rfl, fun pos => ?_⟩
  have hkind : (wordToken pos text.toList).kind = .number := by
    rw [wordToken_kind]
    exact (wordKind_eq_number_iff hw).mpr h
  rw [scan_lastWord hne hw]
  simpa using DerivesParam.number hkind

theorem Spells.string {ws : List (List Char)} (h : ∀ w ∈ ws, IsStringPart w) :
    Spells ('"' :: ([' '].intercalate ws ++ ['"']))
      (.string (" ".intercalate (ws.map String.ofList))) := by
  have hsemi : ';' ∉ [' '].intercalate ws := fun hmem => (ne_of_mem_words h _ hmem).1 rfl
  refine ⟨by simp [hsemi], fun pos => ?_⟩
  obtain ⟨htexts, hkinds⟩ := scan_words h (pos + 1)
  rw [scan_delimiter .doubleQuote, scan_append_of_edge hsemi (edge_of_delimits .doubleQuote []),
    scan_delimiter .doubleQuote, ← htexts]
  exact .string rfl hkinds rfl

theorem SpellsAll.nil : SpellsAll [] [] :=
  ⟨List.not_mem_nil, fun _ hc => (nomatch hc), fun _ => .nil⟩

theorem SpellsAll.cons {cs ds : List Char} {p : Expr} {ps : List Expr} (h : Spells cs p)
    (hs : SpellsAll ds ps) : SpellsAll (' ' :: (cs ++ ds)) (p :: ps) := by
  refine ⟨by simp [h.noComment, hs.noComment], ?_, fun pos => ?_⟩
  · intro c hc
    obtain rfl := Option.some.inj hc
    decide
  · rw [scan_blank (by decide), scan_append_of_edge h.noComment hs.edge]
    exact .cons (h.derives _) (hs.derives _)

/-- A call is read as written, behind its operator the parameters and then the
paren. -/
theorem derives_callText (op : Operator) {cs : List Char} {ps : List Expr} (h : SpellsAll cs ps)
    (pos : Nat) : Derives (scan .between pos (Expr.callText op cs)) (.call op ps) := by
  obtain ⟨hne, hw, hkind⟩ := op.text_spec
  have hedge : ∀ c ∈ (cs ++ [')']).head?, ¬ IsWordChar c := by
    cases cs with
    | nil => exact edge_of_delimits .closeParen []
    | cons c cs => exact h.edge
  rw [Expr.callText, scan_delimiter .openParen, scan_word hne hw hedge,
    scan_append_of_edge h.noComment (edge_of_delimits .closeParen []), scan_delimiter .closeParen]
  have hsymbol : (wordToken (pos + 1) op.text.toList).kind = .symbol := by
    rw [wordToken_kind, String.ofList_toList, hkind]
  have htext : op.text = (wordToken (pos + 1) op.text.toList).text := by simp
  exact .call rfl hsymbol htext (h.derives _) (op.names_call ps) rfl

theorem Spells.call (op : Operator) {cs : List Char} {ps : List Expr} (h : SpellsAll cs ps) :
    Spells (Expr.callText op cs) (.call op ps) := by
  have hop : ';' ∉ op.text.toList := fun hmem => (op.text_spec.2.1 _ hmem).2.2 rfl
  exact ⟨by simp [Expr.callText, hop, h.noComment], fun pos => .call (derives_callText op h pos)⟩

namespace Expr

theorem written_unary (name : OperatorName) (param : Option Expr) :
    (unary name param).written = callText (.named name) (writtenAll param.toList) := by
  cases param with
  | none => rfl
  | some p => simp [written, writtenAll]

theorem spellsAll_written {ps : List Expr} (h : ∀ p ∈ ps, Spells p.written p) :
    SpellsAll (writtenAll ps) ps := by
  induction ps with
  | nil => exact .nil
  | cons p ps ih =>
      obtain ⟨hp, hps⟩ := List.forall_mem_cons.mp h
      exact .cons hp (ih hps)

/-- A parameter is read as written. -/
theorem IsParam.spells {e : Expr} (h : e.IsParam) : Spells e.written e := by
  induction e using tree_induction with
  | number text =>
      cases h with
      | number hnum => exact .number hnum
      | call h => cases h
  | string text =>
      cases h with
      | @string ws hws =>
          rw [written, toList_intercalate_ofList]
          exact .string hws
      | call h => cases h
  | conditional params ih =>
      exact .call .conditional (spellsAll_written fun p hp => ih p hp (h.child hp))
  | predicate name params ih =>
      exact .call (.named (.comparison name))
        (spellsAll_written fun p hp => ih p hp (h.child hp))
  | binary name params ih =>
      exact .call (.named (.arithmetic name))
        (spellsAll_written fun p hp => ih p hp (h.child hp))
  | unary name param ih =>
      cases h with
      | call h =>
          cases h with
          | print hps =>
              have hall := spellsAll_written fun p hp =>
                ih p (Option.mem_toList.mp hp) (hps p (Option.mem_toList.mp hp))
              have hspells := Spells.call (.named .print) hall
              rw [written_unary]
              simpa [Expr.call] using hspells
  | foreign typeName =>
      cases h with
      | call h => cases h

/-- A parameter that is a program is derived as a call. -/
theorem IsProgram.derives_of_param {ts : List Token} {e : Expr} (h : e.IsProgram)
    (hparam : DerivesParam ts e) : Derives ts e := by
  cases hparam with
  | number _ | string _ _ _ => cases h
  | call hcall => exact hcall

theorem IsProgram.derives {e : Expr} (h : e.IsProgram) :
    Derives (tokenize (String.ofList e.written)) e := by
  rw [tokenize, String.toList_ofList]
  exact h.derives_of_param ((IsParam.call h).spells.derives 0)

end Expr

/-- **The reader of source texts answers with programs, and with all of them.**
What it reads from a text is a program, and no string in it holds a quote.  A
program, written down, is read back as it was. -/
theorem parseSource_image (e : Expr) :
    (∀ source, parseSource source = .ok e → e.IsProgram ∧
      ∀ text, (Expr.string text).Within e → '"' ∉ text.toList ∧ '\'' ∉ text.toList) ∧
    (e.IsProgram → parseSource (String.ofList e.written) = .ok e) ∧
    ((∃ source, parseSource source = .ok e) ↔ e.IsProgram) := by
  have back : e.IsProgram → parseSource (String.ofList e.written) = .ok e := by
    intro h
    have hread := parseWithRest_append h.derives []
    rw [List.append_nil] at hread
    rw [parseSource, parse, hread]
    rfl
  refine ⟨?_, back, ?_, fun h => ⟨_, back h⟩⟩
  · intro source h
    have hprogram := isProgram_of_parseSource h
    exact ⟨hprogram, fun text hin => ((Expr.IsParam.call hprogram).of_within hin).quote_not_mem⟩
  · rintro ⟨source, h⟩
    exact isProgram_of_parseSource h

/-- The call `(print "a ( b")`. -/
def Expr.printsWords : Expr :=
  .unary .print (some (.string "a ( b"))

theorem parseSource_image_printsWords :
    Expr.printsWords.IsProgram ∧ parseSource "(print \"a ( b\")" = .ok Expr.printsWords := by
  have hparts : ∀ w ∈ [['a'], ['('], ['b']], IsStringPart w := by
    have hword : ∀ c, IsWordChar c → IsStringPart [c] := fun c hc =>
      .word (List.cons_ne_nil c []) (List.forall_mem_singleton.mpr hc)
    refine List.forall_mem_cons.mpr ⟨hword 'a' (by decide), ?_⟩
    refine List.forall_mem_cons.mpr ⟨.openParen, ?_⟩
    exact List.forall_mem_singleton.mpr (hword 'b' (by decide))
  have hprogram : Expr.printsWords.IsProgram := by
    refine .print fun p hp => ?_
    obtain rfl := Option.some.inj hp
    exact .string hparts
  have hread := (parseSource_image Expr.printsWords).2.1 hprogram
  have htext : String.ofList Expr.printsWords.written = "(print \"a ( b\")" := rfl
  rw [htext] at hread
  exact ⟨hprogram, hread⟩

end CallLang

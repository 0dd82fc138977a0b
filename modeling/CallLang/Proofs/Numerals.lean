/-
# `CallLang.Proofs.Numerals` — the grammar of number texts, and its reader

The grammar in the header of `CallLang.Numeral` is written down here as it
stands there, part by part, once for texts alone and once for texts together with
the numeral that they write.

| | |
| :-- | :-- |
| `isNumeral_iff_writesNumeral` | the two agree on what is a text |
| `read?_eq_some_iff` | the reader finds the numeral that is written, and no other |
| `read?_isSome_iff` | the reader accepts exactly the texts of the grammar |

The reader splits a text greedily, from left to right; that loses nothing, since no
part of the grammar can start with what the part before it may end in.
-/
import CallLang.Numeral

namespace CallLang

/-! ## The grammar -/

/-- One or more digits. -/
def IsDigits (ds : List Char) : Prop :=
  ds ≠ [] ∧ ∀ c ∈ ds, isDigit c

/-- The digits of a numeral, with a point in or around them at will. -/
inductive IsMantissa : List Char → Prop
  | whole {ds : List Char} : IsDigits ds → IsMantissa ds
  | wholePoint {ds fs : List Char} :
      IsDigits ds → (∀ c ∈ fs, isDigit c) → IsMantissa (ds ++ '.' :: fs)
  | point {fs : List Char} : IsDigits fs → IsMantissa ('.' :: fs)

/-- The exponent of a numeral, or nothing. -/
inductive IsExponent : List Char → Prop
  | none : IsExponent []
  | marked {mark : Char} {sign ds : List Char} :
      mark = 'e' ∨ mark = 'E' → sign = [] ∨ sign = ['+'] ∨ sign = ['-'] → IsDigits ds →
      IsExponent (mark :: (sign ++ ds))

/-- A numeral: a minus sign at will, digits, an exponent at will. -/
inductive IsNumeral : List Char → Prop
  | parts {sign mantissa exponent : List Char} :
      sign = [] ∨ sign = ['-'] → IsMantissa mantissa → IsExponent exponent →
      IsNumeral (sign ++ (mantissa ++ exponent))

/-! ## The final line feed -/

theorem dropFinalNewline_of_not_mem {cs : List Char} (h : '\n' ∉ cs) : dropFinalNewline cs = cs :=
  if_neg fun hlast => h (List.mem_of_getLast? hlast)

theorem dropFinalNewline_append {cs feed : List Char} (hcs : '\n' ∉ cs)
    (hfeed : feed = [] ∨ feed = ['\n']) : dropFinalNewline (cs ++ feed) = cs := by
  rcases hfeed with rfl | rfl
  · rw [List.append_nil, dropFinalNewline_of_not_mem hcs]
  · rw [dropFinalNewline, if_pos List.getLast?_concat, List.dropLast_concat]

theorem exists_feed (cs : List Char) :
    ∃ feed, (feed = [] ∨ feed = ['\n']) ∧ cs = dropFinalNewline cs ++ feed := by
  unfold dropFinalNewline
  split
  next hlast =>
    obtain ⟨body, rfl⟩ := List.getLast?_eq_some_iff.mp hlast
    exact ⟨['\n'], Or.inr rfl, by rw [List.dropLast_concat]⟩
  next => exact ⟨[], Or.inl rfl, (List.append_nil cs).symm⟩

/-! ## Rows of digits in front of something else -/

section Digits

variable {ds rest : List Char}

theorem takeWhile_digits (hds : ∀ c ∈ ds, isDigit c) (hrest : ∀ c ∈ rest.head?, ¬ isDigit c) :
    (ds ++ rest).takeWhile isDigit = ds := by
  have hstop : rest.takeWhile isDigit = [] := by
    cases rest with
    | nil => rfl
    | cons c rest => exact List.takeWhile_cons_of_neg (hrest c rfl)
  rw [List.takeWhile_append_of_pos hds, hstop, List.append_nil]

theorem dropWhile_digits (hds : ∀ c ∈ ds, isDigit c) (hrest : ∀ c ∈ rest.head?, ¬ isDigit c) :
    (ds ++ rest).dropWhile isDigit = rest := by
  rw [List.dropWhile_append_of_pos hds]
  cases rest with
  | nil => rfl
  | cons c rest => exact List.dropWhile_cons_of_neg (hrest c rfl)

theorem forall_mem_takeWhile_digits (cs : List Char) : ∀ c ∈ cs.takeWhile isDigit, isDigit c :=
  List.all_eq_true.mp List.all_takeWhile

theorem IsDigits.head_eq (h : IsDigits ds) : ∃ c ∈ ds.head?, isDigit c := by
  cases ds with
  | nil => exact absurd rfl h.1
  | cons c ds => exact ⟨c, rfl, h.2 c List.mem_cons_self⟩

theorem IsExponent.head_ne (h : IsExponent rest) : ∀ c ∈ rest.head?, ¬ isDigit c ∧ c ≠ '.' := by
  cases h with
  | none => exact fun _ hc => nomatch hc
  | @marked mark sign ds hmark _ _ =>
      intro c hc
      obtain rfl : mark = c := Option.some.inj hc
      rcases hmark with rfl | rfl <;> decide

theorem IsMantissa.head_ne {exponent : List Char} (h : IsMantissa ds) :
    ∀ c ∈ (ds ++ exponent).head?, c ≠ '-' := by
  have key : ∀ {fs tail : List Char}, IsDigits fs → ∀ c ∈ (fs ++ tail).head?, c ≠ '-' := by
    intro fs tail hfs c hc
    cases fs with
    | nil => exact absurd rfl hfs.1
    | cons d fs =>
        obtain rfl : d = c := Option.some.inj hc
        rintro rfl
        exact absurd (hfs.2 '-' List.mem_cons_self) (by decide)
  cases h with
  | whole hds => exact key hds
  | wholePoint hds _ =>
      rw [List.append_assoc]
      exact key hds
  | point _ =>
      intro c hc
      obtain rfl : '.' = c := Option.some.inj hc
      decide

end Digits

/-! ## Numerals by their parts -/

/-- `WritesSign sign negative`: a sign that may be a plus, or may be missing. -/
inductive WritesSign : List Char → Bool → Prop
  | none : WritesSign [] false
  | plus : WritesSign ['+'] false
  | minus : WritesSign ['-'] true

/-- `WritesFraction fs fraction`: a point and the digits behind it, or nothing. -/
inductive WritesFraction : List Char → Option (List Char) → Prop
  | none : WritesFraction [] none
  | point {ds : List Char} : (∀ c ∈ ds, isDigit c) → WritesFraction ('.' :: ds) (some ds)

/-- `WritesExponent es exponent`: a mark, a sign and digits, or nothing. -/
inductive WritesExponent : List Char → Option ExponentPart → Prop
  | none : WritesExponent [] none
  | marked {mark : Char} {negative : Bool} {sign ds : List Char} :
      mark = 'e' ∨ mark = 'E' → WritesSign sign negative → IsDigits ds →
      WritesExponent (mark :: (sign ++ ds)) (some ⟨negative, ds⟩)

/-- `WritesNumeral cs n`: the characters are the parts of the numeral `n`, one behind
the other. -/
inductive WritesNumeral : List Char → Numeral → Prop
  | parts {negative : Bool} {whole fs es : List Char} {fraction : Option (List Char)}
      {exponent : Option ExponentPart} :
      (∀ c ∈ whole, isDigit c) → WritesFraction fs fraction → whole ++ fraction.getD [] ≠ [] →
      WritesExponent es exponent →
      WritesNumeral (withSign negative (whole ++ (fs ++ es))) ⟨negative, whole, fraction, exponent⟩

section Parts

variable {cs fs es ds : List Char} {fraction : Option (List Char)}
  {exponent : Option ExponentPart}

theorem exists_writesSign_iff :
    (∃ negative, WritesSign cs negative) ↔ cs = [] ∨ cs = ['+'] ∨ cs = ['-'] := by
  constructor
  · rintro ⟨_, h⟩
    cases h with
    | none => exact Or.inl rfl
    | plus => exact Or.inr (Or.inl rfl)
    | minus => exact Or.inr (Or.inr rfl)
  · rintro (rfl | rfl | rfl)
    · exact ⟨_, .none⟩
    · exact ⟨_, .plus⟩
    · exact ⟨_, .minus⟩

theorem exists_writesExponent_iff : (∃ exponent, WritesExponent es exponent) ↔ IsExponent es := by
  constructor
  · rintro ⟨_, h⟩
    cases h with
    | none => exact .none
    | marked hmark hsign hds => exact .marked hmark (exists_writesSign_iff.mp ⟨_, hsign⟩) hds
  · intro h
    cases h with
    | none => exact ⟨_, .none⟩
    | marked hmark hsign hds =>
        obtain ⟨_, hsign⟩ := exists_writesSign_iff.mpr hsign
        exact ⟨_, .marked hmark hsign hds⟩

theorem isMantissa_append (hds : ∀ c ∈ ds, isDigit c) (hfs : WritesFraction fs fraction)
    (hne : ds ++ fraction.getD [] ≠ []) : IsMantissa (ds ++ fs) := by
  cases hfs with
  | none =>
      rw [Option.getD_none, List.append_nil] at hne
      rw [List.append_nil]
      exact .whole ⟨hne, hds⟩
  | point hfraction =>
      by_cases hnil : ds = []
      · subst hnil
        exact .point ⟨hne, hfraction⟩
      · exact .wholePoint ⟨hnil, hds⟩ hfraction

/-- The texts of the grammar are those that write a numeral. -/
theorem isNumeral_iff_writesNumeral : IsNumeral cs ↔ ∃ n, WritesNumeral cs n := by
  constructor
  · intro h
    cases h with
    | @parts sign mantissa es hsign hmantissa hexponent =>
        obtain ⟨exponent, hexponent⟩ := exists_writesExponent_iff.mpr hexponent
        obtain ⟨negative, hsigned⟩ :
            ∃ negative, ∀ ds : List Char, sign ++ ds = withSign negative ds := by
          rcases hsign with rfl | rfl
          · exact ⟨false, fun _ => rfl⟩
          · exact ⟨true, fun _ => rfl⟩
        rw [hsigned]
        cases hmantissa with
        | whole hds =>
            exact ⟨_, .parts hds.2 .none (List.append_ne_nil_of_left_ne_nil hds.1 _) hexponent⟩
        | wholePoint hds hfs =>
            rw [List.append_assoc]
            exact ⟨_, .parts hds.2 (.point hfs) (List.append_ne_nil_of_left_ne_nil hds.1 _)
              hexponent⟩
        | point hfs =>
            exact ⟨_, .parts (List.forall_mem_nil _) (.point hfs.2) hfs.1 hexponent⟩
  · rintro ⟨_, @⟨negative, whole, fs, es, _, _, hwhole, hfraction, hne, hexponent⟩⟩
    have hmantissa := isMantissa_append hwhole hfraction hne
    rw [← List.append_assoc]
    cases negative with
    | false => exact .parts (Or.inl rfl) hmantissa (exists_writesExponent_iff.mp ⟨_, hexponent⟩)
    | true => exact .parts (Or.inr rfl) hmantissa (exists_writesExponent_iff.mp ⟨_, hexponent⟩)

end Parts

/-! ## The reader, part by part -/

namespace Numeral

section Reader

variable {negative : Bool} {cs fs es ds sign rest : List Char} {fraction : Option (List Char)}
  {exponent : Option ExponentPart} {part : ExponentPart} {n : Numeral}

theorem withSign_readSign (cs : List Char) : withSign (readSign cs).1 (readSign cs).2 = cs := by
  unfold readSign
  split <;> rfl

theorem readSign_withSign (h : ∀ c ∈ cs.head?, c ≠ '-') :
    readSign (withSign negative cs) = (negative, cs) := by
  cases negative with
  | true => rfl
  | false =>
      show readSign cs = (false, cs)
      unfold readSign
      split
      · exact absurd rfl (h '-' rfl)
      · rfl

theorem exists_readFraction (cs : List Char) :
    ∃ fs, WritesFraction fs (readFraction cs).1 ∧ fs ++ (readFraction cs).2 = cs := by
  unfold readFraction
  split
  next cs =>
    refine ⟨_, .point (forall_mem_takeWhile_digits cs), ?_⟩
    rw [List.cons_append, List.takeWhile_append_dropWhile]
  next => exact ⟨[], .none, rfl⟩

theorem readFraction_append (h : WritesFraction fs fraction)
    (hrest : ∀ c ∈ rest.head?, ¬ isDigit c ∧ c ≠ '.') :
    readFraction (fs ++ rest) = (fraction, rest) := by
  cases h with
  | none =>
      rw [List.nil_append]
      unfold readFraction
      split
      · exact absurd rfl (hrest '.' rfl).2
      · rfl
  | point hds =>
      have hstop : ∀ c ∈ rest.head?, ¬ isDigit c := fun c hc => (hrest c hc).1
      simp only [List.cons_append, readFraction, takeWhile_digits hds hstop,
        dropWhile_digits hds hstop]

theorem exists_readEitherSign (cs : List Char) :
    ∃ sign, WritesSign sign (readEitherSign cs).1 ∧ cs = sign ++ (readEitherSign cs).2 := by
  unfold readEitherSign
  split
  · exact ⟨_, .minus, rfl⟩
  · exact ⟨_, .plus, rfl⟩
  · exact ⟨_, .none, rfl⟩

theorem readEitherSign_append (h : WritesSign sign negative) (hds : IsDigits ds) :
    readEitherSign (sign ++ ds) = (negative, ds) := by
  cases h with
  | plus => rfl
  | minus => rfl
  | none =>
      obtain ⟨c, hc, hdigit⟩ := hds.head_eq
      rw [List.nil_append]
      unfold readEitherSign
      split
      · obtain rfl := Option.some.inj hc
        exact absurd hdigit (by decide)
      · obtain rfl := Option.some.inj hc
        exact absurd hdigit (by decide)
      · rfl

theorem readExponentPart?_eq_some_iff :
    readExponentPart? cs = some part ↔
      ∃ sign, WritesSign sign part.negative ∧ IsDigits part.digits ∧ cs = sign ++ part.digits := by
  have hread : readExponentPart? cs = some part ↔
      IsDigits (readEitherSign cs).2 ∧ ⟨(readEitherSign cs).1, (readEitherSign cs).2⟩ = part := by
    simp [readExponentPart?, IsDigits]
  rw [hread]
  constructor
  · rintro ⟨hds, rfl⟩
    obtain ⟨sign, hsign, hcs⟩ := exists_readEitherSign cs
    exact ⟨sign, hsign, hds, hcs⟩
  · rintro ⟨sign, hsign, hds, rfl⟩
    rw [readEitherSign_append hsign hds]
    exact ⟨hds, rfl⟩

theorem readExponent?_eq_some_iff :
    readExponent? es = some exponent ↔ WritesExponent es exponent := by
  constructor
  · intro h
    unfold readExponent? at h
    split at h
    · cases h
      exact .none
    · obtain ⟨part, hpart, rfl⟩ := Option.map_eq_some_iff.mp h
      obtain ⟨sign, hsign, hds, rfl⟩ := readExponentPart?_eq_some_iff.mp hpart
      exact .marked (Or.inl rfl) hsign hds
    · obtain ⟨part, hpart, rfl⟩ := Option.map_eq_some_iff.mp h
      obtain ⟨sign, hsign, hds, rfl⟩ := readExponentPart?_eq_some_iff.mp hpart
      exact .marked (Or.inr rfl) hsign hds
    · cases h
  · intro h
    cases h with
    | none => rfl
    | @marked mark negative sign ds hmark hsign hds =>
        have hpart : readExponentPart? (sign ++ ds) = some ⟨negative, ds⟩ :=
          readExponentPart?_eq_some_iff.mpr ⟨sign, hsign, hds, rfl⟩
        rcases hmark with rfl | rfl <;> simp only [readExponent?, hpart, Option.map_some]

/-! ## The reader finds what is written -/

theorem read?_eq_some_iff_parts :
    read? cs = some n ↔
      (readSign cs).1 = n.negative ∧ (readSign cs).2.takeWhile isDigit = n.whole ∧
        (readFraction ((readSign cs).2.dropWhile isDigit)).1 = n.fraction ∧
        n.whole ++ n.fraction.getD [] ≠ [] ∧
        readExponent? (readFraction ((readSign cs).2.dropWhile isDigit)).2 = some n.exponent := by
  obtain ⟨negative, whole, fraction, exponent⟩ := n
  simp only [read?]
  split
  next hempty =>
    refine iff_of_false (fun h => nomatch h) ?_
    rintro ⟨-, rfl, rfl, hne, -⟩
    exact hne (List.append_eq_nil_iff.mpr hempty)
  next hempty =>
    constructor
    · intro h
      obtain ⟨exponent, hexponent, heq⟩ := Option.bind_eq_some_iff.mp h
      cases heq
      exact ⟨rfl, rfl, rfl, mt List.append_eq_nil_iff.mp hempty, hexponent⟩
    · rintro ⟨rfl, rfl, rfl, -, hexponent⟩
      rw [hexponent]
      rfl

/-- The reader finds a numeral exactly in the texts that write it. -/
theorem read?_eq_some_iff : read? cs = some n ↔ WritesNumeral cs n := by
  rw [read?_eq_some_iff_parts]
  constructor
  · rintro ⟨hsign, hwhole, hfraction, hne, hexponent⟩
    have hdigits := forall_mem_takeWhile_digits (readSign cs).2
    obtain ⟨fs, hfs, hsplit⟩ := exists_readFraction ((readSign cs).2.dropWhile isDigit)
    rw [hwhole] at hdigits
    rw [hfraction] at hfs
    have hcs : cs = withSign n.negative (n.whole ++
        (fs ++ (readFraction ((readSign cs).2.dropWhile isDigit)).2)) := by
      rw [hsplit, ← hwhole, List.takeWhile_append_dropWhile, ← hsign, withSign_readSign]
    rw [hcs]
    exact .parts hdigits hfs hne (readExponent?_eq_some_iff.mp hexponent)
  · rintro @⟨negative, whole, fs, es, fraction, exponent, hwhole, hfraction, hne, hexponent⟩
    have hes := (exists_writesExponent_iff.mp ⟨_, hexponent⟩).head_ne
    have hstop : ∀ c ∈ (fs ++ es).head?, ¬ isDigit c := by
      cases hfraction with
      | none => exact fun c hc => (hes c hc).1
      | point _ =>
          intro c hc
          obtain rfl : '.' = c := Option.some.inj hc
          decide
    have hfront : ∀ c ∈ (whole ++ (fs ++ es)).head?, c ≠ '-' := by
      rw [← List.append_assoc]
      exact (isMantissa_append hwhole hfraction hne).head_ne
    rw [readSign_withSign hfront, takeWhile_digits hwhole hstop, dropWhile_digits hwhole hstop,
      readFraction_append hfraction hes]
    exact ⟨rfl, rfl, rfl, hne, readExponent?_eq_some_iff.mpr hexponent⟩

theorem read?_isSome_iff : (read? cs).isSome ↔ IsNumeral cs := by
  simp only [isNumeral_iff_writesNumeral, Option.isSome_iff_exists, read?_eq_some_iff]

end Reader

end Numeral

end CallLang

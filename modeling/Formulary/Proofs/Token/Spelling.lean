import Formulary.Proofs.Token.Lexeme
import Mathlib.Tactic.FinCases

/-!
# What is a lexeme

`Lexeme.IsLexeme` says which spellings make which lexemes, without a reader: numerals by their parts
(`Numeral.IsProper`), quoted texts by what may stand between the quotes (`Quotes`), names by their
segments (`IsName`), and the signs by a list (`signs`). Of the text that comes after a lexeme it
knows only whether a parenthesis opens there (`Opens`), which tells functions from other names.

The readers are greedy: the lexer reads the longest lexeme that a text starts with
(`Lexeme.first?_eq_some_iff`), and nothing just if no lexeme starts there
(`Lexeme.first?_eq_none_iff`). For this each reader is followed both ways: what it reads is a lexeme
of its kind, and where a text starts with a lexeme of its kind it reads this one or a longer one.
-/

namespace Formulary

namespace Lexeme

variable {options : LexerOptions} {text after rest : List Char} {l : Lexeme}

/-! ### Plain characters -/

/-- Whether a character is one of the quotes. -/
def isQuote (c : Char) : Bool := c == '"' || c == '\''

/-- Whether a character is neither blank nor a quote. -/
def isPlain (c : Char) : Bool := !Text.isBlank c && !isQuote c

theorem isQuote_of_isPlain {c : Char} (h : isPlain c = true) : isQuote c = false := by
  rw [isPlain, Bool.and_eq_true] at h
  simpa using h.2

theorem isBlank_of_isPlain {c : Char} (h : isPlain c = true) : Text.isBlank c = false := by
  rw [isPlain, Bool.and_eq_true] at h
  simpa using h.1

theorem isQuote_eq_false {p : Char → Bool} (hdouble : p '"' = false) (hsingle : p '\'' = false)
    (c : Char) (hc : p c = true) : isQuote c = false := by
  rw [isQuote, Bool.or_eq_false_iff, beq_eq_false_iff_ne, beq_eq_false_iff_ne]
  constructor
  · rintro rfl
    rw [hdouble] at hc
    cases hc
  · rintro rfl
    rw [hsingle] at hc
    cases hc

theorem isPlain_of_isDigit {c : Char} (h : Text.isDigit c = true) : isPlain c = true := by
  have hquote : isQuote c = false :=
    isQuote_eq_false (p := Text.isDigit) (by decide) (by decide) c h
  rw [isPlain, Text.isBlank_of_isDigit h, hquote]
  rfl

/-! ### Numerals -/

/-- The sign that an exponent may start with. -/
def exponentSign : List Char → List Char
  | '-' :: _ => ['-']
  | '+' :: _ => ['+']
  | _ => []

/-- How an exponent is spelt. -/
def exponentSpelling : Option (Char × List Char × List Char) → List Char
  | some (mark, sign, digits) => mark :: (sign ++ digits)
  | none => []

theorem exponent?_cons (mark : Char) (rest : List Char) : exponent? (mark :: rest) =
    if mark = 'e' ∨ mark = 'E' then
      let digits := (rest.drop (exponentSign rest).length).takeWhile Text.isDigit
      if digits.isEmpty then none else some (mark, exponentSign rest, digits)
    else none := rfl

theorem numeral?_of_point (h : text.dropWhile Text.isDigit = '.' :: rest) :
    numeral? text =
      if (text.takeWhile Text.isDigit).isEmpty && (rest.takeWhile Text.isDigit).isEmpty then none
      else some ⟨text.takeWhile Text.isDigit, some (rest.takeWhile Text.isDigit),
        exponent? (rest.dropWhile Text.isDigit)⟩ := by
  rw [numeral?, h]
  rfl

theorem numeral?_of_no_point (h : ∀ rest, text.dropWhile Text.isDigit ≠ '.' :: rest) :
    numeral? text =
      if (text.takeWhile Text.isDigit).isEmpty then none
      else some ⟨text.takeWhile Text.isDigit, none, exponent? (text.dropWhile Text.isDigit)⟩ := by
  rw [numeral?]
  split
  · next rest hrest => exact absurd hrest (h rest)
  · rfl

theorem spelling_of_fraction (whole digits : List Char)
    (x : Option (Char × List Char × List Char)) :
    Numeral.spelling ⟨whole, some digits, x⟩ = whole ++ '.' :: (digits ++ exponentSpelling x) := by
  rw [Numeral.spelling, List.append_assoc]
  rfl

theorem spelling_of_no_fraction (whole : List Char) (x : Option (Char × List Char × List Char)) :
    Numeral.spelling ⟨whole, none, x⟩ = whole ++ exponentSpelling x := by
  rw [Numeral.spelling, List.append_nil]
  rfl

/-- Whether something is an exponent: a mark, perhaps a sign, and digits. -/
structure IsExponent (x : Char × List Char × List Char) : Prop where
  mark : x.1 = 'e' ∨ x.1 = 'E'
  sign : x.2.1 = [] ∨ x.2.1 = ['+'] ∨ x.2.1 = ['-']
  ne_nil : x.2.2 ≠ []
  digits : ∀ c ∈ x.2.2, Text.isDigit c = true

/-- Whether something is a numeral: digits, before or after a point if there is one, and perhaps an
exponent. -/
structure Numeral.IsProper (n : Numeral) : Prop where
  whole : ∀ c ∈ n.whole, Text.isDigit c = true
  fraction : ∀ c ∈ n.fraction.getD [], Text.isDigit c = true
  ne_nil : n.whole ≠ [] ∨ n.fraction.getD [] ≠ []
  exponent : ∀ x, n.exponent = some x → IsExponent x

theorem isExponent_of_exponent? {x : Char × List Char × List Char} (h : exponent? text = some x) :
    IsExponent x := by
  cases text with
  | nil => cases h
  | cons mark rest =>
    rw [exponent?_cons] at h
    split at h
    · next hmark =>
      rw [Option.ite_none_left_eq_some] at h
      obtain ⟨hne, heq⟩ := h
      obtain rfl := Option.some.inj heq
      refine ⟨hmark, ?_, by simpa using hne, fun c hc => List.mem_takeWhile_imp hc⟩
      unfold exponentSign
      split
      · exact .inr (.inr rfl)
      · exact .inr (.inl rfl)
      · exact .inl rfl
    · cases h

/-- What is taken while something holds goes on with what the rest starts with. -/
theorem takeWhile_append_prefix {p : Char → Bool} {front : List Char}
    (h : front <+: text.dropWhile p) : text.takeWhile p ++ front <+: text := by
  rwa [← List.prefix_append_right_inj (text.takeWhile p), List.takeWhile_append_dropWhile] at h

theorem exponentSpelling_isPrefix (text : List Char) :
    exponentSpelling (exponent? text) <+: text := by
  cases text with
  | nil => exact List.prefix_rfl
  | cons mark rest =>
    have hsign : exponentSign rest <+: rest := by
      unfold exponentSign
      split
      · exact ⟨_, rfl⟩
      · exact ⟨_, rfl⟩
      · exact List.nil_prefix
    rw [exponent?_cons]
    split
    · simp only
      split
      · exact List.nil_prefix
      · rw [exponentSpelling, List.prefix_cons_inj]
        have hdigits := List.takeWhile_prefix Text.isDigit
          (l := rest.drop (exponentSign rest).length)
        rw [← List.prefix_append_right_inj (exponentSign rest),
          List.prefix_iff_eq_append.mp hsign] at hdigits
        exact hdigits
    · exact List.nil_prefix

/-- **What is read as a numeral is one**, and starts the text. -/
theorem isProper_of_numeral? {n : Numeral} (h : numeral? text = some n) :
    n.IsProper ∧ n.spelling <+: text := by
  by_cases hpoint : ∃ rest, text.dropWhile Text.isDigit = '.' :: rest
  · obtain ⟨rest, hrest⟩ := hpoint
    rw [numeral?_of_point hrest, Option.ite_none_left_eq_some] at h
    obtain ⟨hne, heq⟩ := h
    obtain rfl := Option.some.inj heq
    refine ⟨⟨fun c hc => List.mem_takeWhile_imp hc, fun c hc => List.mem_takeWhile_imp hc, ?_,
      fun x hx => isExponent_of_exponent? hx⟩, ?_⟩
    · rw [Bool.and_eq_true, List.isEmpty_iff, List.isEmpty_iff, not_and_or] at hne
      exact hne
    · rw [spelling_of_fraction]
      refine takeWhile_append_prefix ?_
      rw [hrest, List.prefix_cons_inj]
      exact takeWhile_append_prefix (exponentSpelling_isPrefix _)
  · rw [numeral?_of_no_point fun rest h => hpoint ⟨rest, h⟩, Option.ite_none_left_eq_some] at h
    obtain ⟨hne, heq⟩ := h
    obtain rfl := Option.some.inj heq
    refine ⟨⟨fun c hc => List.mem_takeWhile_imp hc, nofun, .inl (by simpa using hne),
      fun x hx => isExponent_of_exponent? hx⟩, ?_⟩
    rw [spelling_of_no_fraction]
    exact takeWhile_append_prefix (exponentSpelling_isPrefix _)

theorem exponentSign_append {sign digits : List Char}
    (hsign : sign = [] ∨ sign = ['+'] ∨ sign = ['-']) (hne : digits ≠ [])
    (hdigits : ∀ c ∈ digits, Text.isDigit c = true) (rest : List Char) :
    exponentSign (sign ++ (digits ++ rest)) = sign := by
  obtain ⟨d, digits, rfl⟩ := List.exists_cons_of_ne_nil hne
  have hd := hdigits d List.mem_cons_self
  rcases hsign with rfl | rfl | rfl
  · rw [List.nil_append, List.cons_append, exponentSign.eq_3]
    · rintro _ h
      obtain rfl := (List.cons.inj h).1
      exact absurd hd (by decide)
    · rintro _ h
      obtain rfl := (List.cons.inj h).1
      exact absurd hd (by decide)
  · rfl
  · rfl

/-- An exponent is read with all digits that come after it. -/
theorem exponent?_append {x : Char × List Char × List Char} (h : IsExponent x) (rest : List Char) :
    exponent? (exponentSpelling (some x) ++ rest) =
      some (x.1, x.2.1, x.2.2 ++ rest.takeWhile Text.isDigit) := by
  obtain ⟨mark, sign, digits⟩ := x
  have htaken : ((sign ++ (digits ++ rest)).drop sign.length).takeWhile Text.isDigit =
      digits ++ rest.takeWhile Text.isDigit := by
    rw [List.drop_left, List.takeWhile_append_of_pos h.digits]
  have hne : digits ≠ [] := h.ne_nil
  rw [exponentSpelling, List.cons_append, List.append_assoc, exponent?_cons, if_pos h.mark,
    exponentSign_append h.sign hne h.digits]
  simp only [htaken, List.isEmpty_iff, List.append_eq_nil_iff, hne, false_and, if_false]

/-- Digits end before an exponent, so there is no more to take. -/
theorem takeWhile_exponent {x : Char × List Char × List Char} (h : IsExponent x)
    (rest : List Char) :
    (exponentSpelling (some x) ++ rest).takeWhile Text.isDigit = [] ∧
      (exponentSpelling (some x) ++ rest).dropWhile Text.isDigit =
        exponentSpelling (some x) ++ rest := by
  obtain ⟨mark, sign, digits⟩ := x
  have hmark : ¬ Text.isDigit mark = true := by
    rcases h.mark with hmark | hmark <;> simp only at hmark <;> subst hmark <;> decide
  rw [exponentSpelling, List.cons_append]
  exact ⟨List.takeWhile_cons_of_neg hmark, List.dropWhile_cons_of_neg hmark⟩

/-- Whether a numeral is read where a text comes after it, it or a longer one that it starts;
without such a text it is read as it is. -/
def Numeral.IsRead (n : Numeral) (rest : List Char) : Prop :=
  ∃ m, numeral? (n.spelling ++ rest) = some m ∧ n.spelling.length ≤ m.spelling.length ∧
    (rest = [] → m = n)

namespace Numeral

variable {whole digits : List Char}

/-- Digits are read; more digits, a point or an exponent may come after them. -/
theorem isRead_whole (hne : whole ≠ []) (hwhole : ∀ c ∈ whole, Text.isDigit c = true)
    (rest : List Char) : IsRead ⟨whole, none, none⟩ rest := by
  have htake : (whole ++ rest).takeWhile Text.isDigit = whole ++ rest.takeWhile Text.isDigit :=
    List.takeWhile_append_of_pos hwhole
  have hdrop : (whole ++ rest).dropWhile Text.isDigit = rest.dropWhile Text.isDigit :=
    List.dropWhile_append_of_pos hwhole
  have hspelling : spelling ⟨whole, none, none⟩ = whole := by
    rw [spelling_of_no_fraction, exponentSpelling, List.append_nil]
  rw [IsRead, hspelling]
  -- a point after the digits, or after further ones, is read with them
  by_cases hpoint : ∃ tail, (whole ++ rest).dropWhile Text.isDigit = '.' :: tail
  · obtain ⟨tail, htail⟩ := hpoint
    rw [numeral?_of_point htail, htake, if_neg (by simp [hne])]
    refine ⟨_, rfl, by simp [spelling_of_fraction], ?_⟩
    rintro rfl
    rw [hdrop] at htail
    cases htail
  · rw [numeral?_of_no_point fun tail htail => hpoint ⟨tail, htail⟩, htake, if_neg (by simp [hne])]
    refine ⟨_, rfl, by simp [spelling_of_no_fraction], ?_⟩
    rintro rfl
    rw [hdrop]
    simp [exponent?]

/-- Digits with an exponent are read; more digits may come after them. -/
theorem isRead_exponent (hne : whole ≠ []) (hwhole : ∀ c ∈ whole, Text.isDigit c = true)
    {x : Char × List Char × List Char} (hx : IsExponent x) (rest : List Char) :
    IsRead ⟨whole, none, some x⟩ rest := by
  obtain ⟨htake, hdrop⟩ := takeWhile_exponent hx rest
  have hno : ∀ tail, (whole ++ (exponentSpelling (some x) ++ rest)).dropWhile Text.isDigit ≠
      '.' :: tail := by
    intro tail htail
    rw [List.dropWhile_append_of_pos hwhole, hdrop] at htail
    have hmark := hx.mark
    rw [(List.cons.inj htail).1] at hmark
    simp at hmark
  rw [IsRead, spelling_of_no_fraction, List.append_assoc, numeral?_of_no_point hno,
    List.takeWhile_append_of_pos hwhole, List.dropWhile_append_of_pos hwhole, htake, hdrop,
    List.append_nil, if_neg (by simp [hne]), exponent?_append hx]
  refine ⟨_, rfl, by simp [spelling_of_no_fraction, exponentSpelling], ?_⟩
  rintro rfl
  simp

/-- Digits with a point are read; more digits and an exponent may come after them. -/
theorem isRead_fraction (hne : whole ≠ [] ∨ digits ≠ [])
    (hwhole : ∀ c ∈ whole, Text.isDigit c = true) (hdigits : ∀ c ∈ digits, Text.isDigit c = true)
    {exponent : Option (Char × List Char × List Char)} (hexponent : ∀ x ∈ exponent, IsExponent x)
    (rest : List Char) : IsRead ⟨whole, some digits, exponent⟩ rest := by
  have hne' : ∀ more : List Char, ¬ (whole.isEmpty && (digits ++ more).isEmpty) = true := by
    intro more
    simp only [Bool.and_eq_true, List.isEmpty_iff, List.append_eq_nil_iff]
    tauto
  have htake : ∀ tail, (whole ++ '.' :: tail).takeWhile Text.isDigit = whole := by
    intro tail
    rw [List.takeWhile_append_of_pos hwhole, List.takeWhile_cons_of_neg (by decide),
      List.append_nil]
  have hdrop : ∀ tail, (whole ++ '.' :: tail).dropWhile Text.isDigit = '.' :: tail := by
    intro tail
    rw [List.dropWhile_append_of_pos hwhole, List.dropWhile_cons_of_neg (by decide)]
  rw [IsRead, spelling_of_fraction, List.append_assoc, List.cons_append, List.append_assoc,
    numeral?_of_point (hdrop _), htake, List.takeWhile_append_of_pos hdigits, if_neg (hne' _),
    List.dropWhile_append_of_pos hdigits]
  refine ⟨_, rfl, ?_⟩
  rcases exponent with - | x
  · refine ⟨by simp [spelling_of_fraction, exponentSpelling], ?_⟩
    rintro rfl
    simp [exponentSpelling, exponent?]
  · have hx := hexponent x rfl
    obtain ⟨htake', hdrop'⟩ := takeWhile_exponent hx rest
    rw [htake', hdrop', exponent?_append hx]
    refine ⟨by simp [spelling_of_fraction, exponentSpelling], ?_⟩
    rintro rfl
    simp

/-- **A numeral is read**, or a longer one that it starts. -/
theorem IsProper.isRead {n : Numeral} (h : n.IsProper) (rest : List Char) : n.IsRead rest := by
  obtain ⟨whole, fraction, exponent⟩ := n
  rcases fraction with - | digits
  · have hne : whole ≠ [] := h.ne_nil.resolve_right fun hne => hne rfl
    rcases exponent with - | x
    · exact isRead_whole hne h.whole rest
    · exact isRead_exponent hne h.whole (h.exponent x rfl) rest
  · exact isRead_fraction h.ne_nil h.whole h.fraction h.exponent rest

/-- A spelling is that of one numeral. -/
theorem IsProper.eq_of_spelling_eq {n m : Numeral} (hn : n.IsProper) (hm : m.IsProper)
    (h : n.spelling = m.spelling) : n = m := by
  obtain ⟨n', hreadn, -, hn'⟩ := hn.isRead []
  obtain ⟨m', hreadm, -, hm'⟩ := hm.isRead []
  rw [h, hreadm] at hreadn
  rw [← hn' rfl, ← hm' rfl, Option.some.inj hreadn]

theorem IsProper.isPlain_of_mem {n : Numeral} (h : n.IsProper) :
    ∀ c ∈ n.spelling, isPlain c = true := by
  obtain ⟨whole, fraction, exponent⟩ := n
  have hwhole : ∀ c ∈ whole, isPlain c = true := fun c hc => isPlain_of_isDigit (h.whole c hc)
  have hexponent : ∀ c ∈ exponentSpelling exponent, isPlain c = true := by
    rcases exponent with - | ⟨mark, sign, digits⟩
    · exact nofun
    · have hx := h.exponent _ rfl
      refine List.forall_mem_cons.mpr ⟨?_, List.forall_mem_append.mpr
        ⟨?_, fun c hc => isPlain_of_isDigit (hx.digits c hc)⟩⟩
      · rcases hx.mark with hmark | hmark <;> simp only at hmark <;> subst hmark <;> decide
      · rcases hx.sign with hsign | hsign | hsign <;> simp only at hsign <;> subst hsign
        · exact nofun
        · exact List.forall_mem_singleton.mpr (by decide)
        · exact List.forall_mem_singleton.mpr (by decide)
  rcases fraction with - | digits
  · rw [spelling_of_no_fraction]
    exact List.forall_mem_append.mpr ⟨hwhole, hexponent⟩
  · rw [spelling_of_fraction]
    exact List.forall_mem_append.mpr ⟨hwhole, List.forall_mem_cons.mpr ⟨by decide,
      List.forall_mem_append.mpr ⟨fun c hc => isPlain_of_isDigit (h.fraction c hc), hexponent⟩⟩⟩

end Numeral

/-! ### Quoted texts -/

/-- A text between quotes. -/
def quotation (quote : Char) (meant spelt : List Char) : Lexeme :=
  ⟨.string, .text (String.ofList meant), quote :: (spelt ++ [quote])⟩

theorem exists_quotes_of_untilQuote {quote : Char} {meant spelt : List Char}
    (h : untilQuote quote text = some (meant, spelt)) :
    ∃ body rest, spelt = body ++ [quote] ∧ text = body ++ quote :: rest ∧
      Quotes quote meant body := by
  fun_induction untilQuote quote text generalizing meant spelt with
  | case1 | case3 | case5 => cases h
  | case2 | case4 =>
    obtain ⟨rfl, rfl⟩ := Prod.mk.inj (Option.some.inj h)
    exact ⟨[], _, rfl, rfl, .nil⟩
  | case6 d text hline hback ih =>
    obtain ⟨⟨meant, spelt⟩, huntil, heq⟩ := Option.map_eq_some_iff.mp h
    obtain ⟨rfl, rfl⟩ := Prod.mk.inj heq
    obtain ⟨body, rest, rfl, rfl, hquotes⟩ := ih huntil
    exact ⟨_, rest, rfl, rfl, .escaped hline hquotes⟩
  | case7 c d text hquote hback ih =>
    obtain ⟨⟨meant, spelt⟩, huntil, heq⟩ := Option.map_eq_some_iff.mp h
    obtain ⟨rfl, rfl⟩ := Prod.mk.inj heq
    obtain ⟨body, rest, rfl, htext, hquotes⟩ := ih huntil
    exact ⟨c :: body, rest, rfl, by rw [htext]; rfl, .plain hquote hback hquotes⟩

/-- A quoted text ends by itself. -/
theorem quoted?_of_quotes {quote : Char} (hquote : isQuote quote = true) {meant spelt : List Char}
    (h : Quotes quote meant spelt) (rest : List Char) :
    quoted? ((quotation quote meant spelt).spelling ++ rest) =
      some (quotation quote meant spelt) := by
  have hback : quote ≠ '\\' := by
    rintro rfl
    cases hquote
  rw [isQuote, Bool.or_eq_true, beq_iff_eq, beq_iff_eq] at hquote
  rw [quotation, List.cons_append, List.append_assoc, List.singleton_append, quoted?,
    if_pos hquote, untilQuote_of_quotes hback h]
  rfl

theorem exists_quotes_of_quoted? (h : quoted? text = some l) :
    ∃ quote meant spelt rest, isQuote quote = true ∧ Quotes quote meant spelt ∧
      l = quotation quote meant spelt ∧ text = l.spelling ++ rest := by
  unfold quoted? at h
  split at h
  · next c tail =>
    split at h
    · next hc =>
      obtain ⟨⟨meant, spelt⟩, huntil, rfl⟩ := Option.map_eq_some_iff.mp h
      obtain ⟨body, rest, rfl, rfl, hquotes⟩ := exists_quotes_of_untilQuote huntil
      refine ⟨c, meant, body, rest, ?_, hquotes, rfl, by simp⟩
      rcases hc with rfl | rfl <;> decide
    · cases h
  · cases h

/-- A quoted text is what the text starts with, and it ends by itself. -/
theorem quoted?_append (h : quoted? text = some l) :
    l.spelling <+: text ∧ ∀ rest, quoted? (l.spelling ++ rest) = some l := by
  obtain ⟨quote, meant, spelt, rest, hquote, hquotes, rfl, rfl⟩ := exists_quotes_of_quoted? h
  exact ⟨List.prefix_append _ _, quoted?_of_quotes hquote hquotes⟩

/-! ### Names -/

/-- A word character is in the first segment of what goes on with a name. -/
theorem ne_nil_of_nameTail {d : Char} (hd : continuesName d = true) {first : List Char}
    {others : List (List Char)}
    (h : nameTail (d :: rest) = first ++ others.flatMap ('.' :: ·)) : first ≠ [] := by
  rintro rfl
  rw [nameTail, hd, Bool.true_or, if_pos rfl, List.nil_append] at h
  cases others with
  | nil => cases h
  | cons segment others =>
    rw [(List.cons.inj h).1] at hd
    exact absurd hd (by decide)

/-- What goes on with a name: first word characters, then segments after points. -/
theorem exists_segments_of_nameTail (text : List Char) :
    ∃ (first : List Char) (others : List (List Char)),
      nameTail text = first ++ others.flatMap ('.' :: ·) ∧
      (∀ d ∈ first, continuesName d = true) ∧
      ∀ segment ∈ others, segment ≠ [] ∧ ∀ d ∈ segment, continuesName d = true := by
  induction text with
  | nil => exact ⟨[], [], rfl, nofun, nofun⟩
  | cons c rest ih =>
    obtain ⟨first, others, htail, hfirst, hothers⟩ := ih
    rw [nameTail]
    split
    · next hc =>
      by_cases hword : continuesName c = true
      · refine ⟨c :: first, others, by rw [htail]; rfl, ?_, hothers⟩
        exact List.forall_mem_cons.mpr ⟨hword, hfirst⟩
      · -- a point; the word character after it makes a segment that is not empty
        rw [Bool.not_eq_true] at hword
        rw [hword, Bool.false_or, Bool.and_eq_true, beq_iff_eq] at hc
        obtain ⟨rfl, hnext⟩ := hc
        refine ⟨[], first :: others, by rw [htail]; rfl, nofun, ?_⟩
        refine List.forall_mem_cons.mpr ⟨⟨?_, hfirst⟩, hothers⟩
        cases rest with
        | nil => cases hnext
        | cons d rest => exact ne_nil_of_nameTail hnext htail
    · exact ⟨[], [], rfl, nofun, nofun⟩

theorem nameTail_isPrefix (text : List Char) : nameTail text <+: text := by
  induction text with
  | nil => exact List.prefix_rfl
  | cons c rest ih =>
    rw [nameTail]
    split
    · exact (List.prefix_cons_inj c).mpr ih
    · exact List.nil_prefix

/-- **What is read as a name is one.** -/
theorem isName_of_startsName {c : Char} (hc : startsName c = true) (rest : List Char) :
    IsName Char.isAlpha (c :: nameTail rest) := by
  obtain ⟨first, others, htail, hfirst, hothers⟩ := exists_segments_of_nameTail rest
  have hword : ∀ d, continuesName d = true → (d.isAlpha || d.isDigit || d == '_') = true :=
    fun d hd => by rwa [continuesName, Char.isAlphanum] at hd
  refine ⟨c, first, others, by rw [htail], ?_, ?_⟩
  · rw [startsName, Bool.or_eq_true, beq_iff_eq] at hc
    rcases hc with hc | rfl
    · exact Text.isDigit_of_isAlpha hc
    · decide
  · refine List.forall_mem_cons.mpr ⟨⟨List.cons_ne_nil _ _, ?_⟩, fun segment hs =>
      ⟨(hothers segment hs).1, fun d hd => hword d ((hothers segment hs).2 d hd)⟩⟩
    refine List.forall_mem_cons.mpr ⟨?_, fun d hd => hword d (hfirst d hd)⟩
    rw [startsName, Bool.or_eq_true] at hc
    rw [Bool.or_eq_true, Bool.or_eq_true]
    exact hc.imp_left .inl

theorem isPlain_of_mem_name {name : List Char} (h : IsName Char.isAlpha name) :
    ∀ c ∈ name, isPlain c = true := fun c hc =>
  Text.forall_ascii (P := fun c => (c.isAlpha || c.isDigit || c == '_') = true ∨ c = '.' →
    isPlain c = true) (by decide) (h.ascii_of_mem (fun _ h => h) hc) (h.of_mem hc)

/-- Whether the next character of a text that is not blank is an opening parenthesis. -/
def Opens (after : List Char) : Prop :=
  ∃ gap rest, after = gap ++ '(' :: rest ∧ ∀ c ∈ gap, Text.isBlank c = true

theorem opensCall_iff (after : List Char) : opensCall after = true ↔ Opens after := by
  constructor
  · intro h
    rw [opensCall, beq_iff_eq, List.head?_eq_some_iff] at h
    obtain ⟨rest, hrest⟩ := h
    refine ⟨after.takeWhile Text.isBlank, rest, ?_, fun c hc => List.mem_takeWhile_imp hc⟩
    rw [← hrest, List.takeWhile_append_dropWhile]
  · rintro ⟨gap, rest, rfl, hgap⟩
    rw [opensCall, List.dropWhile_append_of_pos hgap, List.dropWhile_cons_of_neg (by decide)]
    rfl

/-! ### Signs -/

/-- All signs. -/
def signs : List Lexeme :=
  [sign .leftParen "(" "(", sign .rightParen ")" ")", sign .comma "," ",",
   sign .comparator "<=" "<=", sign .comparator ">=" ">=", sign .comparator "<>" "<>",
   sign .comparator "!=" "<>", sign .comparator "==" "=", sign .comparator "=" "=",
   sign .comparator "<" "<", sign .comparator ">" ">",
   sign .operator "-" "-", sign .operator "+" "+", sign .operator "*" "*",
   sign .operator "/" "/", sign .operator "%" "%", sign .operator "^" "^",
   sign .operator "&" "&"]

theorem mem_signs_of_sign? (h : sign? text = some l) : l ∈ signs ∧ l.spelling <+: text := by
  unfold sign? at h
  split at h <;> simp only [Option.some.injEq, reduceCtorEq] at h <;> subst h <;>
    exact ⟨by simp [signs], ⟨_, rfl⟩⟩

/-- A sign is read, or a longer one that it starts. -/
theorem exists_sign?_append (h : l ∈ signs) (after : List Char) :
    ∃ m, sign? (l.spelling ++ after) = some m ∧ l.spelling.length ≤ m.spelling.length ∧
      (l.spelling.length = m.spelling.length → m = l) := by
  -- only the two characters that end a comparison of two make another sign of this one
  rcases after with - | ⟨d, after⟩
  · rw [signs] at h
    fin_cases h <;> exact ⟨_, rfl, by simp [sign], fun _ => rfl⟩
  · by_cases hends : d = '=' ∨ d = '>'
    · rw [signs] at h
      rcases hends with rfl | rfl <;> fin_cases h <;>
        exact ⟨_, rfl, by simp [sign], by simp [sign]⟩
    · obtain ⟨heq, hgt⟩ := not_or.mp hends
      refine ⟨l, ?_, le_rfl, fun _ => rfl⟩
      rw [signs] at h
      fin_cases h <;> simp [sign, sign?, heq, hgt]

/-! ### Lexemes -/

/-- Whether a lexeme is one of its kind with what its spelling means, where a text comes after it.
-/
inductive IsLexeme (options : LexerOptions) (after : List Char) : Lexeme → Prop
  | number {n : Numeral} (h : n.IsProper) : IsLexeme options after ⟨.number, n.value, n.spelling⟩
  | quoted {quote : Char} {meant spelt : List Char} (hquote : isQuote quote = true)
      (h : Quotes quote meant spelt) : IsLexeme options after (quotation quote meant spelt)
  | function {name : List Char} {upper : String} (h : IsName Char.isAlpha name)
      (hupper : upper = String.ofList (name.map Char.toUpper)) (hopens : Opens after) :
      IsLexeme options after
        ⟨.function, .text ((Table.get? options.aliases upper).getD upper), name⟩
  | truth {name : List Char} {b : Bool}
      (h : name.map Char.toLower = (if b then "true" else "false").toList)
      (hopens : ¬ Opens after) : IsLexeme options after ⟨.boolean, .bool b, name⟩
  | identifier {name : List Char} (h : IsName Char.isAlpha name)
      (htruth : ∀ b : Bool, name.map Char.toLower ≠ (if b then "true" else "false").toList)
      (hopens : ¬ Opens after) :
      IsLexeme options after ⟨.identifier, .text (if options.caseSensitive then String.ofList name
        else String.ofList (name.map Char.toLower)), name⟩
  | sign {l : Lexeme} (h : l ∈ signs) : IsLexeme options after l

/-- Whether a text starts with a lexeme. -/
def StartsWith (options : LexerOptions) (text : List Char) (l : Lexeme) : Prop :=
  ∃ after, text = l.spelling ++ after ∧ IsLexeme options after l

/-- Whether a lexeme is the longest that a text starts with. -/
structure IsLongest (options : LexerOptions) (text : List Char) (l : Lexeme) : Prop where
  starts : StartsWith options text l
  longest : ∀ other, StartsWith options text other → other.spelling.length ≤ l.spelling.length

section

variable {name : List Char}

/-- A truth value in any letter case is a name. -/
theorem isName_of_map_toLower {b : Bool}
    (h : name.map Char.toLower = (if b then "true" else "false").toList) :
    IsName Char.isAlpha name := by
  have hletters : ((if b then "true" else "false").toList.all Char.isAlpha) = true := by
    cases b <;> decide
  refine .of_letters (fun _ h => h) ?_ fun c hc => ?_
  · rintro rfl
    cases b <;> simp at h
  · refine Text.isAlpha_of_toLower (List.all_eq_true.mp hletters _ ?_)
    rw [← h]
    exact List.mem_map_of_mem hc

theorem nameToken_of_opens (h : IsName Char.isAlpha name) (options : LexerOptions)
    (hopens : Opens after) :
    nameToken options name (opensCall after) =
      (.function, .text ((Table.get? options.aliases (String.ofList (name.map Char.toUpper))).getD
        (String.ofList (name.map Char.toUpper)))) := by
  rw [nameToken, (opensCall_iff after).mpr hopens, if_pos rfl,
    Text.upper_ascii fun c hc => h.ascii_of_mem (fun _ h => h) hc]

theorem nameToken_of_not_opens (h : IsName Char.isAlpha name) (options : LexerOptions)
    (hopens : ¬ Opens after) :
    nameToken options name (opensCall after) =
      if name.map Char.toLower = "true".toList ∨ name.map Char.toLower = "false".toList then
        (.boolean, .bool (name.map Char.toLower = "true".toList))
      else (.identifier, .text (if options.caseSensitive then String.ofList name
        else String.ofList (name.map Char.toLower))) := by
  have hlower : Text.lower name = name.map Char.toLower :=
    Text.lowerAfter_ascii (fun c hc => h.ascii_of_mem (fun _ h => h) hc) []
  have hsame : ∀ s : String, String.ofList (name.map Char.toLower) = s ↔
      name.map Char.toLower = s.toList := fun s =>
    ⟨fun h => by rw [← h, String.toList_ofList], fun h => by rw [h, String.ofList_toList]⟩
  have hcall : opensCall after = false :=
    Bool.eq_false_iff.mpr fun hcall => hopens ((opensCall_iff after).mp hcall)
  rw [nameToken, hlower, hcall]
  simp only [Bool.false_eq_true, if_false, hsame]

/-- **A name is a lexeme as what it is read as** where a text comes after it. -/
theorem isLexeme_nameToken (h : IsName Char.isAlpha name) (options : LexerOptions)
    (after : List Char) :
    IsLexeme options after ⟨(nameToken options name (opensCall after)).1,
      (nameToken options name (opensCall after)).2, name⟩ := by
  by_cases hopens : Opens after
  · rw [nameToken_of_opens h options hopens]
    exact .function h rfl hopens
  · rw [nameToken_of_not_opens h options hopens]
    by_cases htrue : name.map Char.toLower = "true".toList
    · rw [if_pos (.inl htrue)]
      simp only [htrue, decide_true]
      exact .truth (b := true) htrue hopens
    · by_cases hfalse : name.map Char.toLower = "false".toList
      · rw [if_pos (.inr hfalse)]
        simp only [htrue, decide_false]
        exact .truth (b := false) hfalse hopens
      · rw [if_neg (not_or.mpr ⟨htrue, hfalse⟩)]
        refine .identifier h (fun b => ?_) hopens
        cases b
        · exact hfalse
        · exact htrue

/-- Only a quoted text has a blank or a quote in it, and it ends by itself. -/
theorem IsLexeme.isPlain_or (h : IsLexeme options after l) :
    (∀ c ∈ l.spelling, isPlain c = true) ∨ ∀ rest, quoted? (l.spelling ++ rest) = some l := by
  cases h with
  | number h => exact .inl h.isPlain_of_mem
  | quoted hquote h => exact .inr (quoted?_of_quotes hquote h)
  | function h => exact .inl (isPlain_of_mem_name h)
  | truth h => exact .inl (isPlain_of_mem_name (isName_of_map_toLower h))
  | identifier h => exact .inl (isPlain_of_mem_name h)
  | sign h =>
    have hall : (signs.all fun l => l.spelling.all isPlain) = true := by decide
    exact .inl (List.all_eq_true.mp (List.all_eq_true.mp hall l h))

/-! ### The longest lexeme -/

/-- What is read as a name is a lexeme, and starts the text. -/
theorem startsWith_of_name? (h : name? options text = some l) : StartsWith options text l := by
  unfold name? at h
  split at h
  · cases h
  · next c rest =>
    split at h
    · next hc =>
      obtain rfl := Option.some.inj h
      refine ⟨rest.drop (nameTail rest).length, ?_, isLexeme_nameToken
        (isName_of_startsName hc rest) options _⟩
      rw [List.cons_append, List.prefix_iff_eq_append.mp (nameTail_isPrefix rest)]
    · cases h

/-- **What is read is a lexeme**, and starts the text. -/
theorem startsWith_of_first? (h : first? options text = some l) : StartsWith options text l := by
  simp only [first?, Option.or_eq_some_iff] at h
  rcases h with h | ⟨-, h | ⟨-, h | ⟨-, h⟩⟩⟩
  · obtain ⟨n, hn, rfl⟩ := Option.map_eq_some_iff.mp h
    obtain ⟨hproper, after, hafter⟩ := isProper_of_numeral? hn
    exact ⟨after, hafter.symm, .number hproper⟩
  · obtain ⟨quote, meant, spelt, after, hquote, hquotes, rfl, rfl⟩ := exists_quotes_of_quoted? h
    exact ⟨after, rfl, .quoted hquote hquotes⟩
  · exact startsWith_of_name? h
  · obtain ⟨hmem, after, hafter⟩ := mem_signs_of_sign? h
    exact ⟨after, hafter.symm, .sign hmem⟩

/-- A name is read, or a longer one that it starts. -/
theorem exists_first?_of_isName (h : IsName Char.isAlpha name) {kind : Token.Kind} {value : Value}
    (htoken : nameToken options name (opensCall after) = (kind, value)) :
    ∃ m, first? options (name ++ after) = some m ∧ name.length ≤ m.spelling.length ∧
      (name.length = m.spelling.length → m = ⟨kind, value, name⟩) := by
  rcases hnil : nameTail after with - | ⟨d, more⟩
  · have hread := name?_of_isName (fun _ h => h) options h hnil
    rw [htoken] at hread
    exact ⟨_, first?_of_name? hread, le_rfl, fun _ => rfl⟩
  · -- the name goes on, so a longer one is read
    obtain ⟨c, tail, rfl⟩ := List.exists_cons_of_ne_nil h.ne_nil
    obtain ⟨hstarts, htail⟩ :
        startsName c = true ∧ nameTail (tail ++ after) = tail ++ nameTail after :=
      nameTail_of_isName (fun _ h => h) h
    have hread : ∃ m, name? options (c :: tail ++ after) = some m ∧
        m.spelling = c :: tail ++ nameTail after := by
      rw [List.cons_append, name?, if_pos hstarts, htail]
      exact ⟨_, rfl, rfl⟩
    obtain ⟨m, hm, hspelling⟩ := hread
    rw [hnil] at hspelling
    refine ⟨m, first?_of_name? hm, by simp [hspelling], fun hlength => ?_⟩
    simp [hspelling] at hlength

/-- A numeral is read as a number, or a longer one that it starts. -/
theorem exists_first?_of_isProper {n : Numeral} (h : n.IsProper) (after : List Char) :
    ∃ m, first? options (n.spelling ++ after) = some m ∧ n.spelling.length ≤ m.spelling.length ∧
      (n.spelling.length = m.spelling.length → m = ⟨.number, n.value, n.spelling⟩) := by
  obtain ⟨m, hread, hlength, -⟩ := h.isRead after
  have hnumber : number? (n.spelling ++ after) = some ⟨.number, m.value, m.spelling⟩ := by
    rw [number?, hread]
    rfl
  refine ⟨_, first?_of_number? hnumber, hlength, fun heq => ?_⟩
  obtain ⟨hproper, hstart⟩ := isProper_of_numeral? hread
  have hsame : n.spelling = m.spelling :=
    List.IsPrefix.eq_of_length (List.prefix_of_prefix_length_le (List.prefix_append _ _) hstart
      hlength) heq
  rw [h.eq_of_spelling_eq hproper hsame]

end

/-- **A lexeme is read**, or a longer one that it starts. -/
theorem exists_first?_of_isLexeme (h : IsLexeme options after l) :
    ∃ m, first? options (l.spelling ++ after) = some m ∧ l.spelling.length ≤ m.spelling.length ∧
      (l.spelling.length = m.spelling.length → m = l) := by
  cases h with
  | number h => exact exists_first?_of_isProper h after
  | quoted hquote h =>
    exact ⟨_, first?_of_quoted? (quoted?_of_quotes hquote h after), le_rfl, fun _ => rfl⟩
  | function h hupper hopens =>
    subst hupper
    exact exists_first?_of_isName h (nameToken_of_opens h options hopens)
  | @truth name b h hopens =>
    have hname := isName_of_map_toLower h
    refine exists_first?_of_isName hname ((nameToken_of_not_opens hname options hopens).trans ?_)
    rw [h]
    cases b <;> simp
  | identifier h htruth hopens =>
    exact exists_first?_of_isName h ((nameToken_of_not_opens h options hopens).trans
      (if_neg (not_or.mpr ⟨htruth true, htruth false⟩)))
  | sign h =>
    obtain ⟨m, hm, hlength, hsame⟩ := exists_sign?_append h after
    exact ⟨m, first?_of_sign? hm, hlength, hsame⟩

/-- **The lexer reads the longest lexeme** that the text starts with. -/
theorem first?_eq_some_iff : first? options text = some l ↔ IsLongest options text l := by
  constructor
  · intro h
    refine ⟨startsWith_of_first? h, ?_⟩
    rintro other ⟨after, rfl, hother⟩
    obtain ⟨m, hm, hlength, -⟩ := exists_first?_of_isLexeme hother
    rw [h] at hm
    rwa [Option.some.inj hm]
  · rintro ⟨⟨after, rfl, hl⟩, hlongest⟩
    obtain ⟨m, hm, hlength, hsame⟩ := exists_first?_of_isLexeme hl
    rw [hm, hsame (le_antisymm hlength (hlongest m (startsWith_of_first? hm)))]

/-- **The lexer reads nothing only where no lexeme starts.** -/
theorem first?_eq_none_iff : first? options text = none ↔ ∀ l, ¬ StartsWith options text l := by
  constructor
  · rintro h l ⟨after, rfl, hl⟩
    obtain ⟨m, hm, -⟩ := exists_first?_of_isLexeme hl
    rw [h] at hm
    cases hm
  · intro h
    rcases hl : first? options text with - | l
    · rfl
    · exact absurd (startsWith_of_first? hl) (h l)

end Lexeme

end Formulary

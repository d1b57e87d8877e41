import Formulary.Expr.Parser
import Formulary.Proofs.Text.AsciiCase
import Formulary.Proofs.Token.Spelling

/-!
# Letter case in the texts of expressions

Where letter case does not count, a text has the same tokens whatever the case of its ASCII letters,
but for those in quoted texts. `Lexeme.uncased` puts them in lower case; so texts are the same but
for letter case if they are the same in this form (`Token.AreRecased`), and then either both have
the same tokens at the same places or neither has any (`Token.scan_of_areRecased`).

The proof goes lexeme by lexeme. Each reader of lexemes comes to the same for a text in lower case,
the length of what it reads included (`Lexeme.content`), and only a quoted text has a quote in it
(`Lexeme.IsUnquotedStart`), so that the other lexemes can be taken off before or after letter case
is taken from the text.
-/

namespace Formulary

namespace Lexeme

/-! ### Readers of lexemes -/

variable {options : LexerOptions} {text : List Char} {l : Lexeme}

theorem startsName_toLower : ∀ c : Char, startsName c.toLower = startsName c :=
  Text.apply_toLower fun c hc => by rw [startsName, hc, Bool.true_or]

theorem continuesName_toLower : ∀ c : Char, continuesName c.toLower = continuesName c :=
  Text.apply_toLower fun c hc => by
    rw [continuesName, Char.isAlphanum, hc, Bool.true_or, Bool.true_or]

theorem isMark_toLower (c : Char) :
    c.toLower = 'e' ∨ c.toLower = 'E' ↔ c = 'e' ∨ c = 'E' :=
  decide_eq_decide.mp <|
    Text.congr_toLower (f := fun c => decide (c = 'e' ∨ c = 'E')) (by decide) c

/-- What a token takes from a lexeme, and how long the lexeme is. -/
def content (l : Lexeme) : Token.Kind × Value × Nat := (l.kind, l.value, l.spelling.length)

theorem exponentSign_map_toLower (text : List Char) :
    exponentSign (text.map Char.toLower) = exponentSign text := by
  cases text with
  | nil => rfl
  | cons c rest =>
    have hminus : c.toLower = '-' ↔ c = '-' := Text.toLower_eq_iff (by decide)
    have hplus : c.toLower = '+' ↔ c = '+' := Text.toLower_eq_iff (by decide)
    by_cases h : c = '-'
    · subst h; rfl
    · by_cases h' : c = '+'
      · subst h'; rfl
      · simp [exponentSign, h, h', hminus, hplus]

/-- The case of the mark of an exponent does not count. -/
theorem exponent?_map_toLower (text : List Char) :
    (exponent? (text.map Char.toLower)).map Prod.snd = (exponent? text).map Prod.snd := by
  cases text with
  | nil => rfl
  | cons mark rest =>
    rw [List.map_cons, exponent?_cons, exponent?_cons, exponentSign_map_toLower, ← List.map_drop,
      Text.takeWhile_isDigit_map_toLower]
    simp only [isMark_toLower]
    split
    · split
      · rfl
      · rfl
    · rfl

/-- Of the exponent only sign and digits are read, and its mark is one character. -/
theorem content_of_exponent (whole : List Char) (fraction : Option (List Char))
    {x y : Option (Char × List Char × List Char)} (h : x.map Prod.snd = y.map Prod.snd) :
    content ⟨.number, Numeral.value ⟨whole, fraction, x⟩, Numeral.spelling ⟨whole, fraction, x⟩⟩ =
      content
        ⟨.number, Numeral.value ⟨whole, fraction, y⟩, Numeral.spelling ⟨whole, fraction, y⟩⟩ := by
  rcases x with - | ⟨mark, signed⟩ <;> rcases y with - | ⟨mark', signed'⟩ <;>
    simp only [Option.map_none, Option.map_some, reduceCtorEq, Option.some.injEq] at h
  · rfl
  · subst h
    simp [content, Numeral.value, Numeral.spelling]

theorem number?_map_toLower (text : List Char) :
    (number? (text.map Char.toLower)).map content = (number? text).map content := by
  have hdrop := fun rest : List Char => Text.dropWhile_map_toLower rest Text.isDigit_toLower
  rw [number?, number?]
  -- a point is its own lower case, so it is found in both texts or in neither
  by_cases hpoint : ∃ rest, text.dropWhile Text.isDigit = '.' :: rest
  · obtain ⟨rest, hrest⟩ := hpoint
    have hrest' : (text.map Char.toLower).dropWhile Text.isDigit =
        '.' :: rest.map Char.toLower := by
      rw [hdrop, hrest]
      rfl
    rw [numeral?_of_point hrest, numeral?_of_point hrest', hdrop,
      Text.takeWhile_isDigit_map_toLower, Text.takeWhile_isDigit_map_toLower]
    split
    · rfl
    · exact congrArg some (content_of_exponent _ _ (exponent?_map_toLower _))
  · have hno : ∀ rest, text.dropWhile Text.isDigit ≠ '.' :: rest := fun rest h => hpoint ⟨rest, h⟩
    have hno' : ∀ rest, (text.map Char.toLower).dropWhile Text.isDigit ≠ '.' :: rest := by
      intro rest h
      rw [hdrop] at h
      obtain ⟨c, tail, htext, hc, -⟩ := List.map_eq_cons_iff.mp h
      rw [Text.toLower_eq_iff (by decide)] at hc
      exact hno tail (hc ▸ htext)
    rw [numeral?_of_no_point hno, numeral?_of_no_point hno', hdrop,
      Text.takeWhile_isDigit_map_toLower]
    split
    · rfl
    · exact congrArg some (content_of_exponent _ _ (exponent?_map_toLower _))

/-- Where a quoted text ends does not depend on letter case. -/
theorem isSome_untilQuote_map_toLower {quote : Char} (hquote : quote.isAlpha = false)
    (text : List Char) :
    (untilQuote quote (text.map Char.toLower)).isSome = (untilQuote quote text).isSome := by
  have hback : ∀ c : Char, c.toLower = '\\' ↔ c = '\\' := fun c => Text.toLower_eq_iff (by decide)
  have hline : ∀ c : Char, c.toLower = '\n' ↔ c = '\n' := fun c => Text.toLower_eq_iff (by decide)
  have hend : ∀ c : Char, c.toLower = quote ↔ c = quote := fun c => Text.toLower_eq_iff hquote
  fun_induction untilQuote quote text with
  | case1 => rfl
  | _ => simp_all [untilQuote]

theorem isSome_quoted?_map_toLower (text : List Char) :
    (quoted? (text.map Char.toLower)).isSome = (quoted? text).isSome := by
  cases text with
  | nil => rfl
  | cons c rest =>
    have hdouble : c.toLower = '"' ↔ c = '"' := Text.toLower_eq_iff (by decide)
    have hsingle : c.toLower = '\'' ↔ c = '\'' := Text.toLower_eq_iff (by decide)
    simp only [List.map_cons, quoted?, hdouble, hsingle]
    split
    · next hc =>
      have hquote : c.isAlpha = false := by rcases hc with rfl | rfl <;> decide
      have hc' : c.toLower = c := by rcases hc with rfl | rfl <;> decide
      rw [Option.isSome_map, Option.isSome_map, hc', isSome_untilQuote_map_toLower hquote]
    · rfl

theorem nameTail_map_toLower (text : List Char) :
    nameTail (text.map Char.toLower) = (nameTail text).map Char.toLower := by
  induction text with
  | nil => rfl
  | cons c rest ih =>
    have hpoint : c.toLower = '.' ↔ c = '.' := Text.toLower_eq_iff (by decide)
    have hnext : (rest.map Char.toLower).head?.any continuesName =
        rest.head?.any continuesName := by
      rw [List.head?_map, Option.any_map]
      exact congrArg rest.head?.any (funext continuesName_toLower)
    have hpoint' : (c.toLower == '.') = (c == '.') := by simp only [beq_eq_decide, hpoint]
    rw [List.map_cons, nameTail, nameTail, hnext, continuesName_toLower, hpoint', ih]
    split
    · rfl
    · rfl

theorem opensCall_map_toLower (text : List Char) :
    opensCall (text.map Char.toLower) = opensCall text := by
  rw [opensCall, opensCall, Text.dropWhile_map_toLower text Text.isBlank_toLower]
  rcases text.dropWhile Text.isBlank with - | ⟨c, rest⟩
  · rfl
  · have hopen : c.toLower = '(' ↔ c = '(' := Text.toLower_eq_iff (by decide)
    simp [hopen]

/-- Where case does not count, a name stands for the same token in either case. -/
theorem nameToken_map_toLower (hcase : options.caseSensitive = false) (spelling : List Char)
    (opens : Bool) :
    nameToken options (spelling.map Char.toLower) opens = nameToken options spelling opens := by
  rw [nameToken, nameToken, Text.lower_map_toLower, Text.upper_map_toLower, hcase]
  rfl

theorem name?_map_toLower (hcase : options.caseSensitive = false) (text : List Char) :
    (name? options (text.map Char.toLower)).map content = (name? options text).map content := by
  cases text with
  | nil => rfl
  | cons c rest =>
    rw [List.map_cons, name?, name?, startsName_toLower, nameTail_map_toLower]
    simp only [List.length_map, ← List.map_drop, opensCall_map_toLower, ← List.map_cons,
      nameToken_map_toLower hcase]
    split
    · simp only [Option.map_some, content, List.length_map]
    · rfl

/-- The signs of one character that no longer sign starts with. -/
def plainSigns : List Char := ['(', ')', ',', '-', '+', '*', '/', '%', '^', '&']

/-- The characters that comparisons start with. -/
def comparisonStarts : List Char := ['<', '>', '!', '=']

theorem sign?_eq_none {c : Char} (hc : c ∉ plainSigns) (hc' : c ∉ comparisonStarts)
    (rest : List Char) : sign? (c :: rest) = none := by
  have hstarts : (signs.all fun l => l.spelling.head?.any fun d =>
      d ∈ plainSigns || d ∈ comparisonStarts) = true := by decide
  by_contra hsome
  obtain ⟨l, hl⟩ := Option.ne_none_iff_exists'.mp hsome
  obtain ⟨hmem, after, hafter⟩ := mem_signs_of_sign? hl
  have hstart := List.all_eq_true.mp hstarts l hmem
  rcases hspelling : l.spelling with - | ⟨d, tail⟩
  · rw [hspelling] at hstart
    cases hstart
  · rw [hspelling, List.cons_append] at hafter
    obtain rfl := (List.cons.inj hafter).1
    rw [hspelling] at hstart
    simp [hc, hc'] at hstart

theorem not_mem_toLower {signs : List Char} (hsigns : signs.any Char.isAlpha = false) {c : Char}
    (hc : c ∉ signs) : c.toLower ∉ signs := by
  intro hmem
  have hsign : c.toLower.isAlpha = false := by
    simpa using List.any_eq_false.mp hsigns _ hmem
  rw [← (Text.toLower_eq_iff hsign).mp rfl] at hmem
  exact hc hmem

/-- No sign has letters in it. -/
theorem sign?_map_toLower (text : List Char) : sign? (text.map Char.toLower) = sign? text := by
  cases text with
  | nil => rfl
  | cons c rest =>
    by_cases hc : c ∈ plainSigns
    · simp only [plainSigns, List.mem_cons, List.not_mem_nil, or_false] at hc
      rcases hc with rfl | rfl | rfl | rfl | rfl | rfl | rfl | rfl | rfl | rfl <;> rfl
    · by_cases hstart : c ∈ comparisonStarts
      · simp only [comparisonStarts, List.mem_cons, List.not_mem_nil, or_false] at hstart
        cases rest with
        | nil => rcases hstart with rfl | rfl | rfl | rfl <;> rfl
        | cons d tail =>
          have heq : d.toLower = '=' ↔ d = '=' := Text.toLower_eq_iff (by decide)
          have hgt : d.toLower = '>' ↔ d = '>' := Text.toLower_eq_iff (by decide)
          by_cases hd : d = '='
          · subst hd
            rcases hstart with rfl | rfl | rfl | rfl <;> rfl
          · by_cases hd' : d = '>'
            · subst hd'
              rcases hstart with rfl | rfl | rfl | rfl <;> rfl
            · rcases hstart with rfl | rfl | rfl | rfl <;> simp [sign?, hd, hd', heq, hgt]
      · rw [List.map_cons, sign?_eq_none hc hstart,
          sign?_eq_none (not_mem_toLower rfl hc) (not_mem_toLower rfl hstart)]

/-- **What is no quoted text is read the same in lower case**: the same kind of lexeme with the same
value and of the same length. -/
theorem first?_map_toLower (hcase : options.caseSensitive = false) (hquoted : quoted? text = none) :
    (first? options (text.map Char.toLower)).map content = (first? options text).map content := by
  have hquoted' : quoted? (text.map Char.toLower) = none := by
    rw [← Option.not_isSome_iff_eq_none, isSome_quoted?_map_toLower, hquoted]
    simp
  rw [first?, first?, hquoted, hquoted', Option.none_or, Option.none_or, Option.map_or,
    Option.map_or, Option.map_or, Option.map_or, number?_map_toLower, name?_map_toLower hcase,
    sign?_map_toLower]

/-! ### Where lexemes end -/

/-- Whether a text starts with a spelling that has no quote in it. -/
def IsUnquotedStart (spelling text : List Char) : Prop :=
  spelling <+: text ∧ ∀ c ∈ spelling, isQuote c = false

/-- Only a quoted text has a quote in it. -/
theorem isUnquotedStart_of_first? (h : first? options text = some l)
    (hquoted : quoted? text = none) : IsUnquotedStart l.spelling text := by
  obtain ⟨after, rfl, hl⟩ := startsWith_of_first? h
  refine ⟨List.prefix_append _ _, ?_⟩
  rcases hl.isPlain_or with hplain | hquotation
  · exact fun c hc => isQuote_of_isPlain (hplain c hc)
  · rw [hquotation] at hquoted
    cases hquoted

theorem quoted?_spelling_ne_nil (h : quoted? text = some l) : l.spelling ≠ [] := by
  unfold quoted? at h
  split at h
  · split at h
    · obtain ⟨p, -, rfl⟩ := Option.map_eq_some_iff.mp h
      exact List.cons_ne_nil _ _
    · cases h
  · cases h

/-! ### Texts without letter case -/

/-- A text with its ASCII letters in lower case, but for those in quoted texts. -/
def uncased (text : List Char) : List Char :=
  match text with
  | [] => []
  | c :: rest =>
    match _hquoted : quoted? (c :: rest) with
    | some l => l.spelling ++ uncased ((c :: rest).drop l.spelling.length)
    | none => c.toLower :: uncased rest
termination_by text.length
decreasing_by
  · have := List.length_pos_iff.mpr (quoted?_spelling_ne_nil _hquoted)
    simp only [List.length_drop, List.length_cons]
    omega
  · simp

@[simp] theorem uncased_nil : uncased [] = [] := by rw [uncased]

/-- A quoted text is left alone. -/
theorem uncased_of_quoted? (h : quoted? text = some l) :
    uncased text = l.spelling ++ uncased (text.drop l.spelling.length) := by
  cases text with
  | nil => cases h
  | cons c rest =>
    rw [uncased]
    split
    · next found hfound =>
      rw [h] at hfound
      obtain rfl := Option.some.inj hfound
      rfl
    · next hnone =>
      rw [h] at hnone
      cases hnone

theorem uncased_cons {c : Char} {rest : List Char} (h : quoted? (c :: rest) = none) :
    uncased (c :: rest) = c.toLower :: uncased rest := by
  rw [uncased]
  split
  · next found hfound =>
    rw [h] at hfound
    cases hfound
  · rfl

theorem quoted?_eq_none {c : Char} (h : isQuote c = false) (rest : List Char) :
    quoted? (c :: rest) = none := by
  rw [isQuote, Bool.or_eq_false_iff, beq_eq_false_iff_ne, beq_eq_false_iff_ne] at h
  rw [quoted?, if_neg (not_or.mpr h)]

/-- Only letter case is taken from a text. -/
theorem map_toLower_uncased (text : List Char) :
    (uncased text).map Char.toLower = text.map Char.toLower := by
  fun_induction uncased text with
  | case1 => rfl
  | case2 c rest l hquoted ih =>
    rw [List.map_append, ih, ← List.map_append,
      List.prefix_iff_eq_append.mp (quoted?_append hquoted).1]
  | case3 c rest hquoted ih =>
    rw [List.map_cons, List.map_cons, ih, Text.toLower_toLower]

theorem drop_uncased {spelling text : List Char} (h : IsUnquotedStart spelling text) :
    (uncased text).drop spelling.length = uncased (text.drop spelling.length) := by
  obtain ⟨⟨rest, rfl⟩, hquote⟩ := h
  rw [List.drop_left]
  induction spelling with
  | nil => rfl
  | cons c spelling ih =>
    rw [List.cons_append, uncased_cons (quoted?_eq_none (hquote c List.mem_cons_self) _),
      List.length_cons, List.drop_succ_cons]
    exact ih fun d hd => hquote d (List.mem_cons_of_mem c hd)

/-- **What is no quoted text is read the same without letter case.** -/
theorem first?_uncased (hcase : options.caseSensitive = false) (hquoted : quoted? text = none) :
    (first? options (uncased text)).map content = (first? options text).map content := by
  have hquoted' : quoted? (uncased text) = none := by
    rw [← Option.not_isSome_iff_eq_none, ← isSome_quoted?_map_toLower, map_toLower_uncased,
      isSome_quoted?_map_toLower, hquoted]
    simp
  rw [← first?_map_toLower hcase hquoted', map_toLower_uncased, first?_map_toLower hcase hquoted]

end Lexeme

namespace Token

variable {options : LexerOptions}

theorem toOption_map {α β : Type} (f : α → β) (x : Except Error α) :
    (f <$> x).toOption = x.toOption.map f := by
  cases x with
  | error e => rfl
  | ok a => rfl

/-- **Letter case outside of quoted texts does not change the tokens**, where it does not count. -/
theorem toOption_scanFrom_uncased (hcase : options.caseSensitive = false) (whole whole' : String)
    (position : Nat) (text : List Char) :
    (scanFrom options whole' position (Lexeme.uncased text)).toOption =
      (scanFrom options whole position text).toOption := by
  fun_induction scanFrom options whole position text with
  | case1 => rw [Lexeme.uncased_nil, scanFrom]
  | case2 position c rest hblank ih =>
    have hquote := Lexeme.isQuote_eq_false (by decide) (by decide) c hblank
    rw [Lexeme.uncased_cons (Lexeme.quoted?_eq_none hquote rest), Text.toLower_of_isBlank hblank,
      scanFrom_of_isBlank hblank, ih]
  | case3 position c rest hblank hnone =>
    have hquoted : Lexeme.quoted? (c :: rest) = none := by
      rw [Lexeme.first?, Option.or_eq_none_iff, Option.or_eq_none_iff] at hnone
      exact hnone.2.1
    have hnone' := Lexeme.first?_uncased hcase hquoted
    rw [hnone, Option.map_none, Option.map_eq_none_iff] at hnone'
    rw [Lexeme.uncased_cons hquoted] at hnone' ⊢
    rw [scanFrom_of_first?_eq_none (by simpa [Text.isBlank_toLower] using hblank) hnone']
    rfl
  | case4 position c rest hblank l hl ih =>
    -- a text in quotes keeps its case; every other lexeme is recased with the rest
    rcases hquoted : Lexeme.quoted? (c :: rest) with - | quoted
    · have hcontent := Lexeme.first?_uncased hcase hquoted
      rw [hl, Option.map_some, Option.map_eq_some_iff] at hcontent
      obtain ⟨l', hl', hcontent⟩ := hcontent
      simp only [Lexeme.content, Prod.mk.injEq] at hcontent
      obtain ⟨hkind, hvalue, hlength⟩ := hcontent
      have htoken : ofLexeme l' position = ofLexeme l position := by
        rw [ofLexeme, ofLexeme, hkind, hvalue]
      rw [scanFrom_of_first? hl', toOption_map, htoken, hlength,
        Lexeme.drop_uncased (Lexeme.isUnquotedStart_of_first? hl hquoted), ih, ← toOption_map]
      rfl
    · obtain rfl : l = quoted :=
        Option.some.inj (hl.symm.trans (Lexeme.first?_of_quoted? hquoted))
      have hl' : Lexeme.first? options (l.spelling ++ _) = some l :=
        Lexeme.first?_of_quoted? ((Lexeme.quoted?_append hquoted).2
          (Lexeme.uncased ((c :: rest).drop l.spelling.length)))
      rw [Lexeme.uncased_of_quoted? hquoted, scanFrom_lexeme hl', toOption_map, ih, ← toOption_map]
      rfl

/-- Whether two texts are the same but for the case of ASCII letters outside of quoted texts. -/
def AreRecased (text text' : String) : Prop :=
  Lexeme.uncased text.toList = Lexeme.uncased text'.toList

/-- The lexer fails for a character only. -/
theorem exists_unexpected_of_scanFrom {whole : String} {position : Nat} {text : List Char}
    {fault : Error} (h : scanFrom options whole position text = .error fault) :
    ∃ c place, fault = .unexpectedCharacter c place whole := by
  fun_induction scanFrom options whole position text with
  | case1 => cases h
  | case2 position c rest hblank ih => exact ih h
  | case3 position c rest hblank hnone => exact ⟨c, position, (Except.error.inj h).symm⟩
  | case4 position c rest hblank l hl ih =>
    rcases hrest : scanFrom options whole (position + l.spelling.length)
      ((c :: rest).drop l.spelling.length) with fault' | tokens
    · rw [hrest] at h
      obtain rfl := Except.error.inj h
      exact ih hrest
    · rw [hrest] at h
      cases h

/-- **Texts that are the same but for letter case have the same tokens at the same places, or
neither has tokens.** -/
theorem scan_of_areRecased (hcase : options.caseSensitive = false) {text text' : String}
    (h : AreRecased text text') :
    (scan options text').toOption = (scan options text).toOption := by
  rw [scan, scan, ← toOption_scanFrom_uncased hcase text text 0 text.toList, h,
    toOption_scanFrom_uncased hcase text' text 0 text'.toList]

/-- Without the same tokens both texts have a character that no token starts with. -/
theorem scan_eq_or (hcase : options.caseSensitive = false) {text text' : String}
    (h : AreRecased text text') : scan options text' = scan options text ∨
      (∃ c place, scan options text = .error (.unexpectedCharacter c place text)) ∧
        ∃ c place, scan options text' = .error (.unexpectedCharacter c place text') := by
  have hsame := scan_of_areRecased hcase h
  rcases hscan : scan options text with fault | tokens <;>
    rcases hscan' : scan options text' with fault' | tokens' <;>
    simp only [hscan, hscan', Except.toOption, Option.some.injEq, reduceCtorEq] at hsame
  · obtain ⟨c, place, rfl⟩ := exists_unexpected_of_scanFrom hscan
    obtain ⟨c', place', rfl⟩ := exists_unexpected_of_scanFrom hscan'
    exact .inr ⟨⟨c, place, rfl⟩, c', place', rfl⟩
  · exact .inl (congrArg Except.ok hsame)

end Token

/-- **Texts that are the same but for letter case form the same expression, or both fail**: both at
a character that no token starts with, or both with the same fault. -/
theorem Expr.ofText_eq_or {lexer : LexerOptions} (hcase : lexer.caseSensitive = false)
    {text text' : String} (h : Token.AreRecased text text') (parser : ParserOptions) :
    Expr.ofText lexer parser text' = Expr.ofText lexer parser text ∨
      (∃ c place, Expr.ofText lexer parser text = .error (.unexpectedCharacter c place text)) ∧
        ∃ c place, Expr.ofText lexer parser text' =
          .error (.unexpectedCharacter c place text') := by
  rw [ofText, ofText]
  rcases Token.scan_eq_or hcase h with hsame | ⟨⟨c, place, hfails⟩, c', place', hfails'⟩
  · exact .inl (by rw [hsame])
  · exact .inr ⟨⟨c, place, by rw [hfails]; rfl⟩, c', place', by rw [hfails']; rfl⟩

end Formulary

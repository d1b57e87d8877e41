import Formulary.Proofs.Text.LetterCase
import Formulary.Token.Lexer

/-!
# What the readers of lexemes make of a text

For each kind of lexeme: a text that begins as such a lexeme is written has that lexeme at its
start, whatever comes after it, as long as what comes after does not go on with it. Digits and names
end where a text `EndsWord`, a quoted text ends by itself, and a sign of one character ends before
anything that is not the second character of a comparison.

`Token.scanFrom_lexeme` takes a lexeme off the text that is left.
-/

namespace Formulary

namespace Text

/-! ### ASCII characters -/

/-- What holds of each of the first code points holds of each ASCII character. -/
theorem forall_ascii {P : Char → Prop} (h : ∀ n, n < 0x80 → P (Char.ofNat n)) {c : Char}
    (hc : c.toNat < 0x80) : P c := by
  have := h c.toNat hc
  rwa [Char.ofNat_toNat] at this

theorem ascii_of_isAlphanum {c : Char} (h : c.isAlphanum = true) : c.toNat < 0x80 := by
  simp only [Char.isAlphanum, Char.isAlpha, Char.isUpper, Char.isLower, Char.isDigit,
    Bool.or_eq_true, Bool.and_eq_true, decide_eq_true_eq, UInt32.le_iff_toNat_le] at h
  simp only [Char.toNat]
  grind

theorem isDigit_of_isAlpha {c : Char} (h : c.isAlpha = true) : c.isDigit = false :=
  forall_ascii (P := fun c => c.isAlpha = true → c.isDigit = false) (by decide)
    (ascii_of_isAlphanum (by simp [Char.isAlphanum, h])) h

theorem digitValue?_of_isDigit {c : Char} (h : c.isDigit = true) :
    digitValue? c = some (c.toNat - '0'.toNat) :=
  forall_ascii (P := fun c => c.isDigit = true → digitValue? c = some (c.toNat - '0'.toNat))
    (by decide) (ascii_of_isAlphanum (by simp [Char.isAlphanum, h])) h

/-- No digit is blank, in any script. -/
theorem isBlank_of_isDigit {c : Char} (h : isDigit c = true) : isBlank c = false := by
  have hapart : (zeros.all fun first => blankRuns.all fun run =>
      run.2.blt first || (first + 9).blt run.1) = true := by decide
  rw [isDigit, digitValue?, Option.isSome_map, Option.isSome_iff_exists] at h
  obtain ⟨first, hfirst⟩ := h
  have hdigit := List.find?_some hfirst
  rw [Bool.and_eq_true, decide_eq_true_eq, decide_eq_true_eq] at hdigit
  by_contra hblank
  rw [Bool.not_eq_false, isBlank, inRuns_iff] at hblank
  obtain ⟨run, hrun, hlow, hhigh⟩ := hblank
  have := List.all_eq_true.mp (List.all_eq_true.mp hapart first
    (List.mem_of_find?_eq_some hfirst)) run hrun
  rw [Bool.or_eq_true, Nat.blt_eq, Nat.blt_eq] at this
  omega

/-- The digits of a number spell it. -/
theorem naturalOf_toDigits (n : Nat) : naturalOf (Nat.toDigits 10 n) = n := by
  -- both folds are the same from any start, which the induction needs
  have hfold : ∀ (digits : List Char) (start : Nat), (∀ c ∈ digits, c.isDigit = true) →
      digits.foldl (fun n c => 10 * n + (digitValue? c).getD 0) start =
        Nat.ofDigitChars 10 digits start := by
    intro digits
    induction digits with
    | nil => exact fun _ _ => rfl
    | cons c rest ih =>
      intro start hdigits
      rw [List.foldl_cons, digitValue?_of_isDigit (hdigits c List.mem_cons_self),
        ih _ fun d hd => hdigits d (List.mem_cons_of_mem _ hd)]
      rfl
  rw [naturalOf, hfold _ _ fun c hc => Nat.isDigit_of_mem_toDigits (by decide) (by decide) hc,
    Nat.ofDigitChars_ten_toDigits]

/-! ### Letter case of ASCII texts -/

theorem lowerAfter_ascii {text : List Char} (h : ∀ c ∈ text, c.toNat < 0x80)
    (before : List Char) : lowerAfter before text = text.map Char.toLower := by
  induction text generalizing before with
  | nil => rfl
  | cons c rest ih =>
    have hc := h c List.mem_cons_self
    have hsigma : c ≠ 'Σ' := fun hc' => absurd hc (by rw [hc']; decide)
    rw [lowerAfter, if_neg hsigma, lowerChar_ascii hc,
      ih fun d hd => h d (List.mem_cons_of_mem _ hd)]
    rfl

theorem upper_ascii {text : List Char} (h : ∀ c ∈ text, c.toNat < 0x80) :
    upper text = text.map Char.toUpper := by
  induction text with
  | nil => rfl
  | cons c rest ih =>
    rw [upper, List.flatMap_cons, upperChar_ascii (h c List.mem_cons_self)]
    exact congrArg (c.toUpper :: ·) (ih fun d hd => h d (List.mem_cons_of_mem _ hd))

theorem isAlpha_of_toLower {c : Char} (h : c.toLower.isAlpha = true) : c.isAlpha = true := by
  rw [Char.toLower] at h
  split at h
  · next hc =>
    have hupper : c.isUpper = true := by simpa [Char.isUpper] using hc
    rw [Char.isAlpha, hupper, Bool.true_or]
  · exact h

end Text

/-! ### Names -/

/-- Whether a text is a name over a kind of letters: segments of letters, digits and underscores
with a point between each two, the first of which starts with no digit. -/
def IsName (isLetter : Char → Bool) (text : List Char) : Prop :=
  ∃ c first others, text = c :: (first ++ others.flatMap ('.' :: ·)) ∧ c.isDigit = false ∧
    ∀ segment ∈ (c :: first) :: others, segment ≠ [] ∧
      ∀ d ∈ segment, (isLetter d || d.isDigit || d == '_') = true

namespace IsName

variable {isLetter : Char → Bool} {name : List Char}

theorem ne_nil (h : IsName isLetter name) : name ≠ [] := by
  obtain ⟨c, first, others, rfl, -⟩ := h
  exact List.cons_ne_nil _ _

/-- Letters make a name. -/
theorem of_letters (hletter : ∀ c, isLetter c = true → c.isAlpha = true) (hne : name ≠ [])
    (h : ∀ c ∈ name, isLetter c = true) : IsName isLetter name := by
  obtain ⟨c, first, rfl⟩ := List.exists_cons_of_ne_nil hne
  refine ⟨c, first, [], by simp, ?_, ?_⟩
  · exact Text.isDigit_of_isAlpha (hletter c (h c List.mem_cons_self))
  · intro segment hsegment
    obtain rfl := List.mem_singleton.mp hsegment
    exact ⟨by simp, fun d hd => by rw [h d hd]; rfl⟩

theorem of_mem (h : IsName isLetter name) {d : Char} (hd : d ∈ name) :
    (isLetter d || d.isDigit || d == '_') = true ∨ d = '.' := by
  obtain ⟨c, first, others, rfl, -, hsegments⟩ := h
  rw [← List.cons_append, List.mem_append, List.mem_flatMap] at hd
  rcases hd with hd | ⟨segment, hsegment, hd⟩
  · exact .inl ((hsegments _ List.mem_cons_self).2 d hd)
  · rcases List.mem_cons.mp hd with rfl | hd
    · exact .inr rfl
    · exact .inl ((hsegments segment (List.mem_cons_of_mem _ hsegment)).2 d hd)

theorem ascii_of_mem (hletter : ∀ c, isLetter c = true → c.isAlpha = true)
    (h : IsName isLetter name) {c : Char} (hc : c ∈ name) : c.toNat < 0x80 := by
  rcases h.of_mem hc with hc | rfl
  · simp only [Bool.or_eq_true, beq_iff_eq] at hc
    rcases hc with (hc | hc) | rfl
    · exact Text.ascii_of_isAlphanum (by simp [Char.isAlphanum, hletter c hc])
    · exact Text.ascii_of_isAlphanum (by simp [Char.isAlphanum, hc])
    · decide
  · decide

/-- A name of small letters is in lower case. -/
theorem lower_eq (h : IsName Char.isLower name) : Text.lower name = name := by
  have hascii {c : Char} (hc : c ∈ name) : c.toNat < 0x80 :=
    h.ascii_of_mem (fun c hc => by simp [Char.isAlpha, hc]) hc
  have hlower : ∀ c ∈ name, c.toLower = c := fun c hc =>
    Text.forall_ascii (P := fun c => (c.isLower || c.isDigit || c == '_') = true ∨ c = '.' →
      c.toLower = c) (by decide) (hascii hc) (h.of_mem hc)
  rw [Text.lower, Text.lowerAfter_ascii fun c hc => hascii hc, List.map_congr_left hlower,
    List.map_id']

/-- A name of capital letters is in upper case. -/
theorem upper_eq (h : IsName Char.isUpper name) : Text.upper name = name := by
  have hascii {c : Char} (hc : c ∈ name) : c.toNat < 0x80 :=
    h.ascii_of_mem (fun c hc => by simp [Char.isAlpha, hc]) hc
  have hupper : ∀ c ∈ name, c.toUpper = c := fun c hc =>
    Text.forall_ascii (P := fun c => (c.isUpper || c.isDigit || c == '_') = true ∨ c = '.' →
      c.toUpper = c) (by decide) (hascii hc) (h.of_mem hc)
  rw [Text.upper_ascii fun c hc => hascii hc, List.map_congr_left hupper, List.map_id']

end IsName

namespace Lexeme

variable {options : LexerOptions} {rest : List Char}

/-! ### The end of a word -/

/-- The characters that come after an operand. -/
def enders : List Char := [')', ',', '+', '-', '*', '/', '%', '^', '&', '=', '<', '>']

/-- Whether numbers and names end before a text, and the name is no function's: it is empty, or it
starts with spaces and what comes after an operand. -/
def EndsWord (rest : List Char) : Prop :=
  ∃ gap tail, rest = List.replicate gap ' ' ++ tail ∧ ∀ c ∈ tail.head?, c ∈ enders

theorem endsWord_nil : EndsWord [] := ⟨0, [], rfl, by simp⟩

theorem endsWord_cons {c : Char} (h : c ∈ enders) (tail : List Char) : EndsWord (c :: tail) :=
  ⟨0, c :: tail, rfl, by simpa using h⟩

theorem endsWord_close (tail : List Char) : EndsWord (')' :: tail) :=
  endsWord_cons (by decide) tail

namespace EndsWord

theorem spaces (h : EndsWord rest) (gap : Nat) : EndsWord (List.replicate gap ' ' ++ rest) := by
  obtain ⟨more, tail, rfl, htail⟩ := h
  exact ⟨gap + more, tail, by rw [List.replicate_add, List.append_assoc], htail⟩

theorem head_mem {c : Char} (h : EndsWord (c :: rest)) : c ∈ ' ' :: enders := by
  obtain ⟨gap, tail, hrest, htail⟩ := h
  cases gap with
  | zero =>
    rw [List.replicate_zero, List.nil_append] at hrest
    exact List.mem_cons_of_mem _ (htail c (by rw [← hrest]; rfl))
  | succ gap =>
    obtain ⟨rfl, -⟩ := List.cons.inj hrest
    exact List.mem_cons_self

theorem head_eq_false {c : Char} (h : EndsWord (c :: rest)) :
    continuesName c = false ∧ Text.isDigit c = false ∧ c ≠ '.' := by
  have hall : ((' ' :: enders).all fun c =>
      !continuesName c && !Text.isDigit c && c != '.') = true := by decide
  have hc := List.all_eq_true.mp hall c h.head_mem
  simpa [and_assoc] using hc

/-- A name goes no further. -/
theorem nameTail_eq_nil (h : EndsWord rest) : nameTail rest = [] := by
  cases rest with
  | nil => rfl
  | cons c rest =>
    obtain ⟨hword, -, hpoint⟩ := h.head_eq_false
    simp [nameTail, hword, hpoint]

/-- A name is no function's. -/
theorem opensCall_eq_false (h : EndsWord rest) : opensCall rest = false := by
  obtain ⟨gap, tail, rfl, htail⟩ := h
  rw [opensCall, List.dropWhile_append_of_pos fun c hc => by
    rw [List.eq_of_mem_replicate hc]; decide]
  cases tail with
  | nil => rfl
  | cons c tail =>
    have hall : (enders.all fun c => !Text.isBlank c && c != '(') = true := by decide
    have hc := List.all_eq_true.mp hall c (htail c rfl)
    simp only [Bool.and_eq_true, Bool.not_eq_true', bne_iff_ne] at hc
    simp [hc.1, hc.2]

end EndsWord

/-! ### Numbers -/

/-- The digits of a number are its numeral. -/
theorem number?_digits (n : Nat) (h : EndsWord rest) :
    number? (Nat.toDigits 10 n ++ rest) = some ⟨.number, .int n, Nat.toDigits 10 n⟩ := by
  have hdigits : ∀ c ∈ Nat.toDigits 10 n, Text.isDigit c = true := fun c hc => by
    rw [Text.isDigit, Text.digitValue?_of_isDigit
      (Nat.isDigit_of_mem_toDigits (by decide) (by decide) hc)]
    rfl
  have hnumeral : numeral? (Nat.toDigits 10 n ++ rest) = some ⟨Nat.toDigits 10 n, none, none⟩ := by
    rw [numeral?, List.takeWhile_append_of_pos hdigits, List.dropWhile_append_of_pos hdigits]
    cases rest with
    | nil => simp [exponent?]
    | cons c rest =>
      -- neither a fraction nor an exponent comes after the digits
      obtain ⟨hword, hdigit, hpoint⟩ := h.head_eq_false
      have hmark : ¬ (c = 'e' ∨ c = 'E') := by
        rintro (rfl | rfl) <;> exact absurd hword (by decide)
      simp only [List.takeWhile_cons, List.dropWhile_cons, hdigit, Bool.false_eq_true, if_false,
        List.append_nil]
      split
      · next heq => exact absurd (List.cons.inj heq).1 hpoint
      · simp [exponent?, hmark]
  rw [number?, hnumeral, Option.map_some]
  simp [Numeral.value, Numeral.spelling, Text.naturalOf_toDigits]

/-- A text that starts with neither a digit nor a point has no number at its start. -/
theorem number?_eq_none {c : Char} (hdigit : Text.isDigit c = false) (hpoint : c ≠ '.') :
    number? (c :: rest) = none := by
  simp only [number?, numeral?, List.takeWhile_cons, List.dropWhile_cons, hdigit,
    Bool.false_eq_true, if_false]
  split
  · next heq => exact absurd (List.cons.inj heq).1 hpoint
  · rfl

/-! ### Quoted texts -/

/-- How a text may be spelt between quotes: a backslash makes the next character stand for itself,
which a line feed cannot, and the quote and the backslash stand for themselves only so. -/
inductive Quotes (quote : Char) : List Char → List Char → Prop
  | nil : Quotes quote [] []
  | plain {c : Char} {meant spelt : List Char} (hquote : c ≠ quote) (hback : c ≠ '\\')
      (h : Quotes quote meant spelt) : Quotes quote (c :: meant) (c :: spelt)
  | escaped {c : Char} {meant spelt : List Char} (hline : c ≠ '\n')
      (h : Quotes quote meant spelt) : Quotes quote (c :: meant) ('\\' :: c :: spelt)

theorem untilQuote_quote (quote : Char) (rest : List Char) :
    untilQuote quote (quote :: rest) = some ([], [quote]) := by
  cases rest with
  | nil => rw [untilQuote, if_pos rfl]
  | cons c rest => rw [untilQuote, if_pos rfl]

theorem untilQuote_of_quotes {quote : Char} (hback : quote ≠ '\\') {meant spelt : List Char}
    (h : Quotes quote meant spelt) (rest : List Char) :
    untilQuote quote (spelt ++ quote :: rest) = some (meant, spelt ++ [quote]) := by
  induction h with
  | nil => exact untilQuote_quote quote rest
  | @plain c meant spelt hquote hplain _ ih =>
    -- the reader looks at two characters; at least the quote comes after the first one
    obtain ⟨d, others, hd⟩ : ∃ d others, spelt ++ quote :: rest = d :: others := by
      cases spelt <;> exact ⟨_, _, rfl⟩
    rw [List.cons_append, hd, untilQuote, if_neg hquote, if_neg hplain, ← hd, ih]
    rfl
  | @escaped c meant spelt hline _ ih =>
    rw [List.cons_append, List.cons_append, untilQuote, if_neg hback.symm, if_pos rfl, if_neg hline,
      ih]
    rfl

/-- A text as it is written between double quotes: a backslash stands before each double quote and
each backslash. -/
def escaped (text : List Char) : List Char :=
  text.flatMap fun c => if c = '"' ∨ c = '\\' then ['\\', c] else [c]

theorem quotes_escaped (text : List Char) : Quotes '"' text (escaped text) := by
  induction text with
  | nil => exact .nil
  | cons c text ih =>
    rw [escaped, List.flatMap_cons]
    split
    · next hc => exact .escaped (by rintro rfl; simp at hc) ih
    · next hc =>
      rw [not_or] at hc
      exact .plain hc.1 hc.2 ih

theorem quoted?_escaped (text rest : List Char) :
    quoted? ('"' :: (escaped text ++ '"' :: rest)) =
      some ⟨.string, .text (String.ofList text), '"' :: (escaped text ++ ['"'])⟩ := by
  rw [quoted?, if_pos (.inl rfl), untilQuote_of_quotes (by decide) (quotes_escaped text)]
  rfl

/-! ### Names -/

section

variable {isLetter : Char → Bool} (hletter : ∀ c, isLetter c = true → c.isAlpha = true)
include hletter

theorem continuesName_of_isName {d : Char} (h : (isLetter d || d.isDigit || d == '_') = true) :
    continuesName d = true := by
  rw [Bool.or_eq_true, Bool.or_eq_true] at h
  rcases h with (h | h) | h
  · simp [continuesName, Char.isAlphanum, hletter d h]
  · simp [continuesName, Char.isAlphanum, h]
  · simp [continuesName, h]

omit hletter in
theorem nameTail_word {segment : List Char} (h : ∀ d ∈ segment, continuesName d = true) :
    nameTail (segment ++ rest) = segment ++ nameTail rest := by
  induction segment with
  | nil => rfl
  | cons c segment ih =>
    rw [List.cons_append, nameTail, h c List.mem_cons_self, Bool.true_or, if_pos rfl,
      ih fun d hd => h d (List.mem_cons_of_mem _ hd)]
    rfl

omit hletter in
theorem nameTail_segments {segments : List (List Char)}
    (h : ∀ segment ∈ segments, segment ≠ [] ∧ ∀ d ∈ segment, continuesName d = true) :
    nameTail (segments.flatMap ('.' :: ·) ++ rest) =
      segments.flatMap ('.' :: ·) ++ nameTail rest := by
  induction segments with
  | nil => rfl
  | cons segment segments ih =>
    obtain ⟨hne, hword⟩ := h segment List.mem_cons_self
    obtain ⟨d, segment, rfl⟩ := List.exists_cons_of_ne_nil hne
    have hd := hword d List.mem_cons_self
    rw [List.flatMap_cons, List.append_assoc, List.cons_append, nameTail]
    simp only [List.cons_append, List.head?_cons, Option.any_some, hd, beq_self_eq_true,
      Bool.and_self, Bool.or_true, if_true]
    rw [← List.cons_append, nameTail_word hword, ih fun s hs => h s (List.mem_cons_of_mem _ hs)]
    simp

/-- A name is read with what goes on with it. -/
theorem nameTail_of_isName {c : Char} {tail : List Char} (h : IsName isLetter (c :: tail)) :
    startsName c = true ∧ nameTail (tail ++ rest) = tail ++ nameTail rest := by
  obtain ⟨c', first, others, heq, hdigit, hsegments⟩ := h
  obtain ⟨rfl, rfl⟩ := List.cons.inj heq
  have hwords : ∀ segment ∈ (c :: first) :: others, segment ≠ [] ∧
      ∀ d ∈ segment, continuesName d = true := fun segment hsegment =>
    ⟨(hsegments segment hsegment).1, fun d hd =>
      continuesName_of_isName hletter ((hsegments segment hsegment).2 d hd)⟩
  constructor
  · have hc := (hsegments _ List.mem_cons_self).2 c List.mem_cons_self
    rw [hdigit, Bool.or_false, Bool.or_eq_true] at hc
    rw [startsName, Bool.or_eq_true]
    exact hc.imp_left (hletter c)
  · rw [List.append_assoc, nameTail_word fun d hd =>
      (hwords _ List.mem_cons_self).2 d (List.mem_cons_of_mem _ hd),
      nameTail_segments fun s hs => hwords s (List.mem_cons_of_mem _ hs), List.append_assoc]

/-- A name is read whole. -/
theorem name?_of_isName (options : LexerOptions) {text : List Char} (h : IsName isLetter text)
    (hrest : nameTail rest = []) :
    name? options (text ++ rest) =
      some ⟨(nameToken options text (opensCall rest)).1,
        (nameToken options text (opensCall rest)).2, text⟩ := by
  obtain ⟨c, tail, rfl⟩ := List.exists_cons_of_ne_nil h.ne_nil
  obtain ⟨hstarts, htail⟩ : startsName c = true ∧ nameTail (tail ++ rest) = tail ++ nameTail rest :=
    nameTail_of_isName hletter h
  rw [hrest, List.append_nil] at htail
  rw [List.cons_append, name?, if_pos hstarts, htail]
  simp only [List.drop_left]

end

/-! ### Signs -/

/-- The kind of the token of an operator. -/
def kindOf (op : Operator) : Token.Kind :=
  if op ∈ [Operator.eq, .ne, .lt, .gt, .le, .ge] then .comparator else .operator

/-- The symbol of an operator is read as its sign before anything that does not make another
comparison of it. -/
theorem sign?_symbol (op : Operator) (h : ∀ c ∈ rest.head?, c ≠ '=' ∧ c ≠ '>') :
    sign? (op.symbol.toList ++ rest) = some (sign (kindOf op) op.symbol op.symbol) := by
  cases rest with
  | nil => cases op <;> rfl
  | cons c rest =>
    obtain ⟨heq, hgt⟩ := h c rfl
    cases op <;> first | rfl | simp [sign?, Operator.symbol, heq, hgt, kindOf]

/-! ### All kinds -/

section

variable {c : Char} {l : Lexeme}

/-- What starts a name starts nothing else. -/
theorem apart_of_startsName (h : startsName c = true) :
    Text.isDigit c = false ∧ Text.isBlank c = false ∧ c ≠ '.' ∧ c ≠ '"' ∧ c ≠ '\'' := by
  have hascii : c.toNat < 0x80 := by
    rw [startsName, Bool.or_eq_true, beq_iff_eq] at h
    rcases h with h | rfl
    · exact Text.ascii_of_isAlphanum (by simp [Char.isAlphanum, h])
    · decide
  exact Text.forall_ascii (P := fun c => startsName c = true → Text.isDigit c = false ∧
    Text.isBlank c = false ∧ c ≠ '.' ∧ c ≠ '"' ∧ c ≠ '\'') (by decide) hascii h

theorem startsName_of_name? (h : name? options (c :: rest) = some l) : startsName c = true := by
  by_contra hstarts
  rw [name?, if_neg hstarts] at h
  cases h

theorem quote_of_quoted? (h : quoted? (c :: rest) = some l) : c = '"' ∨ c = '\'' := by
  by_contra hquote
  rw [quoted?, if_neg hquote] at h
  cases h

/-- What starts a sign starts nothing else. -/
theorem apart_of_sign? (h : sign? (c :: rest) = some l) :
    Text.isDigit c = false ∧ Text.isBlank c = false ∧ c ≠ '.' ∧ c ≠ '"' ∧ c ≠ '\'' ∧
      startsName c = false := by
  unfold sign? at h
  split at h
  case h_19 => cases h
  all_goals
    next heq =>
      obtain ⟨rfl, -⟩ := List.cons.inj heq
      decide

theorem first?_of_number? {text : List Char} (h : number? text = some l) :
    first? options text = some l := by
  rw [first?, h, Option.some_or]

theorem first?_of_quoted? {text : List Char} (h : quoted? text = some l) :
    first? options text = some l := by
  cases text with
  | nil => cases h
  | cons c rest =>
    have hnumber : number? (c :: rest) = none := by
      rcases quote_of_quoted? h with rfl | rfl <;> exact number?_eq_none (by decide) (by decide)
    rw [first?, hnumber, h, Option.none_or, Option.some_or]

theorem first?_of_name? {text : List Char} (h : name? options text = some l) :
    first? options text = some l := by
  cases text with
  | nil => cases h
  | cons c rest =>
    obtain ⟨hdigit, -, hpoint, hquote, hquote'⟩ := apart_of_startsName (startsName_of_name? h)
    have hquoted : quoted? (c :: rest) = none := by simp [quoted?, hquote, hquote']
    rw [first?, number?_eq_none hdigit hpoint, hquoted, h, Option.none_or, Option.none_or,
      Option.some_or]

theorem first?_of_sign? {text : List Char} (h : sign? text = some l) :
    first? options text = some l := by
  cases text with
  | nil => cases h
  | cons c rest =>
    obtain ⟨hdigit, -, hpoint, hquote, hquote', hname⟩ := apart_of_sign? h
    rw [first?, number?_eq_none hdigit hpoint, h]
    simp [quoted?, name?, hquote, hquote', hname]

/-- No lexeme starts with a blank. -/
theorem isBlank_of_first? (h : first? options (c :: rest) = some l) :
    Text.isBlank c = false := by
  simp only [first?, Option.or_eq_some_iff] at h
  rcases h with h | ⟨-, h | ⟨-, h | ⟨-, h⟩⟩⟩
  · by_contra hblank
    have hdigit : Text.isDigit c = false := by
      by_contra hdigit
      exact hblank (Text.isBlank_of_isDigit (by simpa using hdigit))
    rw [number?_eq_none hdigit (by rintro rfl; exact hblank (by decide))] at h
    cases h
  · rcases quote_of_quoted? h with rfl | rfl <;> decide
  · exact (apart_of_startsName (startsName_of_name? h)).2.1
  · exact (apart_of_sign? h).2.1

end

end Lexeme

/-! ### Taking lexemes off a text -/

namespace Token

variable {options : LexerOptions} {whole : String} {position : Nat} {rest : List Char}

theorem scanFrom_of_isBlank {c : Char} (h : Text.isBlank c = true) :
    scanFrom options whole position (c :: rest) = scanFrom options whole (position + 1) rest := by
  rw [scanFrom, if_pos h]

/-- Blanks are passed over. -/
theorem scanFrom_blanks {blanks : List Char} (h : ∀ c ∈ blanks, Text.isBlank c = true) :
    scanFrom options whole position (blanks ++ rest) =
      scanFrom options whole (position + blanks.length) rest := by
  induction blanks generalizing position with
  | nil => rfl
  | cons c blanks ih =>
    rw [List.cons_append, scanFrom_of_isBlank (h c List.mem_cons_self),
      ih fun d hd => h d (List.mem_cons_of_mem c hd), List.length_cons, Nat.add_right_comm]
    rfl

theorem scanFrom_of_first?_eq_none {c : Char} (hblank : Text.isBlank c = false)
    (h : Lexeme.first? options (c :: rest) = none) :
    scanFrom options whole position (c :: rest) =
      .error (.unexpectedCharacter c position whole) := by
  rw [scanFrom, hblank]
  simp only [Bool.false_eq_true, if_false]
  split
  · rfl
  · next found hfound =>
    rw [h] at hfound
    cases hfound

/-- The lexeme at the start of a text is taken off it. -/
theorem scanFrom_of_first? {text : List Char} {l : Lexeme}
    (h : Lexeme.first? options text = some l) :
    scanFrom options whole position text = (ofLexeme l position :: ·) <$>
      scanFrom options whole (position + l.spelling.length) (text.drop l.spelling.length) := by
  cases text with
  | nil => cases h
  | cons c rest =>
    rw [scanFrom, Lexeme.isBlank_of_first? h]
    simp only [Bool.false_eq_true, if_false]
    split
    · next hnone =>
      rw [h] at hnone
      cases hnone
    · next found hfound =>
      rw [h] at hfound
      obtain rfl := Option.some.inj hfound
      rfl

theorem scanFrom_lexeme {l : Lexeme} (h : Lexeme.first? options (l.spelling ++ rest) = some l) :
    scanFrom options whole position (l.spelling ++ rest) = (ofLexeme l position :: ·) <$>
      scanFrom options whole (position + l.spelling.length) rest := by
  rw [scanFrom_of_first? h, List.drop_left]

end Token

end Formulary

import Formulary.Function.Registry
import Formulary.Proofs.Expr.Completeness
import Formulary.Proofs.Token.Lexeme

/-!
# Expressions that are written are read back

`Expr.written` writes an expression as a text: negations, binary operations and negative integers in
parentheses, texts in double quotes, calls with their arguments after the name. The spaces beside
operators and after commas and the letter case of the truth values are free (`Style`). What can be
written is `Expr.IsWritable`: whatever the parser can give for a text, without floating-point
numbers and without literals that a minus would change.

The induction is over the expression. Its text, before anything that ends a word, is scanned to
tokens that derive it as a primary expression (`Expr.IsWritable.scans`), so it does not matter what
it is written into. The parser then gives it back because it gives what is derived
(`Expr.ofText_written`).
-/

namespace Formulary

/-! ### Writing -/

/-- A way of writing expressions: how many spaces stand beside operators and after commas, and which
letters of the truth values are capital. -/
structure Style where
  gap : Nat
  truth : Bool → List Char
  lower_truth : ∀ b, (truth b).map Char.toLower = (if b then "true" else "false").toList

namespace Style

/-- One space and capital letters. -/
def spaced : Style := ⟨1, fun b => (if b then "TRUE" else "FALSE").toList, by decide⟩

/-- The spaces of a style. -/
def spaces (style : Style) : List Char := List.replicate style.gap ' '

/-- A literal. -/
def literal (style : Style) : Value → List Char
  | .bool b => style.truth b
  | .int (.ofNat n) => Nat.toDigits 10 n
  | .int (.negSucc n) => '(' :: '-' :: (Nat.toDigits 10 (n + 1) ++ [')'])
  | .text s => '"' :: (Lexeme.escaped s.toList ++ ['"'])
  | _ => []

/-- Texts with a comma between each two. -/
def separated (style : Style) : List (List Char) → List Char
  | [] => []
  | [text] => text
  | text :: texts => text ++ ',' :: (style.spaces ++ style.separated texts)

/-- A name with its arguments. -/
def applied (style : Style) (name : String) (texts : List (List Char)) : List Char :=
  name.toList ++ '(' :: (style.separated texts ++ [')'])

end Style

mutual

/-- An expression as it is written. -/
def Expr.written (style : Style) : Expr → List Char
  | .literal v => style.literal v
  | .identifier name => name.toList
  | .keyed _ => []
  | .negation e => '(' :: '-' :: (e.written style ++ [')'])
  | .binary op l r =>
    '(' :: (l.written style ++ (style.spaces ++ (op.symbol.toList ++
      (style.spaces ++ (r.written style ++ [')'])))))
  | .call f args => style.applied f.name (Expr.writtenAll style args)
  | .choice c t e => style.applied "IF" [c.written style, t.written style, e.written style]
  | .given .. | .asking .. => []

/-- Expressions as they are written one by one. -/
def Expr.writtenAll (style : Style) : List Expr → List (List Char)
  | [] => []
  | e :: es => e.written style :: Expr.writtenAll style es

end

/-- The expressions that can be written, where functions are known by their names. -/
inductive Expr.IsWritable (find? : String → Option Function) : Expr → Prop
  | bool (b : Bool) : IsWritable find? (.literal (.bool b))
  | int (n : Int) : IsWritable find? (.literal (.int n))
  | text (s : String) : IsWritable find? (.literal (.text s))
  | identifier {name : String} (hname : IsName Char.isLower name.toList) (htrue : name ≠ "true")
    (hfalse : name ≠ "false") : IsWritable find? (.identifier name)
  | negation {e : Expr} (h : IsWritable find? e)
    (hliteral : ∀ v, e = .literal v → v.number? = none) : IsWritable find? (.negation e)
  | binary {l r : Expr} (op : Operator) (hl : IsWritable find? l) (hr : IsWritable find? r) :
    IsWritable find? (.binary op l r)
  | choice {c t e : Expr} (hc : IsWritable find? c) (ht : IsWritable find? t)
    (he : IsWritable find? e) : IsWritable find? (.choice c t e)
  | call {f : Function} {args : List Expr} (hname : IsName Char.isUpper f.name.toList)
    (hchoice : f.name ≠ "IF") (hf : find? f.name = some f)
    (haccepts : f.accepts args.length = true) (hargs : ∀ a ∈ args, IsWritable find? a) :
    IsWritable find? (.call f args)

/-! ### The truth values -/

namespace Style

variable (style : Style) (b : Bool)

theorem isAlpha_of_mem {c : Char} (h : c ∈ style.truth b) : c.isAlpha = true := by
  have hlower : c.toLower ∈ (style.truth b).map Char.toLower := List.mem_map_of_mem h
  have hall : ((if b then "true" else "false").toList.all Char.isAlpha) = true := by
    cases b <;> decide
  rw [style.lower_truth] at hlower
  exact Text.isAlpha_of_toLower (List.all_eq_true.mp hall _ hlower)

/-- A truth value is written as a name. -/
theorem isName_truth : IsName Char.isAlpha (style.truth b) := by
  refine .of_letters (fun _ hc => hc) (fun hnil => ?_) fun _ => style.isAlpha_of_mem b
  have hlower := style.lower_truth b
  rw [hnil] at hlower
  cases b <;> simp at hlower

end Style

/-! ### Scanning a part of a text -/

namespace Token

/-- Whether a text starts with tokens that have a property and goes on with the rest, wherever it
stands. -/
def Scans (text : List Char) (P : List Token → Prop) (rest : List Char) : Prop :=
  ∀ whole position, ∃ tokens next, P tokens ∧
    scanFrom .plain whole position text = (tokens ++ ·) <$> scanFrom .plain whole next rest

namespace Scans

variable {text middle rest : List Char} {P Q R : List Token → Prop}

theorem append (h : Scans text P middle) (h' : Scans middle Q rest)
    (hR : ∀ ts ts', P ts → Q ts' → R (ts ++ ts')) : Scans text R rest := by
  intro whole position
  obtain ⟨ts, next, hP, hscan⟩ := h whole position
  obtain ⟨ts', next', hQ, hscan'⟩ := h' whole next
  refine ⟨ts ++ ts', next', hR ts ts' hP hQ, ?_⟩
  rw [hscan, hscan', Functor.map_map]
  simp only [List.append_assoc]

theorem imp (h : Scans text P rest) (hR : ∀ ts, P ts → R ts) : Scans text R rest := by
  intro whole position
  obtain ⟨ts, next, hP, hscan⟩ := h whole position
  exact ⟨ts, next, hR ts hP, hscan⟩

theorem spaces (gap : Nat) (h : Scans text P rest) :
    Scans (List.replicate gap ' ' ++ text) P rest := by
  intro whole position
  rw [scanFrom_blanks fun c hc => by rw [List.eq_of_mem_replicate hc]; decide]
  exact h whole _

theorem nothing : Scans rest (· = []) rest := fun _ position =>
  ⟨[], position, rfl, by simp⟩

/-- One lexeme. -/
theorem lexeme {l : Lexeme} (h : Lexeme.first? .plain (l.spelling ++ rest) = some l) :
    Scans (l.spelling ++ rest) (fun ts => ∃ t, ts = [t] ∧ t.kind = l.kind ∧ t.value = l.value)
      rest :=
  fun _ position => ⟨[ofLexeme l position], _, ⟨_, rfl, rfl, rfl⟩, scanFrom_lexeme h⟩

/-- A sign and what comes after it. -/
theorem sign {kind : Token.Kind} (symbol : String) {meaning : String}
    (h : Lexeme.sign? (symbol.toList ++ middle) = some (Lexeme.sign kind symbol meaning))
    (hmiddle : Scans middle P rest)
    (hR : ∀ t ts, t.kind = kind → t.value = .text meaning → P ts → R (t :: ts)) :
    Scans (symbol.toList ++ middle) R rest := by
  refine (lexeme (l := Lexeme.sign kind symbol meaning)
    (Lexeme.first?_of_sign? h)).append hmiddle ?_
  rintro - ts ⟨t, rfl, hkind, hvalue⟩ hts
  exact hR t ts hkind hvalue hts

end Scans

end Token

/-! ### Scanning what is written -/

namespace Parser

open Token

variable {options : ParserOptions} {text rest : List Char} {e : Expr}

/-- An operator between two primary expressions. -/
theorem derives_binary {ts ts' : List Token} {t : Token} {l r : Expr} {op : Operator}
    (hl : Derives options .primary ts l) (hkind : t.kind = Lexeme.kindOf op)
    (hvalue : t.value = .text op.symbol) (hr : Derives options .primary ts' r) :
    Derives options .comparison (ts ++ t :: ts') (.binary op l r) := by
  have htext : t.value.text? = some op.symbol := by rw [hvalue]; rfl
  have hls : Derives options .signed ts l := .primary hl
  have hrs : Derives options .signed ts' r := .primary hr
  by_cases hcompare : op ∈ [Operator.eq, .ne, .lt, .gt, .le, .ge]
  · rw [Lexeme.kindOf, if_pos hcompare] at hkind
    exact .compare (.multiplicative (.power (.signed hls))) hkind htext
      (.multiplicative (.power (.signed hrs)))
  · rw [Lexeme.kindOf, if_neg hcompare] at hkind
    by_cases hadd : op ∈ [Operator.add, .sub, .concat]
    · exact .additive (.add (.multiplicative (.power (.signed hls))) hadd ⟨hkind, htext⟩
        (.power (.signed hrs)))
    · by_cases hmul : op ∈ [Operator.mul, .div, .mod]
      · exact .additive (.multiplicative (.multiply (.power (.signed hls)) hmul ⟨hkind, htext⟩
          (.signed hrs)))
      · obtain rfl : op = .pow := by
          cases op <;> first | rfl | exact absurd (by decide) hcompare |
            exact absurd (by decide) hadd | exact absurd (by decide) hmul
        exact .additive (.multiplicative (.power (.raise hls ⟨hkind, htext⟩ (.signed hrs))))

/-- The closing parenthesis of a text. -/
theorem scans_close {P : List Token → Prop} (h : Scans (text ++ ')' :: rest) P (')' :: rest)) :
    Scans (text ++ ')' :: rest)
      (fun ts => ∃ middle r, ts = middle ++ [r] ∧ r.kind = .rightParen ∧ P middle) rest := by
  have hclose : Lexeme.first? .plain (')' :: rest) = some (Lexeme.sign .rightParen ")" ")") :=
    Lexeme.first?_of_sign? rfl
  refine h.append (Scans.lexeme (l := Lexeme.sign .rightParen ")" ")") hclose) ?_
  rintro ts - hts ⟨r, rfl, hr, -⟩
  exact ⟨ts, r, rfl, hr, hts⟩

/-- A text in parentheses. -/
theorem scans_group
    (h : Scans (text ++ ')' :: rest) (Derives options .comparison · e) (')' :: rest)) :
    Scans ('(' :: (text ++ ')' :: rest)) (Derives options .primary · e) rest := by
  refine Scans.sign "(" rfl (scans_close h) ?_
  rintro t - ht - ⟨middle, r, rfl, hr, hmiddle⟩
  exact .group ht hmiddle hr

/-- A minus before an operand. -/
theorem scans_minus {e' : Expr} (h : Scans (text ++ rest) (Derives options .primary · e) rest)
    (hneg : Negates options e e') :
    Scans ('-' :: text ++ rest) (Derives options .comparison · e') rest := by
  refine Scans.sign "-" rfl h ?_
  intro t ts hkind hvalue hts
  refine .additive (.multiplicative (.power (.signed (.minus ⟨hkind, ?_⟩ (.primary hts) hneg))))
  rw [hvalue]
  rfl

/-- A lexeme that is a literal. -/
theorem scans_literal {l : Lexeme} (h : Lexeme.first? .plain (l.spelling ++ rest) = some l)
    (hkind : l.kind = .number ∨ l.kind = .string ∨ l.kind = .boolean) :
    Scans (l.spelling ++ rest) (Derives options .primary · (.literal l.value)) rest := by
  refine (Scans.lexeme h).imp ?_
  rintro - ⟨t, rfl, htkind, htvalue⟩
  rw [← htkind] at hkind
  rw [← htvalue]
  exact .literal hkind

/-- The digits of a number. -/
theorem scans_digits (n : Nat) (hrest : Lexeme.EndsWord rest) :
    Scans (Nat.toDigits 10 n ++ rest) (Derives options .primary · (.literal (.int n))) rest :=
  scans_literal (l := ⟨.number, .int n, Nat.toDigits 10 n⟩)
    (Lexeme.first?_of_number? (Lexeme.number?_digits n hrest)) (.inl rfl)

/-- A text in quotes. -/
theorem scans_quoted (s : String) :
    Scans ('"' :: (Lexeme.escaped s.toList ++ '"' :: rest))
      (Derives options .primary · (.literal (.text s))) rest := by
  have hquoted := Lexeme.quoted?_escaped s.toList rest
  have htext : '"' :: (Lexeme.escaped s.toList ++ '"' :: rest) =
      '"' :: (Lexeme.escaped s.toList ++ ['"']) ++ rest := by simp
  rw [String.ofList_toList] at hquoted
  rw [htext] at hquoted ⊢
  exact scans_literal (l := ⟨.string, .text s, '"' :: (Lexeme.escaped s.toList ++ ['"'])⟩)
    (Lexeme.first?_of_quoted? hquoted) (.inr (.inl rfl))

/-- A truth value, whatever letters are capital. -/
theorem scans_truth (style : Style) (b : Bool) (hrest : Lexeme.EndsWord rest) :
    Scans (style.truth b ++ rest) (Derives options .primary · (.literal (.bool b))) rest := by
  have htoken : Lexeme.nameToken .plain (style.truth b) false = (.boolean, .bool b) := by
    have hlower : Text.lower (style.truth b) = (if b then "true" else "false").toList := by
      rw [Text.lower, Text.lowerAfter_ascii, style.lower_truth b]
      intro c hc
      exact Text.ascii_of_isAlphanum (by simp [Char.isAlphanum, style.isAlpha_of_mem b hc])
    rw [Lexeme.nameToken, hlower, String.ofList_toList]
    cases b <;> rfl
  have hname := Lexeme.name?_of_isName (fun _ hc => hc) .plain (style.isName_truth b)
    hrest.nameTail_eq_nil
  rw [hrest.opensCall_eq_false, htoken] at hname
  exact scans_literal (l := ⟨.boolean, .bool b, style.truth b⟩) (Lexeme.first?_of_name? hname)
    (.inr (.inr rfl))

/-! ### Names -/

theorem scans_identifier {name : String} (hname : IsName Char.isLower name.toList)
    (htrue : name ≠ "true") (hfalse : name ≠ "false") (hrest : Lexeme.EndsWord rest) :
    Scans (name.toList ++ rest) (Derives options .primary · (.identifier name)) rest := by
  have htoken : Lexeme.nameToken .plain name.toList false = (.identifier, .text name) := by
    simp [Lexeme.nameToken, hname.lower_eq, htrue, hfalse, LexerOptions.plain]
  have hread := Lexeme.name?_of_isName (fun c hc => by simp [Char.isAlpha, hc]) .plain hname
    hrest.nameTail_eq_nil
  rw [hrest.opensCall_eq_false, htoken] at hread
  refine (Scans.lexeme (l := ⟨_, _, name.toList⟩) (Lexeme.first?_of_name? hread)).imp ?_
  rintro - ⟨t, rfl, hkind, hvalue⟩
  have hderives : Derives options .primary [t] (reference t.value) := .identifier hkind
  rwa [hvalue] at hderives

/-! ### Calls -/

/-- Arguments with a comma between each two. -/
theorem scans_separated {style : Style} {args : List Expr} (hne : args ≠ [])
    (hargs : ∀ a ∈ args, ∀ rest, Lexeme.EndsWord rest →
      Scans (a.written style ++ rest) (Derives options .primary · a) rest) :
    Scans (style.separated (Expr.writtenAll style args) ++ ')' :: rest)
      (DerivesAll options · args) (')' :: rest) := by
  induction args with
  | nil => exact absurd rfl hne
  | cons a args ih =>
    have ha := hargs a List.mem_cons_self
    cases args with
    | nil =>
      exact (ha _ (Lexeme.endsWord_close rest)).imp fun ts hts =>
        .last hts.comparison_of_primary
    | cons b args =>
      -- the first argument ends at the comma, and the others are again such a list
      have hothers := ih (by simp) fun x hx => hargs x (List.mem_cons_of_mem _ hx)
      have htext : style.separated (Expr.writtenAll style (a :: b :: args)) ++ ')' :: rest =
          a.written style ++ (',' :: (style.spaces ++
            (style.separated (Expr.writtenAll style (b :: args)) ++ ')' :: rest))) := by
        simp [Expr.writtenAll, Style.separated]
      rw [htext]
      have hcomma := Scans.sign (R := fun ts => ∃ t ts', ts = t :: ts' ∧ t.kind = .comma ∧
        DerivesAll options ts' (b :: args)) "," rfl (hothers.spaces style.gap)
        fun t ts ht _ hts => ⟨t, ts, rfl, ht, hts⟩
      refine (ha _ (Lexeme.endsWord_cons (by decide) _)).append hcomma ?_
      rintro ts - hts ⟨t, ts', rfl, ht, hts'⟩
      exact .next hts.comparison_of_primary ht hts'

/-- A function's name with its arguments. -/
theorem scans_applied {style : Style} {name : String} {args : List Expr}
    (hname : IsName Char.isUpper name.toList) (happly : Applies options name args e)
    (hargs : ∀ a ∈ args, ∀ rest, Lexeme.EndsWord rest →
      Scans (a.written style ++ rest) (Derives options .primary · a) rest) :
    Scans (style.applied name (Expr.writtenAll style args) ++ rest)
      (Derives options .primary · e) rest := by
  have htext : style.applied name (Expr.writtenAll style args) ++ rest = name.toList ++
      ('(' :: (style.separated (Expr.writtenAll style args) ++ ')' :: rest)) := by
    simp [Style.applied]
  rw [htext]
  have htoken (tail : List Char) : Lexeme.nameToken .plain name.toList
      (Lexeme.opensCall ('(' :: tail)) = (.function, .text name) := by
    simp [Lexeme.nameToken, Lexeme.opensCall, hname.upper_eq, LexerOptions.plain,
      show Text.isBlank '(' = false by decide]
  -- what follows the name only has to open a call, so it is left open while the name is read
  generalize hmiddle : '(' :: (style.separated (Expr.writtenAll style args) ++ ')' :: rest) = middle
  have hread := Lexeme.name?_of_isName (fun c hc => by simp [Char.isAlpha, hc]) .plain hname
    (show Lexeme.nameTail middle = [] by rw [← hmiddle]; rfl)
  rw [← hmiddle, htoken, hmiddle] at hread
  have harguments : Scans middle (EnclosesArguments options · args) rest := by
    rw [← hmiddle]
    by_cases hne : args = []
    · subst hne
      have hnothing : Scans ([] ++ ')' :: rest) (· = []) (')' :: rest) := Scans.nothing
      refine Scans.sign "(" rfl (scans_close hnothing) ?_
      rintro l - hl - ⟨-, r, rfl, hr, rfl⟩
      exact ⟨l, hl, .inl ⟨r, rfl, hr, rfl⟩⟩
    · refine Scans.sign "(" rfl (scans_close (scans_separated hne hargs)) ?_
      exact fun l ts hl _ hts => ⟨l, hl, .inr ⟨ts, rfl, hts⟩⟩
  refine (Scans.lexeme (l := ⟨_, _, name.toList⟩) (Lexeme.first?_of_name? hread)).append
    harguments ?_
  rintro - ts ⟨f, rfl, hf, hvalue⟩ ⟨l, hl, ⟨r, rfl, hr, rfl⟩ | ⟨inner, rfl, ts, r, rfl, hr, hts⟩⟩
  · exact .callEmpty hf (by rw [hvalue]; rfl) hl hr happly
  · exact .call hf (by rw [hvalue]; rfl) hl hts hr happly

/-! ### Operations -/

theorem endsWord_symbol (op : Operator) (text : List Char) :
    Lexeme.EndsWord (op.symbol.toList ++ text) := by
  cases op <;> exact Lexeme.endsWord_cons (by decide) _

/-- An operator between two operands, the right one of which does not make another comparison of
it. -/
theorem scans_binary {style : Style} {op : Operator} {l r : Expr}
    (hl : ∀ rest, Lexeme.EndsWord rest →
      Scans (l.written style ++ rest) (Derives options .primary · l) rest)
    (hr : ∀ rest, Lexeme.EndsWord rest →
      Scans (r.written style ++ rest) (Derives options .primary · r) rest)
    (hstart : ∀ rest, ∀ c ∈ (r.written style ++ rest).head?, c ≠ '=' ∧ c ≠ '>') :
    Scans ((Expr.binary op l r).written style ++ rest)
      (Derives options .primary · (.binary op l r)) rest := by
  have htext : (Expr.binary op l r).written style ++ rest =
      '(' :: ((l.written style ++ (style.spaces ++ (op.symbol.toList ++
        (style.spaces ++ r.written style)))) ++ ')' :: rest) := by
    simp [Expr.written]
  -- without a space the right operand itself stands behind the operator
  have hstop : ∀ c ∈ (style.spaces ++ (r.written style ++ ')' :: rest)).head?,
      c ≠ '=' ∧ c ≠ '>' := by
    rw [Style.spaces]
    rcases style.gap with - | gap
    · exact hstart _
    · intro c hc
      obtain rfl : ' ' = c := by simpa [List.replicate_succ] using hc
      decide
  have hright := (hr _ (Lexeme.endsWord_close rest)).spaces style.gap
  have hop := (Scans.sign (R := fun ts => ∃ t ts', ts = t :: ts' ∧ t.kind = Lexeme.kindOf op ∧
      t.value = .text op.symbol ∧ Derives options .primary ts' r) op.symbol
    (Lexeme.sign?_symbol op hstop) hright
    fun t ts hkind hvalue hts => ⟨t, ts, rfl, hkind, hvalue, hts⟩).spaces style.gap
  have hboth := (hl _ ((endsWord_symbol op _).spaces style.gap)).append hop
    (R := (Derives options .comparison · (.binary op l r))) (by
      rintro ts - hts ⟨t, ts', rfl, hkind, hvalue, hts'⟩
      exact derives_binary hts hkind hvalue hts')
  rw [htext]
  refine scans_group ?_
  simpa only [Style.spaces, List.append_assoc] using hboth

end Parser

/-! ### All expressions -/

namespace Expr.IsWritable

variable {find? : String → Option Function} {e : Expr} (style : Style)

/-- What is written starts as a word, in parentheses or in quotes. -/
theorem exists_cons (h : e.IsWritable find?) : ∃ c text, e.written style = c :: text ∧
    (Lexeme.continuesName c = true ∨ c = '(' ∨ c = '"') := by
  have hname {isLetter : Char → Bool} (hletter : ∀ c, isLetter c = true → c.isAlpha = true)
      {name : List Char} (hname : IsName isLetter name) :
      ∃ c text, name = c :: text ∧ Lexeme.continuesName c = true := by
    obtain ⟨c, first, others, rfl, -, hsegments⟩ := hname
    exact ⟨c, _, rfl, Lexeme.continuesName_of_isName hletter
      ((hsegments _ List.mem_cons_self).2 c List.mem_cons_self)⟩
  -- truth values, names and calls start as words, whole numbers with a digit, and all else with a
  -- sign
  cases h with
  | bool b =>
    obtain ⟨c, text, htext, hc⟩ := hname (fun _ hc => hc) (style.isName_truth b)
    exact ⟨c, text, htext, .inl hc⟩
  | int n =>
    cases n with
    | ofNat n =>
      obtain ⟨c, text, htext⟩ := List.exists_cons_of_ne_nil (Nat.toDigits_ne_nil (n := n) (b := 10))
      have hdigit : c.isDigit = true := Nat.isDigit_of_mem_toDigits (b := 10) (n := n) (by decide)
        (by decide) (htext ▸ List.mem_cons_self)
      exact ⟨c, text, htext, .inl (by simp [Lexeme.continuesName, Char.isAlphanum, hdigit])⟩
    | negSucc n => exact ⟨_, _, rfl, .inr (.inl rfl)⟩
  | text s => exact ⟨_, _, rfl, .inr (.inr rfl)⟩
  | identifier hlower =>
    obtain ⟨c, text, htext, hc⟩ := hname (fun c hc => by simp [Char.isAlpha, hc]) hlower
    exact ⟨c, text, htext, .inl hc⟩
  | negation h => exact ⟨_, _, rfl, .inr (.inl rfl)⟩
  | binary op hl hr => exact ⟨_, _, rfl, .inr (.inl rfl)⟩
  | choice hc ht he => exact ⟨'I', _, rfl, .inl (by decide)⟩
  | @call f args hupper =>
    obtain ⟨c, text, htext, hc⟩ := hname (fun c hc => by simp [Char.isAlpha, hc]) hupper
    exact ⟨c, text ++ _, by rw [written, Style.applied, htext]; rfl, .inl hc⟩

/-- What is written starts no second half of a comparison. -/
theorem ne_of_mem_head? (h : e.IsWritable find?) {rest : List Char} {c : Char}
    (hc : c ∈ (e.written style ++ rest).head?) : c ≠ '=' ∧ c ≠ '>' := by
  obtain ⟨d, text, htext, hd⟩ := h.exists_cons style
  rw [htext] at hc
  obtain rfl : d = c := by simpa using hc
  constructor <;> rintro rfl <;> simp [Lexeme.continuesName] at hd

/-- Before anything that ends a word, what is written is scanned to tokens that derive the
expression. -/
theorem scans (h : e.IsWritable find?) : ∀ rest, Lexeme.EndsWord rest →
    Token.Scans (e.written style ++ rest)
      (Parser.Derives ⟨find?, true⟩ .primary · e) rest := by
  induction h with
  | bool b => exact fun rest hrest => Parser.scans_truth style b hrest
  | int n =>
    intro rest hrest
    cases n with
    | ofNat n => exact Parser.scans_digits n hrest
    | negSucc n =>
      have htext : (Expr.literal (.int (.negSucc n))).written style ++ rest =
          '(' :: ('-' :: Nat.toDigits 10 (n + 1) ++ ')' :: rest) := by
        simp [written, Style.literal]
      -- written as a minus before its absolute value, which the parser folds into the literal
      have hneg : Parser.Negates ⟨find?, true⟩ (.literal (.int (n + 1 : Nat)))
          (.literal (.int (.negSucc n))) := Parser.negates_iff.mpr rfl
      rw [htext]
      exact Parser.scans_group (Parser.scans_minus
        (Parser.scans_digits (n + 1) (Lexeme.endsWord_close rest)) hneg)
  | text s =>
    intro rest _
    simpa [written, Style.literal] using Parser.scans_quoted s
  | identifier hname htrue hfalse =>
    exact fun rest hrest => Parser.scans_identifier hname htrue hfalse hrest
  | @negation e h hliteral ih =>
    intro rest _
    have hminus := Parser.scans_minus (ih _ (Lexeme.endsWord_close rest))
      (.kept fun v hv _ => hliteral v hv)
    have htext : e.negation.written style ++ rest =
        '(' :: ('-' :: e.written style ++ ')' :: rest) := by
      simp [written]
    rw [htext]
    exact Parser.scans_group hminus
  | binary op hl hr ihl ihr =>
    exact fun rest _ => Parser.scans_binary ihl ihr fun rest c hc => hr.ne_of_mem_head? style hc
  | @choice c t e hc ht he ihc iht ihe =>
    intro rest _
    have hargs : ∀ a ∈ [c, t, e], ∀ rest, Lexeme.EndsWord rest →
        Token.Scans (a.written style ++ rest) (Parser.Derives ⟨find?, true⟩ .primary · a) rest := by
      simpa using ⟨ihc, iht, ihe⟩
    exact Parser.scans_applied (.of_letters (fun c hc => by simp [Char.isAlpha, hc]) (by decide)
      (List.all_eq_true.mp (by decide))) (.choice c t e) hargs
  | call hname hchoice hf haccepts hargs ih =>
    exact fun rest _ => Parser.scans_applied hname (.call hchoice hf haccepts) ih

end Expr.IsWritable

/-- **What is written is read back.** In any style, the text of an expression that can be written is
scanned and parsed to the expression. -/
theorem Expr.ofText_written {find? : String → Option Function} {e : Expr} (style : Style)
    (h : e.IsWritable find?) :
    Expr.ofText .plain ⟨find?, true⟩ (String.ofList (e.written style)) = .ok e := by
  obtain ⟨tokens, next, hderives, hscan⟩ := h.scans style [] Lexeme.endsWord_nil
    (String.ofList (e.written style)) 0
  rw [List.append_nil, Token.scanFrom] at hscan
  rw [ofText, Token.scan, String.toList_ofList, hscan]
  show Expr.ofTokens _ (tokens ++ []) = _
  rw [List.append_nil]
  exact ofTokens_of_derives hderives.comparison_of_primary

/-- A comparison of a call with a choice, with all that can be written. -/
def Expr.comparedCall : Expr :=
  .binary .lt
    (.call Builtin.sum.function
      [.literal (.int (-12)), .negation (.identifier "a.b1"), .literal (.text "say \"\\\n")])
    (.choice (.literal (.bool true)) (.identifier "_x") (.literal (.int 7)))

/-- It is read back as it was. -/
theorem Expr.ofText_comparedCall :
    Expr.comparedCall.IsWritable (Registry.find? [Registry.builtins]) ∧
      String.ofList (Expr.comparedCall.written .spaced) =
        "(SUM((-12), (-a.b1), \"say \\\"\\\\\n\") < IF(TRUE, _x, 7))" ∧
      Expr.ofText .plain ⟨Registry.find? [Registry.builtins], true⟩
        (String.ofList (Expr.comparedCall.written .spaced)) = .ok Expr.comparedCall := by
  have hwritable : Expr.comparedCall.IsWritable (Registry.find? [Registry.builtins]) := by
    refine .binary _ (.call ?_ (by decide) (by decide) (by decide) ?_)
      (.choice (.bool true) (.identifier ?_ (by decide) (by decide)) (.int 7))
    · exact .of_letters (fun c hc => by simp [Char.isAlpha, hc]) (by decide)
        (List.all_eq_true.mp (by decide))
    · simp only [List.forall_mem_cons]
      refine ⟨.int _, .negation (.identifier ?_ (by decide) (by decide)) (by simp), .text _, ?_⟩
      · exact ⟨'a', [], [['b', '1']], by decide, by decide, by simp⟩
      · simp
    · exact ⟨'_', ['x'], [], by decide, by decide, by simp⟩
  exact ⟨hwritable, by decide, ofText_written .spaced hwritable⟩

end Formulary

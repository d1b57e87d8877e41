import Mathlib
import Formulary.Proofs.Token.Tiling

/-!
# Blanks between tokens

Blanks that come into a text anywhere but inside of a lexeme leave what its tokens say as it is,
kinds and values (`Token.exists_scan_inserted`): before the first token, after the last one, between
any two, and between the name of a function and its parenthesis.

A lexeme that blanks come after is still the longest one. Nothing longer that it starts has a blank
in it, unless it were a quoted text, so it would have been read without the blanks as well; and
blanks do not change whether a parenthesis comes next (`Lexeme.first?_inserted`). The rest is an
induction on how the text is cut.
-/

namespace Formulary

namespace Text

/-- A text with more characters inserted at a place. -/
def inserted (more : List Char) (place : Nat) (text : List Char) : List Char :=
  text.take place ++ (more ++ text.drop place)

@[simp] theorem inserted_zero (more text : List Char) : inserted more 0 text = more ++ text := rfl

@[simp] theorem inserted_nil (more : List Char) (place : Nat) :
    inserted more place [] = more := by
  simp [inserted]

@[simp] theorem inserted_cons (more : List Char) (place : Nat) (c : Char) (text : List Char) :
    inserted more (place + 1) (c :: text) = c :: inserted more place text := rfl

theorem inserted_append (more front : List Char) (place : Nat) (text : List Char) :
    inserted more (front.length + place) (front ++ text) = front ++ inserted more place text := by
  rw [inserted, List.take_length_add_append, List.drop_length_add_append, List.append_assoc,
    inserted]

/-- What has no blanks in it and starts a text with blanks inserted starts the text. -/
theorem prefix_of_prefix_inserted {more text front : List Char} {place : Nat}
    (hmore : ∀ c ∈ more, isBlank c = true) (h : front <+: inserted more place text)
    (hfront : ∀ c ∈ front, isBlank c = false) : front <+: text := by
  cases more with
  | nil => rwa [inserted, List.nil_append, List.take_append_drop] at h
  | cons b more =>
    have hb := hmore b List.mem_cons_self
    rcases List.prefix_or_prefix_of_prefix h (List.prefix_append _ _) with hshort | hlong
    · exact hshort.trans (List.take_prefix place text)
    · obtain ⟨tail, rfl⟩ := hlong
      rw [inserted, List.prefix_append_right_inj, List.cons_append] at h
      cases tail with
      | nil => simpa using List.take_prefix place text
      | cons c tail =>
        obtain rfl : c = b := (List.cons_prefix_cons.mp h).1
        rw [hfront c (by simp)] at hb
        cases hb

end Text

namespace Lexeme

variable {options : LexerOptions} {after after' : List Char} {l : Lexeme}

/-- Blanks do not matter to whether a parenthesis opens. -/
theorem opens_inserted {more : List Char} (hmore : ∀ c ∈ more, Text.isBlank c = true)
    (place : Nat) (after : List Char) : Opens (Text.inserted more place after) ↔ Opens after := by
  rw [← opensCall_iff, ← opensCall_iff]
  induction after generalizing place with
  | nil =>
    rw [Text.inserted_nil, ← List.append_nil more, opensCall,
      List.dropWhile_append_of_pos hmore, opensCall]
  | cons c rest ih =>
    cases place with
    | zero => rw [Text.inserted_zero, opensCall, List.dropWhile_append_of_pos hmore, opensCall]
    | succ place =>
      rw [Text.inserted_cons, opensCall, opensCall, List.dropWhile_cons, List.dropWhile_cons]
      split
      · exact ih place
      · rfl

/-- Of what comes after a lexeme only whether a parenthesis opens matters. -/
theorem IsLexeme.of_opens_iff (h : IsLexeme options after l) (hopens : Opens after' ↔ Opens after) :
    IsLexeme options after' l := by
  cases h with
  | number h => exact .number h
  | quoted hquote h => exact .quoted hquote h
  | function h hupper hafter => exact .function h hupper (hopens.mpr hafter)
  | truth h hafter => exact .truth h fun hafter' => hafter (hopens.mp hafter')
  | identifier h htruth hafter =>
    exact .identifier h htruth fun hafter' => hafter (hopens.mp hafter')
  | sign h => exact .sign h

/-- What spells a lexeme spells one wherever it stands. -/
theorem IsLexeme.exists_of_spelling (h : IsLexeme options after l) (after' : List Char) :
    ∃ l', l'.spelling = l.spelling ∧ IsLexeme options after' l' := by
  have hname {name : List Char} (h : IsName Char.isAlpha name) :
      ∃ l', l'.spelling = name ∧ IsLexeme options after' l' :=
    ⟨_, rfl, isLexeme_nameToken h options after'⟩
  cases h with
  | number h => exact ⟨_, rfl, .number h⟩
  | quoted hquote h => exact ⟨_, rfl, .quoted hquote h⟩
  | function h => exact hname h
  | truth h => exact hname (isName_of_map_toLower h)
  | identifier h => exact hname h
  | sign h => exact ⟨_, rfl, .sign h⟩

/-- What goes on from plain characters is plain, as a quoted text starts with a quote. -/
theorem IsLexeme.isPlain_of_prefix (h : IsLexeme options after l) {front : List Char}
    (hne : front ≠ []) (hfront : ∀ c ∈ front, isPlain c = true) (hstart : front <+: l.spelling) :
    ∀ c ∈ l.spelling, isPlain c = true := by
  rcases h.isPlain_or with hplain | hquotation
  · exact hplain
  · obtain ⟨c, front, rfl⟩ := List.exists_cons_of_ne_nil hne
    obtain ⟨tail, htail⟩ := hstart
    have hread := hquotation []
    have hc := isQuote_of_isPlain (hfront c List.mem_cons_self)
    rw [← htail, List.cons_append, List.cons_append] at hread
    rcases quote_of_quoted? hread with rfl | rfl <;> cases hc

/-- **A lexeme is read as before** where blanks come in after it. -/
theorem first?_inserted (h : first? options (l.spelling ++ after) = some l) {more : List Char}
    (hmore : ∀ c ∈ more, Text.isBlank c = true) (place : Nat) :
    first? options (l.spelling ++ Text.inserted more place after) = some l := by
  have hne := spelling_ne_nil h
  obtain ⟨⟨after₁, heq, hl⟩, hlongest⟩ := first?_eq_some_iff.mp h
  obtain rfl := List.append_cancel_left heq
  rcases hl.isPlain_or with hplain | hquotation
  · refine first?_eq_some_iff.mpr
      ⟨⟨_, rfl, hl.of_opens_iff (opens_inserted hmore place after)⟩, ?_⟩
    rintro other ⟨rest, hrest, hother⟩
    by_contra hlonger
    rw [Nat.not_le] at hlonger
    -- a longer lexeme would have been read without the blanks as well
    have hstart : l.spelling <+: other.spelling :=
      List.prefix_of_prefix_length_le (List.prefix_append _ _) ⟨rest, hrest.symm⟩ hlonger.le
    have hprefix : other.spelling <+: l.spelling ++ after := by
      have hinserted : other.spelling <+:
          Text.inserted more (l.spelling.length + place) (l.spelling ++ after) := by
        rw [Text.inserted_append]
        exact ⟨rest, hrest.symm⟩
      exact Text.prefix_of_prefix_inserted hmore hinserted fun c hc =>
        isBlank_of_isPlain (hother.isPlain_of_prefix hne hplain hstart c hc)
    obtain ⟨rest', hrest'⟩ := hprefix
    obtain ⟨other', hspelling, hother'⟩ := hother.exists_of_spelling rest'
    have hle := hlongest other' ⟨rest', by rw [hspelling, hrest'], hother'⟩
    rw [hspelling] at hle
    omega
  · exact first?_of_quoted? (hquotation _)

end Lexeme

namespace Token

variable {options : LexerOptions} {place last : Nat} {text left : List Char} {tokens : List Token}
  {spans : List Span}

/-- What a token says, wherever it stands. -/
def meaning (t : Token) : Kind × Value := (t.kind, t.value)

/-- What the tokens of a text say does not depend on where the text stands. -/
theorem Cuts.exists_scanFrom (h : Cuts options place text tokens spans last left)
    (hleft : left = []) (whole : String) (place' : Nat) :
    ∃ tokens', scanFrom options whole place' text = .ok tokens' ∧
      tokens'.map meaning = tokens.map meaning := by
  induction h generalizing place' with
  | stop place text =>
    subst hleft
    exact ⟨[], by rw [scanFrom]; rfl, rfl⟩
  | blank hc h ih =>
    rw [scanFrom_of_isBlank hc]
    exact ih hleft (place' + 1)
  | @lexeme place last l text left tokens spans hl h ih =>
    obtain ⟨tokens', hscan, hsame⟩ := ih hleft (place' + l.spelling.length)
    exact ⟨ofLexeme l place' :: tokens', by rw [scanFrom_lexeme hl, hscan]; rfl,
      congrArg (_ :: ·) hsame⟩

/-- **Blanks between the pieces of a text do not change what its tokens say.** -/
theorem Cuts.exists_scanFrom_inserted (h : Cuts options place text tokens spans last left)
    (hleft : left = []) {more : List Char} (hmore : ∀ c ∈ more, Text.isBlank c = true) (shift : Nat)
    (hshift : ∀ s ∈ spans, ¬ (s.start < place + shift ∧ place + shift < s.stop))
    (whole : String) (place' : Nat) :
    ∃ tokens', scanFrom options whole place' (Text.inserted more shift text) = .ok tokens' ∧
      tokens'.map meaning = tokens.map meaning := by
  induction h generalizing shift place' with
  | stop place text =>
    subst hleft
    rw [Text.inserted_nil, ← List.append_nil more, scanFrom_blanks hmore]
    exact ⟨[], by rw [scanFrom]; rfl, rfl⟩
  | @blank place last c text left tokens spans hc h ih =>
    -- the blanks come before this one, or somewhere after it
    cases shift with
    | zero =>
      rw [Text.inserted_zero, scanFrom_blanks hmore]
      exact (Cuts.blank hc h).exists_scanFrom hleft whole _
    | succ shift =>
      rw [Text.inserted_cons, scanFrom_of_isBlank hc]
      refine ih hleft shift (fun s hs => ?_) (place' + 1)
      rw [Nat.add_assoc, Nat.add_comm 1]
      exact hshift s hs
  | @lexeme place last l text left tokens spans hl h ih =>
    obtain ⟨hinside, hshift⟩ := List.forall_mem_cons.mp hshift
    rcases Nat.eq_zero_or_pos shift with rfl | hpos
    · rw [Text.inserted_zero, scanFrom_blanks hmore]
      exact (Cuts.lexeme hl h).exists_scanFrom hleft whole _
    · -- not inside of this lexeme, so the place is after it
      have hafter : l.spelling.length ≤ shift := by
        by_contra hlt
        exact hinside ⟨by simpa using hpos, by simpa using hlt⟩
      obtain ⟨shift, rfl⟩ := Nat.exists_eq_add_of_le hafter
      obtain ⟨tokens', hscan, hsame⟩ := ih hleft shift
        (by simpa only [Nat.add_assoc] using hshift) (place' + l.spelling.length)
      refine ⟨ofLexeme l place' :: tokens', ?_, congrArg (_ :: ·) hsame⟩
      rw [Text.inserted_append, scanFrom_lexeme (Lexeme.first?_inserted hl hmore shift), hscan]
      rfl

/-- **Blanks between tokens do not change what they say**: a text has tokens of the same kinds and
values with any blanks inserted at any place that is not inside of a lexeme. -/
theorem exists_scan_inserted {text : String} (h : scan options text = .ok tokens) :
    ∃ spans, Tiles options text.toList 0 text.toList.length tokens spans ∧
      ∀ (place : Nat) (blanks : List Char), (∀ c ∈ blanks, Text.isBlank c = true) →
        (∀ s ∈ spans, ¬ (s.start < place ∧ place < s.stop)) →
        ∃ tokens',
          scan options (String.ofList (Text.inserted blanks place text.toList)) = .ok tokens' ∧
            tokens'.map meaning = tokens.map meaning := by
  obtain ⟨tokens', spans, last, left, hcuts, hends⟩ :=
    exists_cuts_of_scanFrom options text 0 text.toList
  rcases hends with ⟨rfl, hok⟩ | ⟨c, rest, -, -, -, herror⟩
  · rw [scan, hok] at h
    obtain rfl := Except.ok.inj h
    have hlast := hcuts.length_eq
    rw [List.length_nil, Nat.zero_add] at hlast
    refine ⟨spans, hlast ▸ hcuts.tiles rfl, fun place blanks hblanks hplace => ?_⟩
    rw [scan, String.toList_ofList]
    exact hcuts.exists_scanFrom_inserted rfl hblanks place (by simpa using hplace) _ 0
  · rw [scan, herror] at h
    cases h

/-- The tokens of the text `F(1)`. -/
def tightCall : List Token :=
  [⟨.function, .text "F", 0⟩, ⟨.leftParen, .text "(", 1⟩, ⟨.number, .int 1, 2⟩,
    ⟨.rightParen, .text ")", 3⟩]

/-- A blank between the name of a function and its parenthesis. -/
theorem meaning_looseCall : ∃ tokens', scan .plain "F (1)" = .ok tokens' ∧
    tokens'.map meaning = tightCall.map meaning := by
  obtain ⟨spans, htiles, hinserted⟩ :=
    exists_scan_inserted (show scan .plain "F(1)" = .ok tightCall by cbv)
  refine hinserted 1 [' '] (List.forall_mem_singleton.mpr (by decide)) fun s hs hinside => ?_
  obtain ⟨htokens, hwithin, hordered, -⟩ := htiles
  -- the name ends before the parenthesis, and all other lexemes start there or later
  rcases htokens with - | ⟨-, - | ⟨hopen, -⟩⟩
  have hstart := hopen.start_eq
  simp only at hstart
  rcases List.mem_cons.mp hs with rfl | hs
  · have hbefore := List.rel_of_pairwise_cons hordered List.mem_cons_self
    omega
  · rcases List.mem_cons.mp hs with rfl | hs
    · omega
    · have hbefore := List.rel_of_pairwise_cons hordered.tail hs
      have hopens := hwithin _ (List.mem_cons_of_mem _ List.mem_cons_self)
      omega

end Token

end Formulary

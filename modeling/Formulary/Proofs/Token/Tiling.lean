import Formulary.Proofs.Token.Spelling

/-!
# The tokens of a text tile it

What the lexer makes of a text stands in the text without gaps but for blanks (`Token.Tiles`): each
token stands for one stretch of it, the longest lexeme that starts where this does, and the
stretches follow each other. A text without tokens is tiled up to the character that is reported,
which is not blank and where no lexeme starts (`Token.tiles_of_scan`).

`Token.Cuts` follows the lexer: it passes over blanks and cuts lexemes off, and goes on with what is
left (`Token.exists_cuts_of_scanFrom`).
-/

namespace Formulary

namespace Token

variable {options : LexerOptions}

/-- A stretch of a text, from a place up to another one. -/
structure Span where
  start : Nat
  stop : Nat

/-- Whether a token stands for the longest lexeme that starts where a stretch of a text does, and
the lexeme is this stretch. -/
def IsAt (options : LexerOptions) (text : List Char) (t : Token) (s : Span) : Prop :=
  ∃ l, Lexeme.IsLongest options (text.drop s.start) l ∧ s.stop = s.start + l.spelling.length ∧
    t = ofLexeme l s.start

theorem IsAt.start_eq {text : List Char} {t : Token} {s : Span} (h : IsAt options text t s) :
    s.start = t.position := by
  obtain ⟨l, -, -, rfl⟩ := h
  rfl

/-- Whether tokens tile a text from a place up to another one: each token stands for one stretch of
it, the stretches follow each other without overlap, and what is outside of them is blank. -/
structure Tiles (options : LexerOptions) (text : List Char) (first last : Nat)
    (tokens : List Token) (spans : List Span) : Prop where
  tokens : List.Forall₂ (IsAt options text) tokens spans
  within : ∀ s ∈ spans, first ≤ s.start ∧ s.start < s.stop ∧ s.stop ≤ last
  ordered : spans.Pairwise fun s s' => s.stop ≤ s'.start
  blank : ∀ i c, first ≤ i → i < last → text[i]? = some c →
    (∀ s ∈ spans, ¬ (s.start ≤ i ∧ i < s.stop)) → Text.isBlank c = true

/-- How a text is cut from its start on: blanks are passed over, and at any other place the longest
lexeme is taken off. Places count from a first one; what is left is at the last place. -/
inductive Cuts (options : LexerOptions) :
    Nat → List Char → List Token → List Span → Nat → List Char → Prop
  | stop (place : Nat) (text : List Char) : Cuts options place text [] [] place text
  | blank {place last : Nat} {c : Char} {text left : List Char} {tokens : List Token}
      {spans : List Span} (hc : Text.isBlank c = true)
      (h : Cuts options (place + 1) text tokens spans last left) :
      Cuts options place (c :: text) tokens spans last left
  | lexeme {place last : Nat} {l : Lexeme} {text left : List Char} {tokens : List Token}
      {spans : List Span} (hl : Lexeme.first? options (l.spelling ++ text) = some l)
      (h : Cuts options (place + l.spelling.length) text tokens spans last left) :
      Cuts options place (l.spelling ++ text) (ofLexeme l place :: tokens)
        (⟨place, place + l.spelling.length⟩ :: spans) last left

/-- **The lexer cuts**, to the end of the text or up to where neither a blank nor a lexeme starts.
-/
theorem exists_cuts_of_scanFrom (options : LexerOptions) (whole : String) (place : Nat)
    (text : List Char) : ∃ tokens spans last left, Cuts options place text tokens spans last left ∧
      (left = [] ∧ scanFrom options whole place text = .ok tokens ∨
        ∃ c rest, left = c :: rest ∧ Text.isBlank c = false ∧
          Lexeme.first? options left = none ∧
          scanFrom options whole place text = .error (.unexpectedCharacter c last whole)) := by
  fun_induction scanFrom options whole place text with
  | case1 place => exact ⟨[], [], place, [], .stop place [], .inl ⟨rfl, rfl⟩⟩
  | case2 place c rest hblank ih =>
    obtain ⟨tokens, spans, last, left, hcuts, hends⟩ := ih
    exact ⟨tokens, spans, last, left, .blank hblank hcuts, hends⟩
  | case3 place c rest hblank hnone =>
    rw [Bool.not_eq_true] at hblank
    exact ⟨[], [], place, c :: rest, .stop place _, .inr ⟨c, rest, rfl, hblank, hnone, rfl⟩⟩
  | case4 place c rest hblank l hl ih =>
    obtain ⟨tokens, spans, last, left, hcuts, hends⟩ := ih
    -- the scanner drops as many characters as the spelling has, and they are the spelling
    obtain ⟨after, hafter, -⟩ := Lexeme.startsWith_of_first? hl
    rw [hafter] at hl hcuts hends ⊢
    rw [List.drop_left] at hcuts hends ⊢
    refine ⟨_, _, last, left, .lexeme hl hcuts, ?_⟩
    rcases hends with ⟨rfl, hok⟩ | ⟨d, more, hleft, hd, hnone, herror⟩
    · exact .inl ⟨rfl, by rw [hok]; rfl⟩
    · exact .inr ⟨d, more, hleft, hd, hnone, by rw [herror]; rfl⟩

section

variable {place last : Nat} {text left : List Char} {tokens : List Token} {spans : List Span}

theorem Cuts.place_le (h : Cuts options place text tokens spans last left) : place ≤ last := by
  induction h with
  | stop => exact le_rfl
  | blank _ _ ih => omega
  | lexeme _ _ ih => omega

theorem Cuts.length_eq (h : Cuts options place text tokens spans last left) :
    last + left.length = place + text.length := by
  induction h with
  | stop => rfl
  | blank _ _ ih => rw [ih, List.length_cons]; omega
  | lexeme _ _ ih => rw [ih, List.length_append]; omega

/-- What is left is at the last place. -/
theorem Cuts.drop_eq (h : Cuts options place text tokens spans last left) {all : List Char}
    (hall : all.drop place = text) : all.drop last = left := by
  induction h with
  | stop => exact hall
  | @blank place last c text left tokens spans hc h ih =>
    refine ih ?_
    rw [← List.drop_drop, hall]
    rfl
  | @lexeme place last l text left tokens spans hl h ih =>
    refine ih ?_
    rw [← List.drop_drop, hall, List.drop_left]

/-- **Where a text is cut it is tiled.** -/
theorem Cuts.tiles (h : Cuts options place text tokens spans last left) {all : List Char}
    (hall : all.drop place = text) : Tiles options all place last tokens spans := by
  induction h with
  | stop => exact ⟨.nil, nofun, .nil, fun i c hi hi' => by omega⟩
  | @blank place last c text left tokens spans hc h ih =>
    have hrest : all.drop (place + 1) = text := by
      rw [← List.drop_drop, hall]
      rfl
    obtain ⟨htokens, hwithin, hordered, hblank⟩ := ih hrest
    refine ⟨htokens, fun s hs => ?_, hordered, fun i d hi hi' hd hs => ?_⟩
    · have := hwithin s hs
      omega
    -- a place outside of every lexeme is that of this blank, or it lies in the rest
    · rcases Nat.eq_or_lt_of_le hi with rfl | hi
      · rw [← Nat.add_zero place, ← List.getElem?_drop, hall] at hd
        rwa [← Option.some.inj hd]
      · exact hblank i d hi hi' hd hs
  | @lexeme place last l text left tokens spans hl h ih =>
    have hrest : all.drop (place + l.spelling.length) = text := by
      rw [← List.drop_drop, hall, List.drop_left]
    obtain ⟨htokens, hwithin, hordered, hblank⟩ := ih hrest
    have hpos := List.length_pos_iff.mpr (Lexeme.spelling_ne_nil hl)
    have hlast := h.place_le
    refine ⟨.cons ⟨l, ?_, rfl, rfl⟩ htokens, ?_, ?_, fun i d hi hi' hd hs => ?_⟩
    · rw [hall]
      exact Lexeme.first?_eq_some_iff.mp hl
    · refine List.forall_mem_cons.mpr ⟨⟨le_rfl, by simpa using hpos, hlast⟩, fun s hs => ?_⟩
      have := hwithin s hs
      omega
    · exact .cons (fun s hs => (hwithin s hs).1) hordered
    · obtain ⟨hfirst, hothers⟩ := List.forall_mem_cons.mp hs
      have hfirst : ¬ (place ≤ i ∧ i < place + l.spelling.length) := hfirst
      exact hblank i d (by omega) hi' hd hothers

end

/-- **The tokens of a text tile it**, or the text before the character that is reported. -/
theorem tiles_of_scan (options : LexerOptions) (text : String) :
    (∃ tokens spans, scan options text = .ok tokens ∧
      Tiles options text.toList 0 text.toList.length tokens spans) ∨
    ∃ c place tokens spans, scan options text = .error (.unexpectedCharacter c place text) ∧
      Tiles options text.toList 0 place tokens spans ∧
      text.toList[place]? = some c ∧ Text.isBlank c = false ∧
      ∀ l, ¬ Lexeme.StartsWith options (text.toList.drop place) l := by
  obtain ⟨tokens, spans, last, left, hcuts, hends⟩ :=
    exists_cuts_of_scanFrom options text 0 text.toList
  have htiles : Tiles options text.toList 0 last tokens spans := hcuts.tiles rfl
  have hleft : text.toList.drop last = left := hcuts.drop_eq rfl
  rcases hends with ⟨rfl, hok⟩ | ⟨c, rest, rfl, hc, hnone, herror⟩
  · have hlast := hcuts.length_eq
    rw [List.length_nil] at hlast
    rw [show text.toList.length = last by omega]
    exact .inl ⟨tokens, spans, hok, htiles⟩
  · refine .inr ⟨c, last, tokens, spans, herror, htiles, ?_, hc, ?_⟩
    · rw [← List.head?_drop, hleft]
      rfl
    · rw [hleft]
      exact Lexeme.first?_eq_none_iff.mp hnone

end Token

end Formulary

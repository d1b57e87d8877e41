import Formulary.Proofs.Expr.Parser
import Formulary.Proofs.FirstUse

/-!
# Free names in first-use order

A parser makes no nodes from outside, and of an identifier it makes a name if the identifier is a
text. So names are all that a parsed tree reads (`Expr.IsParsed.keys_eq_nil`,
`Expr.IsParsed.needs_eq_nil`).

Every node of a tree leaves out of its free names what is there twice, and gives the list on to the
node above. This comes to the same as leaving it out once, at the root: the free names of a tree are
its identifiers in first-use order (`Expr.freeNames_eq_eraseDups`).
-/

namespace Formulary

/-! ### Parsed trees -/

/-- Whether all identifiers among some tokens are texts. -/
def AreNamed (tokens : List Token) : Prop :=
  ∀ t ∈ tokens, t.kind = .identifier → ∃ name, t.value.text? = some name

theorem AreSpelled.areNamed {tokens : List Token} (h : AreSpelled tokens) : AreNamed tokens :=
  fun t ht hkind => (h t ht).exists_text (.inr hkind)

namespace Parser

variable {options : ParserOptions}

theorem Negates.keys_needs {e e' : Expr} (h : Negates options e e') :
    e'.keys = e.keys ∧ e'.needs = e.needs := by
  cases h with
  | folded | kept => exact ⟨rfl, rfl⟩

theorem Applies.keys_needs {name : String} {args : List Expr} {e : Expr}
    (h : Applies options name args e) :
    e.keys = Expr.allKeys args ∧ e.needs = Expr.allNeeds args := by
  cases h <;> simp [Expr.keys, Expr.allKeys, Expr.needs, Expr.allNeeds]

mutual

/-- What is derived from tokens whose identifiers are texts reads names only. -/
theorem Derives.keys_needs {level : Level} {ts : List Token} {e : Expr} :
    Derives options level ts e → AreNamed ts → e.keys = [] ∧ e.needs = []
  | .additive h, hs | .multiplicative h, hs | .power h, hs | .signed h, hs | .primary h, hs =>
    h.keys_needs hs
  | .compare hl _ _ hr, hs | .add hl _ _ hr, hs | .multiply hl _ _ hr, hs | .raise hl _ hr, hs => by
    obtain ⟨hk, hn⟩ := hl.keys_needs fun t ht => hs t (by simp [ht])
    obtain ⟨hk', hn'⟩ := hr.keys_needs fun t ht => hs t (by simp [ht])
    simp [Expr.keys, Expr.needs, hk, hk', hn, hn']
  | .plus _ h, hs => h.keys_needs fun t ht => hs t (by simp [ht])
  | .minus _ h hneg, hs => by
    rw [hneg.keys_needs.1, hneg.keys_needs.2]
    exact h.keys_needs fun t ht => hs t (by simp [ht])
  | .literal _, _ => ⟨rfl, rfl⟩
  | .identifier hkind, hs => by
    obtain ⟨name, hname⟩ := hs _ List.mem_cons_self hkind
    rw [reference, hname]
    exact ⟨rfl, rfl⟩
  | .group _ h _, hs => h.keys_needs fun t ht => hs t (by simp [ht])
  | .callEmpty _ _ _ _ happly, _ => happly.keys_needs
  | .call _ _ _ hargs _ happly, hs => by
    rw [happly.keys_needs.1, happly.keys_needs.2]
    exact hargs.keys_needs fun t ht => hs t (by simp [ht])

theorem DerivesAll.keys_needs {ts : List Token} {es : List Expr} :
    DerivesAll options ts es → AreNamed ts → Expr.allKeys es = [] ∧ Expr.allNeeds es = []
  | .last h, hs => by
    obtain ⟨hk, hn⟩ := h.keys_needs hs
    simp [Expr.allKeys, Expr.allNeeds, hk, hn]
  | .next h _ hrest, hs => by
    obtain ⟨hk, hn⟩ := h.keys_needs fun t ht => hs t (by simp [ht])
    obtain ⟨hk', hn'⟩ := hrest.keys_needs fun t ht => hs t (by simp [ht])
    simp [Expr.allKeys, Expr.allNeeds, hk, hk', hn, hn']

end

end Parser

namespace Expr

/-- Whether a tree is one that a parser forms from tokens whose identifiers are texts, as they are
in every text. -/
def IsParsed (e : Expr) : Prop :=
  ∃ options tokens, AreNamed tokens ∧ ofTokens options tokens = .ok e

theorem isParsed_of_ofText {lexer : LexerOptions} {parser : ParserOptions} {text : String}
    {e : Expr} (h : ofText lexer parser text = .ok e) : e.IsParsed := by
  obtain ⟨tokens, hscan, he⟩ := exists_scan_of_ofText h
  exact ⟨parser, tokens, (Token.areSpelled_scanFrom hscan).areNamed, he⟩

theorem IsParsed.keys_eq_nil {e : Expr} (h : e.IsParsed) : e.keys = [] := by
  obtain ⟨options, tokens, hnamed, h⟩ := h
  exact ((derives_of_ofTokens h).keys_needs hnamed).1

theorem IsParsed.needs_eq_nil {e : Expr} (h : e.IsParsed) : e.needs = [] := by
  obtain ⟨options, tokens, hnamed, h⟩ := h
  exact ((derives_of_ofTokens h).keys_needs hnamed).2

/-! ### Free names -/

variable {p : String → Bool} {names : String → List String}

mutual

/-- Keeping some of the free names is keeping some of what each name stands for, but for the names
that are announced from outside. -/
theorem filter_namesBy : ∀ e : Expr, e.needs = [] →
    (e.namesBy names).filter p = e.namesBy fun name => (names name).filter p
  | .literal _, _ | .keyed _, _ | .identifier _, _ => rfl
  | .given _ needs, h => by
    rw [Expr.needs] at h
    rw [namesBy_given, namesBy_given, h, List.filter_nil]
  | .asking _ needs, h => by
    rw [Expr.needs] at h
    rw [namesBy_asking, namesBy_asking, h, List.filter_nil]
  | .negation e, h => by
    rw [namesBy_negation, namesBy_negation, filter_eraseDups, filter_namesBy e h]
  | .binary _ l r, h => by
    obtain ⟨hl, hr⟩ := List.append_eq_nil_iff.mp h
    rw [namesBy_binary, namesBy_binary, filter_eraseDups, List.filter_append, filter_namesBy l hl,
      filter_namesBy r hr]
  | .call _ args, h => by
    rw [namesBy_call, namesBy_call, filter_eraseDups, filter_allNamesBy args h]
  | .choice c t e, h => by
    obtain ⟨hc, h⟩ := List.append_eq_nil_iff.mp h
    obtain ⟨ht, he⟩ := List.append_eq_nil_iff.mp h
    rw [namesBy_choice, namesBy_choice, filter_eraseDups, List.filter_append, List.filter_append,
      filter_namesBy c hc, filter_namesBy t ht, filter_namesBy e he]

theorem filter_allNamesBy : ∀ es : List Expr, Expr.allNeeds es = [] →
    (Expr.allNamesBy names es).filter p = Expr.allNamesBy (fun name => (names name).filter p) es
  | [], _ => rfl
  | e :: es, h => by
    obtain ⟨he, hes⟩ := List.append_eq_nil_iff.mp h
    rw [allNamesBy_cons, allNamesBy_cons, List.filter_append, filter_namesBy e he,
      filter_allNamesBy es hes]

end

mutual

/-- **The free names of a tree are its identifiers in first-use order**, wherever the repeated ones
are left out. -/
theorem freeNames_eq_eraseDups : ∀ e : Expr, e.needs = [] → e.freeNames = e.identifiers.eraseDups
  | .literal _, _ | .keyed _, _ => rfl
  | .identifier _, _ => by simp [identifiers, List.eraseDups_cons]
  | .given _ needs, h | .asking _ needs, h => h
  | .negation e, h => by
    rw [freeNames_eq_namesBy, namesBy_negation, ← freeNames_eq_namesBy, identifiers]
    exact eraseDups_of_eq (freeNames_eq_eraseDups e h)
  | .binary _ l r, h => by
    obtain ⟨hl, hr⟩ := List.append_eq_nil_iff.mp h
    exact eraseDups_append_congr (eraseDups_of_eq (freeNames_eq_eraseDups l hl))
      (eraseDups_of_eq (freeNames_eq_eraseDups r hr))
  | .call _ args, h => eraseDups_allFreeNames args h
  | .choice c t e, h => by
    obtain ⟨hc, h⟩ := List.append_eq_nil_iff.mp h
    obtain ⟨ht, he⟩ := List.append_eq_nil_iff.mp h
    exact eraseDups_append_congr (eraseDups_of_eq (freeNames_eq_eraseDups c hc))
      (eraseDups_append_congr (eraseDups_of_eq (freeNames_eq_eraseDups t ht))
        (eraseDups_of_eq (freeNames_eq_eraseDups e he)))

theorem eraseDups_allFreeNames : ∀ es : List Expr, Expr.allNeeds es = [] →
    (Expr.allNamesBy (fun name => [name]) es).eraseDups = (Expr.allIdentifiers es).eraseDups
  | [], _ => rfl
  | e :: es, h => by
    obtain ⟨he, hes⟩ := List.append_eq_nil_iff.mp h
    exact eraseDups_append_congr (eraseDups_of_eq (freeNames_eq_eraseDups e he))
      (eraseDups_allFreeNames es hes)

end

end Expr

end Formulary

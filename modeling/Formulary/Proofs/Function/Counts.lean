import Formulary.Proofs.Function.Texts
import Mathlib.Data.List.Basic

/-!
# Counts of characters

The text functions that cut a text read whole numbers off their other arguments: how many characters
to take, and for a window also the place of the first one (`Builtin.counts`). Such an argument is a
count if the first number in it is finite and its whole part is not too small (`Value.IsCount`).

A number that is too small is a complaint about the argument, and so is an argument without a
number. A NaN or an infinity is not: it has no whole part (`Value.LacksWholePart`), and asking for
one fails before anything is said about the argument. The arguments are read in order, so the first
one that is no count decides (`Builtin.Screens`). All else that a text function does goes through
for every value, so this is all that can go wrong (`Builtin.complains_of_isText`).
-/

namespace Formulary

/-! ### One argument -/

namespace Value

variable {v : Value} {least : Int} {e e' : Error}

/-- The first number in a value, as the functions of one number take it. -/
def firstNumber? (v : Value) : Option Number := v.numericLeaves.head?

/-- Whether the first number in a value is finite and has a whole part that is not too small. -/
def IsCount (least : Int) (v : Value) : Prop :=
  ∃ a n, v.firstNumber? = some a ∧ a.truncate = .ok n ∧ least ≤ n

/-- Whether the first number in a value has no whole part, and how asking for one fails. -/
inductive LacksWholePart (v : Value) : Error → Prop
  | nan (h : v.firstNumber? = some (.float .nan)) : LacksWholePart v .badValue
  | infinite {negative : Bool} (h : v.firstNumber? = some (.float (.infinite negative))) :
    LacksWholePart v .overflow

theorem LacksWholePart.not_isCount (h : v.LacksWholePart e) : ¬ v.IsCount least := by
  rintro ⟨a, n, ha, hn, -⟩
  cases h with
  | nan h | infinite h =>
    obtain rfl := Option.some.inj (h.symm.trans ha)
    cases hn

theorem LacksWholePart.eq (h : v.LacksWholePart e) (h' : v.LacksWholePart e') : e = e' := by
  cases h with
  | nan h =>
    cases h' with
    | nan => rfl
    | infinite h' => cases h.symm.trans h'
  | infinite h =>
    cases h' with
    | nan h' => cases h.symm.trans h'
    | infinite => rfl

end Value

/-- The numbers without a whole part are those that are not finite. -/
theorem Number.truncate_eq_error {a : Number} {e : Error} (h : a.truncate = .error e) :
    a = .float .nan ∧ e = .badValue ∨
      ∃ negative, a = .float (.infinite negative) ∧ e = .overflow := by
  rcases a with n | x
  · cases h
  · cases x with
    | nan =>
      cases h
      exact .inl ⟨rfl, rfl⟩
    | infinite negative =>
      cases h
      exact .inr ⟨negative, rfl, rfl⟩
    | finite => cases h

namespace Builtin

/-! ### Arguments in order -/

/-- Whether arguments that are read in order, each with the least count that it may be, come to one
without a whole part, and how that fails. -/
inductive ComesToNone : List (Value × Int) → Error → Prop
  | here {v least counts e} (h : v.LacksWholePart e) : ComesToNone ((v, least) :: counts) e
  | later {v least counts e} (hcount : v.IsCount least) (h : ComesToNone counts e) :
    ComesToNone ((v, least) :: counts) e

/-- What a computation comes to that reads arguments in order as counts, each with the least one
that it may be, and then gives something. -/
inductive Screens {α : Type} : List (Value × Int) → Except Error α → Prop
  | gives (a : α) : Screens [] (.ok a)
  | complains {v least counts} {fault : ArgumentFault} (hcount : ¬ v.IsCount least)
    (hwhole : ∀ e, ¬ v.LacksWholePart e) :
    Screens ((v, least) :: counts) (.error (.argument fault))
  | fails {v least counts e} (h : v.LacksWholePart e) : Screens ((v, least) :: counts) (.error e)
  | reads {v least counts r} (hcount : v.IsCount least) (h : Screens counts r) :
    Screens ((v, least) :: counts) r

theorem ComesToNone.exists_lacksWholePart {counts : List (Value × Int)} {e : Error}
    (h : ComesToNone counts e) : ∃ count ∈ counts, count.1.LacksWholePart e := by
  induction h with
  | here h => exact ⟨_, List.mem_cons_self, h⟩
  | later _ _ ih =>
    obtain ⟨count, hcount, h⟩ := ih
    exact ⟨count, List.mem_cons_of_mem _ hcount, h⟩

variable {function : String} {v : Value} {least : Int} {a : Number} {e : Error}

theorem oneNumber_of_firstNumber? (h : v.firstNumber? = some a) :
    oneNumber function v = .ok a := by
  obtain ⟨rest, hleaves⟩ : ∃ rest, v.numericLeaves = a :: rest := List.head?_eq_some_iff.mp h
  rw [oneNumber, hleaves]
  rfl

theorem oneNumber_of_firstNumber?_eq_none (h : v.firstNumber? = none) :
    oneNumber function v = .error (.argument (.notNumeric function v.shown)) := by
  have hleaves : v.numericLeaves = [] := List.head?_eq_none_iff.mp h
  rw [oneNumber, hleaves]
  rfl

namespace Screens

variable {α β : Type} {counts counts' : List (Value × Int)} {r : Except Error α}

theorem bind {f : α → Except Error β} (h : Screens counts r) (hf : ∀ a, Screens counts' (f a)) :
    Screens (counts ++ counts') (r >>= f) := by
  induction h with
  | gives a => exact hf a
  | complains hcount hwhole => exact .complains hcount hwhole
  | fails h => exact .fails h
  | reads hcount _ ih => exact .reads hcount ih

theorem map (h : Screens counts r) (f : α → β) : Screens counts (r.map f) := by
  induction h with
  | gives a => exact .gives (f a)
  | complains hcount hwhole => exact .complains hcount hwhole
  | fails h => exact .fails h
  | reads hcount _ ih => exact .reads hcount ih

/-- Reading a whole number that must not be below a bound, and going on with it. -/
theorem ofInteger {fault : Int → ArgumentFault} {f : Int → Except Error α}
    (hf : ∀ n, Screens counts (f n)) : Screens ((v, least) :: counts)
      (oneInteger function v >>= fun n =>
        if n < least then throw (.argument (fault n)) else f n) := by
  rw [oneInteger]
  rcases hfirst : v.firstNumber? with - | a
  · -- there is no number
    rw [oneNumber_of_firstNumber?_eq_none hfirst]
    refine .complains ?_ ?_
    · rintro ⟨a, n, ha, -⟩
      cases hfirst.symm.trans ha
    · rintro e (h | h)
      · cases hfirst.symm.trans h
      · cases hfirst.symm.trans h
  · rw [oneNumber_of_firstNumber? hfirst]
    show Screens _ (a.truncate >>= _)
    rcases hwhole : a.truncate with e | n
    · rcases Number.truncate_eq_error hwhole with ⟨rfl, rfl⟩ | ⟨negative, rfl, rfl⟩
      · exact .fails (.nan hfirst)
      · exact .fails (.infinite hfirst)
    · show Screens _ (if n < least then _ else _)
      split
      · -- the number is finite, but too small
        refine .complains ?_ ?_
        · rintro ⟨b, m, hb, hm, hleast⟩
          obtain rfl := Option.some.inj (hfirst.symm.trans hb)
          obtain rfl := Except.ok.inj (hwhole.symm.trans hm)
          omega
        · rintro e (h | h)
          · obtain rfl := Option.some.inj (hfirst.symm.trans h)
            cases hwhole
          · obtain rfl := Option.some.inj (hfirst.symm.trans h)
            cases hwhole
      · next hnot => exact .reads ⟨a, n, hfirst, hwhole, by omega⟩ (hf n)

/-- Something is given just if all arguments are counts. -/
theorem exists_eq_ok_iff (h : Screens counts r) :
    (∃ a, r = .ok a) ↔ ∀ count ∈ counts, count.1.IsCount count.2 := by
  induction h with
  | gives a => simp
  | complains hcount =>
    constructor
    · rintro ⟨a, ⟨⟩⟩
    · exact fun hall => absurd (hall _ List.mem_cons_self) hcount
  | fails h =>
    constructor
    · rintro ⟨a, ⟨⟩⟩
    · exact fun hall => absurd (hall _ List.mem_cons_self) h.not_isCount
  | reads hcount _ ih => simp [ih, hcount]

/-- It fails without a complaint just if the first argument that is no count has no whole part. -/
theorem eq_error_iff (h : Screens counts r) (he : e.kind ≠ .argument) :
    r = .error e ↔ ComesToNone counts e := by
  induction h with
  | gives a =>
    constructor
    · rintro ⟨⟩
    · rintro ⟨⟩
  | complains hcount hwhole =>
    constructor
    · rintro ⟨⟩
      exact absurd rfl he
    · rintro (h | ⟨h, -⟩)
      · exact absurd h (hwhole e)
      · exact absurd h hcount
  | fails h =>
    constructor
    · rintro ⟨⟩
      exact .here h
    · rintro (h' | ⟨h', -⟩)
      · rw [h.eq h']
      · exact absurd h' h.not_isCount
  | reads hcount _ ih =>
    rw [ih]
    constructor
    · exact .later hcount
    · rintro (h | ⟨-, h⟩)
      · exact absurd hcount h.not_isCount
      · exact h

end Screens

/-! ### Text functions -/

/-- Whether a builtin works on texts. -/
def isText : Builtin → Bool
  | .left | .right | .mid | .len | .concat | .upper | .lower | .trim => true
  | _ => false

/-- The arguments of a text function that it reads as counts, in order, each with the least one
that it may be. -/
def counts : Builtin → List Value → List (Value × Int)
  | .left, [_, n] | .right, [_, n] => [(n, 0)]
  | .mid, [_, start, n] => [(start, 1), (n, 0)]
  | _, _ => []

variable {b : Builtin} {args : List Value}

theorem screens_characterCount (function : String) (v : Value) :
    Screens [(v, 0)] (characterCount function v) :=
  .ofInteger fun n => .gives n.toNat

theorem screens_leftPart (text n : Value) : Screens [(n, 0)] (leftPart text n) :=
  (screens_characterCount "LEFT" n).bind fun _ => .gives _

theorem screens_rightPart (text n : Value) : Screens [(n, 0)] (rightPart text n) :=
  (screens_characterCount "RIGHT" n).bind fun _ => .gives _

theorem screens_middlePart (text start n : Value) :
    Screens [(start, 1), (n, 0)] (middlePart text start n) :=
  .ofInteger fun _ => (screens_characterCount "MID" n).bind fun _ => .gives _

/-- A text function reads its counts, each once, and then gives a value. -/
theorem screens_apply (hb : b.isText = true) (haccepts : b.function.accepts args.length = true) :
    Screens (b.counts args) (b.apply args) := by
  obtain ⟨hleast, hmost⟩ := Function.accepts_iff.mp haccepts
  cases b with
  | left =>
    rcases args with - | ⟨text, - | ⟨n, - | ⟨other, rest⟩⟩⟩
    · cases hleast
    · have hone : characterCount "LEFT" (.int 1) = .ok 1 := characterCount_int "LEFT" 1
      rw [apply, leftPart_eq hone]
      exact .gives _
    · exact (screens_leftPart text n).map _
    · have := hmost 2 rfl
      simp at this
  | right =>
    rcases args with - | ⟨text, - | ⟨n, - | ⟨other, rest⟩⟩⟩
    · cases hleast
    · have hone : characterCount "RIGHT" (.int 1) = .ok 1 := characterCount_int "RIGHT" 1
      rw [apply, rightPart_eq hone]
      exact .gives _
    · exact (screens_rightPart text n).map _
    · have := hmost 2 rfl
      simp at this
  | mid =>
    obtain ⟨text, start, n, rfl⟩ := List.length_eq_three.mp (Nat.le_antisymm (hmost 3 rfl) hleast)
    exact (screens_middlePart text start n).map _
  | concat => exact .gives _
  | len | upper | lower | trim =>
    obtain ⟨text, rfl⟩ := List.length_eq_one_iff.mp (Nat.le_antisymm (hmost 1 rfl) hleast)
    exact .gives _
  | _ => cases hb

/-- **A text function fails on numbers without a whole part.** For every text function and all
arguments, as many as it accepts, it gives a value just if the arguments that it reads as counts are
counts. It fails with something else than a complaint about its arguments just if the first of them
that is no count is a NaN or an infinity; so if their numbers are finite, it gives a value or
complains. -/
theorem complains_of_isText (hb : b.isText = true)
    (haccepts : b.function.accepts args.length = true) :
    ((∃ v, b.apply args = .ok v) ↔ ∀ count ∈ b.counts args, count.1.IsCount count.2) ∧
    (∀ e : Error, e.kind ≠ .argument → (b.apply args = .error e ↔ ComesToNone (b.counts args) e)) ∧
    ((∀ count ∈ b.counts args, ∀ e, ¬ count.1.LacksWholePart e) →
      (∃ v, b.apply args = .ok v) ∨ ∃ e, b.apply args = .error e ∧ e.kind = .argument) := by
  have h := screens_apply hb haccepts
  refine ⟨h.exists_eq_ok_iff, fun e => h.eq_error_iff, fun hfinite => ?_⟩
  rcases hresult : b.apply args with e | v
  · by_cases he : e.kind = .argument
    · exact .inr ⟨e, rfl, he⟩
    · obtain ⟨count, hcount, hlacks⟩ := ((h.eq_error_iff he).mp hresult).exists_lacksWholePart
      exact absurd hlacks (hfinite count hcount e)
  · exact .inl ⟨v, rfl⟩

/-- A window that starts at the first place and has no length. -/
def endlessWindow : List Value := [.text "abc", .int 1, .list [.none, .float .nan]]

theorem apply_mid_endlessWindow : Builtin.mid.isText = true ∧
    Builtin.mid.function.accepts endlessWindow.length = true ∧
    ComesToNone (Builtin.mid.counts endlessWindow) .badValue ∧
    Builtin.mid.apply endlessWindow = .error .badValue ∧ ErrorKind.value ≠ .argument := by
  have hone : (Value.int 1).IsCount 1 := ⟨.int 1, 1, rfl, rfl, Int.le_refl 1⟩
  have hnone : ComesToNone (Builtin.mid.counts endlessWindow) .badValue :=
    .later hone (.here (.nan rfl))
  have hkind : Error.badValue.kind ≠ .argument := by decide
  exact ⟨rfl, rfl, hnone, ((complains_of_isText rfl rfl).2.1 _ hkind).mpr hnone, hkind⟩

end Builtin

end Formulary

import Formulary.Expr.Evaluation

/-!
# Why computing on values fails

Arithmetic, templates and functions without effects see values and nothing else, so they fail for
reasons that lie in values: an argument out of range, a division by zero, a wrong kind of value, a
number or a sequence too large, a key that a mapping lacks (`ErrorKind.isOfValues`). They never
complain about a name.

That a computation fails in no other way (`FailsOnValues`) goes on from step to step, as does every
bound on the kinds of failure (`FailsWithin`); from the arithmetic of numbers it is shown for
operators (`Operator.failsOnValues_apply`) and builtins (`Builtin.failsOnValues_apply`). How the
functions of a spreadsheet library fail is an assumption (`Sheet.FailsOnly`).
-/

namespace Formulary

/-- The kinds of failure that computing on values has. -/
def ErrorKind.isOfValues : ErrorKind → Bool
  | .argument | .division | .type | .value | .overflow | .key | .memory | .runtime => true
  | _ => false

/-- Whether a computation fails, if it does, in one of the allowed ways. -/
def FailsWithin {α : Type} (allowed : ErrorKind → Bool) (result : Except Error α) : Prop :=
  ∀ fault, result = .error fault → allowed fault.kind = true

/-- Whether a computation fails, if it does, for a reason that lies in values. -/
abbrev FailsOnValues {α : Type} (result : Except Error α) : Prop :=
  FailsWithin ErrorKind.isOfValues result

namespace FailsWithin

variable {α β : Type} {allowed : ErrorKind → Bool} {r : Except Error α}

theorem pure (a : α) : FailsWithin allowed (Pure.pure a : Except Error α) := by
  rintro fault ⟨⟩

theorem throw {fault : Error} (h : allowed fault.kind = true) :
    FailsWithin allowed (MonadExcept.throw fault : Except Error α) := by
  rintro _ ⟨⟩
  exact h

theorem bind {f : α → Except Error β} (hr : FailsWithin allowed r)
    (hf : ∀ a, FailsWithin allowed (f a)) : FailsWithin allowed (r >>= f) := by
  rcases r with fault | a
  · rintro _ ⟨⟩
    exact hr fault rfl
  · exact hf a

theorem map (hr : FailsWithin allowed r) (f : α → β) : FailsWithin allowed (r.map f) := by
  rcases r with fault | a
  · rintro _ ⟨⟩
    exact hr fault rfl
  · rintro _ ⟨⟩

theorem ite {p : Prop} [Decidable p] {r' : Except Error α} (h : FailsWithin allowed r)
    (h' : FailsWithin allowed r') : FailsWithin allowed (if p then r else r') := by
  split
  · exact h
  · exact h'

theorem foldlM {step : β → α → Except Error β} (h : ∀ b a, FailsWithin allowed (step b a))
    (items : List α) (b : β) : FailsWithin allowed (items.foldlM step b) := by
  induction items generalizing b with
  | nil => exact .pure b
  | cons a rest ih => exact .bind (h b a) ih

end FailsWithin

/-! ### Numbers -/

namespace Number

section

variable {allowed : ErrorKind → Bool} (hoverflow : allowed .overflow = true)
include hoverflow

theorem failsWithin_toBinary64 (a : Number) : FailsWithin allowed a.toBinary64 := by
  rw [toBinary64.eq_def]
  -- How an integer is rounded plays no part: by a name of its own it is not unfolded.
  obtain ⟨nearest?, hnearest⟩ : ∃ nearest?, Binary64.ofInt? = nearest? := ⟨_, rfl⟩
  rw [hnearest]
  cases a with
  | int n =>
    rcases h : nearest? n with - | x
    · simp only [h]
      exact .throw hoverflow
    · simp only [h]
      exact .pure x
  | float x => exact .pure x

theorem failsWithin_combine {onInts : Int → Int → Except Error Number}
    {onFloats : Binary64 → Binary64 → Except Error Number}
    (hints : ∀ m n, FailsWithin allowed (onInts m n))
    (hfloats : ∀ x y, FailsWithin allowed (onFloats x y)) (a b : Number) :
    FailsWithin allowed (combine onInts onFloats a b) := by
  rw [combine.eq_def]
  split
  · exact hints _ _
  · exact .bind (failsWithin_toBinary64 hoverflow a) fun x =>
      .bind (failsWithin_toBinary64 hoverflow b) fun y => hfloats x y

theorem failsWithin_add (a b : Number) : FailsWithin allowed (a.add b) :=
  failsWithin_combine hoverflow (fun _ _ => .pure _) (fun _ _ => .pure _) a b

theorem failsWithin_sub (a b : Number) : FailsWithin allowed (a.sub b) :=
  failsWithin_combine hoverflow (fun _ _ => .pure _) (fun _ _ => .pure _) a b

theorem failsWithin_mul (a b : Number) : FailsWithin allowed (a.mul b) :=
  failsWithin_combine hoverflow (fun _ _ => .pure _) (fun _ _ => .pure _) a b

variable (hdivision : allowed .division = true)
include hdivision

theorem failsWithin_divInts (m n : Int) : FailsWithin allowed (divInts m n) := by
  rw [divInts]
  refine .ite (.throw hdivision) ?_
  split
  · exact .throw hoverflow
  · exact .pure _

theorem failsWithin_div (a b : Number) : FailsWithin allowed (a.div b) := by
  refine failsWithin_combine hoverflow (failsWithin_divInts hoverflow hdivision)
    (fun x y => ?_) a b
  exact .ite (.throw hdivision) (.pure _)

end

theorem failsOnValues_mod (a b : Number) : FailsOnValues (a.mod b) :=
  failsWithin_combine rfl (fun _ _ => .ite (.throw rfl) (.pure _))
    (fun _ _ => .ite (.throw rfl) (.pure _)) a b

theorem failsOnValues_wholePart (part : Binary64 → Option Int) (a : Number) :
    FailsOnValues (wholePart part a) := by
  rw [wholePart.eq_def]
  split
  · exact .pure _
  · next x =>
    split
    · exact .pure _
    · rcases h : x.isNan with - | -
      · exact .throw rfl
      · exact .throw rfl

theorem failsOnValues_truncate (a : Number) : FailsOnValues a.truncate :=
  failsOnValues_wholePart _ a

theorem failsOnValues_floor (a : Number) : FailsOnValues a.floor := failsOnValues_wholePart _ a

theorem failsOnValues_ceil (a : Number) : FailsOnValues a.ceil := failsOnValues_wholePart _ a

theorem failsOnValues_round (a : Number) : FailsOnValues a.round := failsOnValues_wholePart _ a

theorem failsOnValues_roundTo (a : Number) (places : Int) : FailsOnValues (a.roundTo places) := by
  rw [roundTo.eq_def]
  split
  · exact .ite (.pure _) (.pure _)
  · exact .ite (.throw rfl) (.pure _)

end Number

/-! ### Complex numbers and powers -/

namespace Complex

theorem failsOnValues_div (z w : Complex) : FailsOnValues (z.div w) :=
  .ite (.throw rfl) (.ite (.pure _) (.ite (.pure _) (.pure _)))

theorem failsOnValues_powPolar (z w : Complex) : FailsOnValues (z.powPolar w) :=
  .ite (.pure _) (.ite (.ite (.throw rfl) (.pure _)) (.ite (.throw rfl) (.pure _)))

theorem failsOnValues_pow (z w : Complex) : FailsOnValues (z.pow w) := by
  have hend : ∀ power : Complex, FailsOnValues
      (if power.re.isInfinite || power.im.isInfinite then throw .overflow else pure power) :=
    fun power => .ite (.throw rfl) (.pure power)
  have hpolar := FailsWithin.bind (failsOnValues_powPolar z w) hend
  rw [pow]
  split
  · exact .ite (.ite (.bind (.pure _) hend) (.bind (failsOnValues_div _ _) hend)) hpolar
  · exact hpolar

end Complex

theorem failsOnValues_powFloats (x y : Binary64) : FailsOnValues (powFloats x y) := by
  rw [powFloats]
  refine .ite (.pure _) (.ite (.pure _) (.ite (.pure _) (.ite ?_ (.ite ?_ (.ite ?_ (.ite ?_ ?_))))))
  · split <;> exact .pure _
  · exact .ite (.pure _) (.pure _)
  · exact .ite (.throw rfl) (.pure _)
  · exact (Complex.failsOnValues_pow _ _).map _
  · exact .ite (.pure _) (.ite (.throw rfl) (.pure _))

theorem Number.failsOnValues_pow (a b : Number) : FailsOnValues (a.pow b) := by
  have hfloats : ∀ a b : Number,
      FailsOnValues (do powFloats (← a.toBinary64) (← b.toBinary64)) :=
    fun a b => .bind (a.failsWithin_toBinary64 rfl) fun x =>
      .bind (b.failsWithin_toBinary64 rfl) fun y => failsOnValues_powFloats x y
  rw [Number.pow.eq_def]
  split
  · exact .ite (.pure _) (hfloats _ _)
  · exact hfloats a b

namespace Scalar

theorem failsOnValues_toComplex (a : Scalar) : FailsOnValues a.toComplex := by
  rw [toComplex.eq_def]
  split
  · next a => exact .bind (a.failsWithin_toBinary64 rfl) fun _ => .pure _
  · exact .pure _

theorem failsOnValues_combine {onReals : Number → Number → Except Error Scalar}
    {onComplex : Complex → Complex → Except Error Complex}
    (hreals : ∀ a b, FailsOnValues (onReals a b)) (hcomplex : ∀ z w, FailsOnValues (onComplex z w))
    (a b : Scalar) : FailsOnValues (combine onReals onComplex a b) := by
  rw [combine.eq_def]
  split
  · exact hreals _ _
  · exact .bind (failsOnValues_toComplex a) fun z => .bind (failsOnValues_toComplex b) fun w =>
      .bind (hcomplex z w) fun _ => .pure _

theorem failsOnValues_add (a b : Scalar) : FailsOnValues (a.add b) :=
  failsOnValues_combine (fun a b => (a.failsWithin_add rfl b).map _) (fun _ _ => .pure _) a b

theorem failsOnValues_sub (a b : Scalar) : FailsOnValues (a.sub b) :=
  failsOnValues_combine (fun a b => (a.failsWithin_sub rfl b).map _) (fun _ _ => .pure _) a b

theorem failsOnValues_mul (a b : Scalar) : FailsOnValues (a.mul b) :=
  failsOnValues_combine (fun a b => (a.failsWithin_mul rfl b).map _) (fun _ _ => .pure _) a b

theorem failsOnValues_div (a b : Scalar) : FailsOnValues (a.div b) :=
  failsOnValues_combine (fun a b => (a.failsWithin_div rfl rfl b).map _)
    Complex.failsOnValues_div a b

theorem failsOnValues_mod (a b : Scalar) : FailsOnValues (a.mod b) := by
  rw [mod.eq_def]
  split
  · next a b => exact (a.failsOnValues_mod b).map _
  · exact .throw rfl

theorem failsOnValues_pow (a b : Scalar) : FailsOnValues (a.pow b) :=
  failsOnValues_combine Number.failsOnValues_pow Complex.failsOnValues_pow a b

theorem failsOnValues_compare? (a b : Scalar) : FailsOnValues (a.compare? b) := by
  rw [compare?.eq_def]
  split
  · exact .pure _
  · exact .throw rfl

end Scalar

/-! ### Operators -/

namespace Template

theorem failsOnValues_needed {α : Type} (a : Option α) : FailsOnValues (needed a) := by
  cases a with
  | none => exact .throw rfl
  | some a => exact .pure a

theorem failsOnValues_characterOf (v : Value) : FailsOnValues (Style.characterOf v) := by
  rw [Style.characterOf]
  split
  · split
    · exact .pure _
    · exact .throw rfl
  · exact .bind (failsOnValues_needed v.integer?) fun _ =>
      .ite (.throw rfl) (.ite (.pure _) (.throw rfl))

theorem failsOnValues_integer (style : Style) (letter : Char) (base : Nat) (mark : List Char)
    (n : Int) : FailsOnValues (style.integer letter base mark n) :=
  .ite (.throw rfl) (.pure _)

theorem failsOnValues_convert (style : Style) (letter : Char) (v : Value) :
    FailsOnValues (style.convert letter v) := by
  rw [Style.convert]
  split
  · exact .pure _
  · exact .pure _
  · exact .pure _
  · exact .bind (failsOnValues_needed v.number?) fun a =>
      .bind a.failsOnValues_truncate fun _ => failsOnValues_integer style _ _ _ _
  · exact .bind (failsOnValues_needed v.integer?) fun _ => failsOnValues_integer style _ _ _ _
  · exact .bind (failsOnValues_needed v.number?) fun a =>
      .bind (a.failsWithin_toBinary64 rfl) fun _ => .pure _
  · exact .bind (failsOnValues_characterOf v) fun _ => .pure _
  · exact .throw rfl

theorem failsOnValues_layOut (style : Style) (parts : Converted) :
    FailsOnValues (style.layOut parts) :=
  .ite (.throw rfl) (.ite (.pure _) (.ite (.pure _) (.pure _)))

namespace Supply

theorem failsOnValues_next (supply : Supply) : FailsOnValues supply.next := by
  rw [next]
  split
  · exact .throw rfl
  · exact .pure _

theorem failsOnValues_under (supply : Supply) (key : Option String) :
    FailsOnValues (supply.under key) := by
  cases key with
  | none => exact .pure _
  | some key =>
    rw [under]
    split
    · exact .throw rfl
    · split
      · exact .pure _
      · exact .throw rfl

theorem failsOnValues_count (supply : Supply) (limit : Int) (c : Option Count) :
    FailsOnValues (supply.count limit c) := by
  rcases c with _ | ⟨n⟩ | _
  · exact .pure _
  · exact .ite (.throw rfl) (.pure _)
  · exact .bind supply.failsOnValues_next fun taken =>
      .bind (failsOnValues_needed taken.1.integer?) fun _ => .ite (.pure _) (.throw rfl)

theorem failsOnValues_style (supply : Supply) (c : Conversion) :
    FailsOnValues (supply.style c) :=
  .bind (supply.failsOnValues_count _ _) fun width =>
    .bind (width.2.failsOnValues_count _ _) fun _ => .pure _

theorem failsOnValues_fill (supply : Supply) (c : Conversion) : FailsOnValues (supply.fill c) := by
  refine .bind (supply.failsOnValues_under c.key) fun supply =>
    .bind (supply.failsOnValues_style c) fun styled => ?_
  cases c.letter with
  | none => exact .throw rfl
  | some letter =>
    exact .bind styled.2.failsOnValues_next fun taken =>
      .bind (failsOnValues_convert styled.1 letter taken.1) fun parts =>
        .bind (failsOnValues_layOut styled.1 parts) fun _ => .pure _

end Supply

theorem failsOnValues_fillPieces (pieces : List Piece) (supply : Supply) :
    FailsOnValues (fillPieces pieces supply) := by
  induction pieces generalizing supply with
  | nil => exact .pure _
  | cons piece rest ih =>
    cases piece with
    | plain c => exact .bind (ih supply) fun _ => .pure _
    | openKey =>
      refine .throw ?_
      split
      · rfl
      · rfl
    | conversion c =>
      exact .bind (supply.failsOnValues_fill c) fun filled => .bind (ih filled.2) fun _ => .pure _

theorem failsOnValues_fill (template : String) (v : Value) :
    FailsOnValues (fill template v) :=
  .bind (failsOnValues_fillPieces _ _) fun _ => .ite (.pure _) (.throw rfl)

end Template

namespace Value

mutual

theorem failsOnValues_compare? : ∀ v w : Value, FailsOnValues (v.compare? w)
  | .object identity content, w => by
    rw [compare?]
    exact failsOnValues_compare? content w
  | .text s, w => by
    rw [compare?]
    split
    · exact .pure _
    · exact .throw rfl
  | .list xs, w => by
    rw [compare?]
    split
    · exact failsOnValues_compareLists? xs _
    · exact .throw rfl
  | .tuple xs, w => by
    rw [compare?]
    split
    · exact failsOnValues_compareLists? xs _
    · exact .throw rfl
  | .none, w | .undefined, w | .bool _, w | .int _, w | .float _, w | .complex _, w
  | .symbol _, w | .map _, w | .node _, w | .cell .., w => by
    simp only [compare?]
    split
    · exact Scalar.failsOnValues_compare? _ _
    · exact .throw rfl

theorem failsOnValues_compareLists? : ∀ vs ws : List Value, FailsOnValues (compareLists? vs ws)
  | [], [] => by
    rw [compareLists?]
    exact .pure _
  | [], _ :: _ => by
    rw [compareLists?]
    exact .pure _
  | _ :: _, [] => by
    rw [compareLists?]
    exact .pure _
  | v :: vs, w :: ws => by
    rw [compareLists?]
    exact .ite (failsOnValues_compareLists? vs ws) (failsOnValues_compare? v w)

end

theorem failsOnValues_scalarOperation {operation : Scalar → Scalar → Except Error Scalar}
    (h : ∀ a b, FailsOnValues (operation a b)) (v w : Value) :
    FailsOnValues (scalarOperation operation v w) := by
  rw [scalarOperation]
  split
  · exact (h _ _).map _
  · exact .throw rfl

theorem failsOnValues_neg (v : Value) : FailsOnValues v.neg := by
  rw [neg]
  split
  · exact .pure _
  · exact .throw rfl

theorem failsOnValues_add (v w : Value) : FailsOnValues (v.add w) := by
  rw [add]
  split
  · exact .pure _
  · exact .pure _
  · exact .pure _
  · exact failsOnValues_scalarOperation Scalar.failsOnValues_add v w

theorem failsOnValues_checkLength (v : Value) (length : Nat) (count : Int) :
    FailsOnValues (checkLength v length count) := by
  rw [checkLength]
  split
  · exact .ite (.throw rfl) (.ite (.throw rfl) (.pure _))
  · exact .ite (.throw rfl) (.pure _)

theorem failsOnValues_of_repeat? {v : Value} {count : Int} {r : Except Error Value}
    (h : v.repeat? count = some r) : FailsOnValues r := by
  rw [repeat?] at h
  split at h
  all_goals
    cases h
    try exact .bind (failsOnValues_checkLength _ _ _) fun _ => .pure _

theorem failsOnValues_of_repetition? {v w : Value} {r : Except Error Value}
    (h : repetition? v w = some r) : FailsOnValues r := by
  obtain ⟨count, -, h⟩ := Option.bind_eq_some_iff.mp h
  split at h
  · exact failsOnValues_of_repeat? h
  · obtain ⟨-, -, rfl⟩ := Option.map_eq_some_iff.mp h
    exact .throw rfl

theorem failsOnValues_mul (v w : Value) : FailsOnValues (v.mul w) := by
  rw [mul]
  split
  · next r h =>
    rcases Option.or_eq_some_iff.mp h with h | ⟨-, h⟩
    · exact failsOnValues_of_repetition? h
    · exact failsOnValues_of_repetition? h
  · exact failsOnValues_scalarOperation Scalar.failsOnValues_mul v w

theorem failsOnValues_mod (v w : Value) : FailsOnValues (v.mod w) := by
  rw [mod]
  split
  · exact (Template.failsOnValues_fill _ w).map _
  · exact failsOnValues_scalarOperation Scalar.failsOnValues_mod v w

theorem failsOnValues_ordered (accepted : List Ordering) (v w : Value) :
    FailsOnValues (ordered accepted v w) :=
  .bind (failsOnValues_compare? v w) fun _ => .pure _

end Value

/-- An operator fails for reasons that lie in its operands. -/
theorem Operator.failsOnValues_apply (op : Operator) (v w : Value) :
    FailsOnValues (op.apply v w) := by
  cases op with
  | add => exact Value.failsOnValues_add v w
  | sub => exact Value.failsOnValues_scalarOperation Scalar.failsOnValues_sub v w
  | mul => exact Value.failsOnValues_mul v w
  | div => exact Value.failsOnValues_scalarOperation Scalar.failsOnValues_div v w
  | mod => exact Value.failsOnValues_mod v w
  | pow => exact Value.failsOnValues_scalarOperation Scalar.failsOnValues_pow v w
  | concat | eq | ne => exact .pure _
  | lt | gt | le | ge => exact Value.failsOnValues_ordered _ v w

/-! ### Builtins -/

namespace Builtin

theorem failsWithin_sumOf {allowed : ErrorKind → Bool} (hoverflow : allowed .overflow = true)
    (numbers : List Number) : FailsWithin allowed (sumOf numbers) :=
  .foldlM (Number.failsWithin_add hoverflow) numbers _

theorem failsOnValues_someLeaves (function : String) (args : List Value) :
    FailsOnValues (someLeaves function args) := by
  rw [someLeaves]
  split
  · exact .throw rfl
  · exact .pure _

theorem failsOnValues_meanOf (args : List Value) : FailsOnValues (meanOf args) :=
  .bind (failsOnValues_someLeaves _ args) fun _ =>
    .bind (failsWithin_sumOf rfl _) fun a => a.failsWithin_div rfl rfl _

theorem failsOnValues_oneNumber (function : String) (v : Value) :
    FailsOnValues (oneNumber function v) := by
  rw [oneNumber]
  split
  · exact .pure _
  · exact .throw rfl

theorem failsOnValues_oneInteger (function : String) (v : Value) :
    FailsOnValues (oneInteger function v) :=
  .bind (failsOnValues_oneNumber function v) Number.failsOnValues_truncate

theorem failsOnValues_nearest (v places : Value) : FailsOnValues (nearest v places) :=
  .bind (failsOnValues_oneNumber _ v) fun a => .bind (failsOnValues_oneInteger _ places) fun n =>
    .ite (.bind a.failsOnValues_round fun _ => .pure _) (a.failsOnValues_roundTo n)

theorem failsOnValues_scale (places : Int) : FailsOnValues (scale places) := by
  refine .bind (Number.failsOnValues_pow _ _) fun a => ?_
  split
  · exact .pure _
  · exact .throw rfl

theorem failsOnValues_roundBy {whole : Number → Except Error Int}
    (h : ∀ a, FailsOnValues (whole a)) (function : String) (v places : Value) :
    FailsOnValues (roundBy whole function v places) := by
  refine .bind (failsOnValues_oneNumber _ v) fun a => ?_
  refine .bind (failsOnValues_oneInteger _ places) fun n => ?_
  refine .bind (failsOnValues_scale n) fun factor => ?_
  refine .bind (Number.failsWithin_mul rfl _ _) fun scaled => ?_
  refine .bind (h scaled) fun m => ?_
  refine .bind (Number.failsWithin_div rfl rfl _ _) fun magnitude => ?_
  exact .ite (.bind (Number.failsOnValues_truncate _) fun _ => .pure _) (.pure _)

theorem failsOnValues_remainder (v w : Value) : FailsOnValues (remainder v w) :=
  .bind (failsOnValues_oneNumber _ v) fun a => .bind (failsOnValues_oneNumber _ w) fun b =>
    .ite (.throw rfl) (a.failsOnValues_mod b)

theorem failsOnValues_squareRoot (v : Value) : FailsOnValues (squareRoot v) :=
  .bind (failsOnValues_oneNumber _ v) fun a =>
    .ite (.throw rfl) (.bind (a.failsWithin_toBinary64 rfl) fun _ => .pure _)

theorem failsOnValues_characterCount (function : String) (v : Value) :
    FailsOnValues (characterCount function v) :=
  .bind (failsOnValues_oneInteger _ v) fun _ => .ite (.throw rfl) (.pure _)

theorem failsOnValues_leftPart (text count : Value) : FailsOnValues (leftPart text count) :=
  .bind (failsOnValues_characterCount _ count) fun _ => .pure _

theorem failsOnValues_rightPart (text count : Value) : FailsOnValues (rightPart text count) :=
  .bind (failsOnValues_characterCount _ count) fun _ => .pure _

theorem failsOnValues_middlePart (text start count : Value) :
    FailsOnValues (middlePart text start count) := by
  have hpart : ∀ start : Int, FailsOnValues (do
      let count ← characterCount "MID" count
      return String.ofList (((textOf text).toList.drop (start - 1).toNat).take count)) :=
    fun start => .bind (failsOnValues_characterCount _ count) fun _ => .pure _
  refine .bind (failsOnValues_oneInteger _ start) fun start => ?_
  exact .ite (.bind (.throw rfl) fun _ => hpart start) (hpart start)

theorem failsOnValues_logical (function : String) (combine : List Value → Bool)
    (args : List Value) : FailsOnValues (logical function combine args) :=
  .ite (.throw rfl) (.pure _)

/-- A builtin fails for reasons that lie in its arguments. -/
theorem failsOnValues_apply (b : Builtin) (args : List Value) : FailsOnValues (b.apply args) := by
  rw [apply.eq_def]
  split
  · exact (failsWithin_sumOf rfl _).map _
  · exact .bind (failsOnValues_someLeaves _ _) fun _ => .pure _
  · exact .bind (failsOnValues_someLeaves _ _) fun _ => .pure _
  · exact (failsOnValues_meanOf _).map _
  · exact .pure _
  · exact (failsOnValues_oneNumber _ _).map _
  · exact (failsOnValues_nearest _ _).map _
  · exact (failsOnValues_nearest _ _).map _
  · exact (failsOnValues_roundBy Number.failsOnValues_ceil _ _ _).map _
  · exact (failsOnValues_roundBy Number.failsOnValues_ceil _ _ _).map _
  · exact (failsOnValues_roundBy Number.failsOnValues_floor _ _ _).map _
  · exact (failsOnValues_roundBy Number.failsOnValues_floor _ _ _).map _
  · exact .bind (failsOnValues_oneNumber _ _) fun a =>
      .bind a.failsOnValues_floor fun _ => .pure _
  · exact (failsOnValues_remainder _ _).map _
  · exact .bind (failsOnValues_oneNumber _ _) fun a => .bind (failsOnValues_oneNumber _ _) fun b =>
      .bind (a.failsOnValues_pow b) fun _ => .pure _
  · exact (failsOnValues_squareRoot _).map _
  · exact (FailsWithin.bind (failsOnValues_oneNumber _ _) fun _ => .pure _).map _
  · exact failsOnValues_logical _ _ _
  · exact failsOnValues_logical _ _ _
  · exact .pure _
  · exact (failsOnValues_leftPart _ _).map _
  · exact (failsOnValues_leftPart _ _).map _
  · exact (failsOnValues_rightPart _ _).map _
  · exact (failsOnValues_rightPart _ _).map _
  · exact (failsOnValues_middlePart _ _ _).map _
  · exact .pure _
  · exact .pure _
  · exact .pure _
  · exact .pure _
  · exact .pure _
  · exact .throw rfl

end Builtin

/-! ### Functions of the spreadsheet library -/

theorem Item.failsOnValues_take (item : Item) (cell : Value) :
    FailsOnValues (item.take cell) := by
  rw [take.eq_def]
  split
  · exact .pure _
  · exact .pure _
  · exact .pure _
  · exact .throw rfl
  · exact .pure _

theorem Value.failsOnValues_plainResult (raw : Value) : FailsOnValues raw.plainResult := by
  rw [plainResult]
  split
  · exact .ite (.bind (Item.failsOnValues_take _ raw) fun _ => .pure _) (.pure _)
  · exact .pure _

/-! ### The spreadsheet library -/

namespace Sheet

/-- Whether what a library has under a name fails in allowed ways only. -/
def FailsOnly (Allowed : Error → Prop) (sheet : Sheet) (name : String) : Prop :=
  ∀ answer, sheet name = some answer → ∀ args fault, answer args = .error fault → Allowed fault

/-- Taking the item out of a cell adds failures only that lie in values. -/
theorem failsOnly_apply {Allowed : Error → Prop}
    (hvalues : ∀ fault : Error, fault.kind.isOfValues = true → Allowed fault) {sheet : Sheet}
    {name : String} (hname : sheet.FailsOnly Allowed name) {args : List Value} {fault : Error}
    (h : sheet.apply name args = .error fault) : Allowed fault := by
  rw [apply] at h
  split at h
  · cases h
    exact hvalues .wrongType rfl
  · next answer hanswer =>
    rcases hraw : answer args with fault' | raw
    · rw [hraw] at h
      cases h
      exact hname answer hanswer args fault hraw
    · rw [hraw] at h
      exact hvalues fault (Value.failsOnValues_plainResult raw fault h)

end Sheet

end Formulary

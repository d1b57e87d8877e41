import Formulary.Proofs.Expr.Calls
import Formulary.Proofs.Function.Failures

/-!
# Aggregates see numbers only

Reading arguments from left to right comes to a list of numbers (`Value.Reads`): what is in a list
or tuple is read in its place, so nesting and empty lists leave no trace, a truth value is one or
zero, and everything else is passed over. Every list of arguments is read in just one way
(`Value.reads_iff`).

What an aggregate gives is a function of these numbers (`Builtin.map_bare_apply`), so arguments that
are read as the same numbers have the same result or the same failure
(`Builtin.sameResult_of_reads`). The least and the greatest number are answered as they stand in the
arguments; a NaN there may be marked as one object or another, so results are compared without
marks, and with them where the numbers that are read stand there alike.
-/

namespace Formulary

/-! ### Reading numbers -/

namespace Value

/-- Whether a value is a list or a tuple. -/
def isSequence : Value → Bool
  | .list _ | .tuple _ => true
  | _ => false

/-- Whether a list of values, read from left to right, comes to these numbers. -/
inductive Reads : List Value → List NumericLeaf → Prop
  | nil : Reads [] []
  | list {items rest leaves} (h : Reads (items ++ rest) leaves) : Reads (.list items :: rest) leaves
  | tuple {items rest leaves} (h : Reads (items ++ rest) leaves) :
      Reads (.tuple items :: rest) leaves
  | truth {v b rest leaves} (hv : v.bare = .bool b) (h : Reads rest leaves) :
      Reads (v :: rest) (⟨.int b.toNat, .int b.toNat⟩ :: leaves)
  | number {v a rest leaves} (hv : v.bare = .ofNumber a) (h : Reads rest leaves) :
      Reads (v :: rest) (⟨a, v⟩ :: leaves)
  | other {v rest leaves} (hv : v.isSequence = false) (hnumber : v.number? = Option.none)
      (h : Reads rest leaves) : Reads (v :: rest) leaves

variable {v : Value} {a : Number} {b : Bool} {args rest : List Value} {leaves : List NumericLeaf}

theorem number?_bare (v : Value) : v.bare.number? = v.number? := by
  fun_induction bare v with
  | case1 identity content ih => exact ih
  | case2 v h => rfl

/-- What stands for a number is a truth value or the number itself. -/
theorem bare_of_number? (h : v.number? = some a) :
    (∃ b : Bool, v.bare = .bool b ∧ a = .int b.toNat) ∨ v.bare = .ofNumber a := by
  fun_induction number? v with
  | case1 b => exact .inl ⟨b, rfl, (Option.some.inj h).symm⟩
  | case2 n => exact .inr (Option.some.inj h ▸ rfl)
  | case3 x => exact .inr (Option.some.inj h ▸ rfl)
  | case4 identity content ih => exact ih h
  | case5 => cases h

theorem leavesAsGiven_of_isSequence (h : v.isSequence = false) :
    v.leavesAsGiven = v.numericLeaf?.toList := by
  rw [leavesAsGiven]
  · rintro items rfl
    cases h
  · rintro items rfl
    cases h

theorem leavesAsGiven_truth (hv : v.bare = .bool b) :
    v.leavesAsGiven = [⟨.int b.toNat, .int b.toNat⟩] := by
  have hsequence : v.isSequence = false := by
    cases v with
    | list items => cases hv
    | tuple items => cases hv
    | _ => rfl
  rw [leavesAsGiven_of_isSequence hsequence, numericLeaf?, ← number?_bare, hv]
  rfl

theorem leavesAsGiven_number (hv : v.bare = .ofNumber a) : v.leavesAsGiven = [⟨a, v⟩] := by
  have hsequence : v.isSequence = false := by
    cases v with
    | list items => cases a <;> cases hv
    | tuple items => cases a <;> cases hv
    | _ => rfl
  rw [leavesAsGiven_of_isSequence hsequence, numericLeaf?, ← number?_bare, hv]
  cases a with
  | int n => rfl
  | float x => rfl

theorem allLeavesAsGiven_append (args rest : List Value) :
    allLeavesAsGiven (args ++ rest) = allLeavesAsGiven args ++ allLeavesAsGiven rest := by
  induction args with
  | nil => rfl
  | cons v args ih =>
    rw [List.cons_append, allLeavesAsGiven, ih, allLeavesAsGiven, List.append_assoc]

/-- A value that is opened no further is read as the number that it stands for, if any. -/
theorem Reads.single (hv : v.isSequence = false) (h : Reads rest leaves) :
    Reads (v :: rest) (v.leavesAsGiven ++ leaves) := by
  rcases hnumber : v.number? with - | a
  · rw [leavesAsGiven_of_isSequence hv, numericLeaf?, hnumber]
    exact .other hv hnumber h
  · rcases bare_of_number? hnumber with ⟨b, hbare, -⟩ | hbare
    · rw [leavesAsGiven_truth hbare]
      exact .truth hbare h
    · rw [leavesAsGiven_number hbare]
      exact .number hbare h

mutual

theorem Reads.ofValue : ∀ (v : Value) {rest : List Value} {leaves : List NumericLeaf},
    Reads rest leaves → Reads (v :: rest) (v.leavesAsGiven ++ leaves)
  | .list items, rest, leaves, h => by
    rw [leavesAsGiven]
    exact .list (ofValues items h)
  | .tuple items, rest, leaves, h => by
    rw [leavesAsGiven]
    exact .tuple (ofValues items h)
  | .none, _, _, h | .bool _, _, _, h | .int _, _, _, h | .float _, _, _, h | .complex _, _, _, h
  | .text _, _, _, h | .map _, _, _, h | .symbol _, _, _, h | .undefined, _, _, h
  | .node _, _, _, h | .cell .., _, _, h | .object .., _, _, h => .single rfl h

theorem Reads.ofValues : ∀ (vs : List Value) {rest : List Value} {leaves : List NumericLeaf},
    Reads rest leaves → Reads (vs ++ rest) (allLeavesAsGiven vs ++ leaves)
  | [], _, _, h => h
  | v :: vs, rest, leaves, h => by
    rw [allLeavesAsGiven, List.append_assoc]
    exact ofValue v (ofValues vs h)

end

/-- **Arguments are read in just one way.** -/
theorem reads_iff : Reads args leaves ↔ allLeavesAsGiven args = leaves := by
  constructor
  · intro h
    induction h with
    | nil => rfl
    | @list items rest leaves _ ih | @tuple items rest leaves _ ih =>
      rw [allLeavesAsGiven, leavesAsGiven, ← allLeavesAsGiven_append, ih]
    | truth hv _ ih => rw [allLeavesAsGiven, leavesAsGiven_truth hv, ih, List.singleton_append]
    | number hv _ ih => rw [allLeavesAsGiven, leavesAsGiven_number hv, ih, List.singleton_append]
    | other hv hnumber _ ih =>
      rw [allLeavesAsGiven, leavesAsGiven_of_isSequence hv, numericLeaf?, hnumber, ih]
      rfl
  · rintro rfl
    have h := Reads.ofValues args .nil
    rwa [List.append_nil, List.append_nil] at h

/-- What is read stands for its number. -/
theorem Reads.bare_value (h : Reads args leaves) :
    ∀ leaf ∈ leaves, leaf.value.bare = .ofNumber leaf.number := by
  induction h with
  | nil => simp
  | list _ ih | tuple _ ih | other _ _ _ ih => exact ih
  | truth hv _ ih => exact List.forall_mem_cons.mpr ⟨rfl, ih⟩
  | number hv _ ih => exact List.forall_mem_cons.mpr ⟨hv, ih⟩

end Value

namespace Builtin

/-! ### What aggregates give -/

/-- Whether a builtin is a function of the numbers in its arguments. -/
def isAggregate : Builtin → Bool
  | .sum | .min | .max | .average | .count => true
  | _ => false

/-- Whether an aggregate must have a number to look at. -/
def needsNumber : Builtin → Bool
  | .min | .max | .average => true
  | _ => false

/-- The first number that no later one is better than. -/
def bestNumber (isBetter : Number → Number → Bool) (first : Number) (rest : List Number) : Number :=
  rest.foldl (fun best a => if isBetter a best then a else best) first

/-- What an aggregate gives for the numbers that its arguments are read as. -/
def ofNumbers : Builtin → List Number → Except Error Value
  | .sum, numbers => (sumOf numbers).map .ofNumber
  | .count, numbers => pure (.int numbers.length)
  | .min, first :: rest => pure (.ofNumber (bestNumber Number.isBelow first rest))
  | .max, first :: rest => pure (.ofNumber (bestNumber (fun a b => b.isBelow a) first rest))
  | .average, first :: rest =>
    (sumOf (first :: rest) >>= (·.div (.int (rest.length + 1)))).map .ofNumber
  | b, _ => throw (.argument (.noNumbers b.name))

variable {b : Builtin} {args args' : List Value} {leaves leaves' : List NumericLeaf}

theorem number_bestOf (isBetter : Number → Number → Bool) (first : NumericLeaf)
    (rest : List NumericLeaf) : (bestOf isBetter first rest).number =
      bestNumber isBetter first.number (rest.map NumericLeaf.number) := by
  induction rest generalizing first with
  | nil => rfl
  | cons leaf rest ih =>
    rw [bestOf, List.foldl_cons, ← bestOf, ih, List.map_cons, bestNumber, bestNumber,
      List.foldl_cons]
    split
    · rfl
    · rfl

/-- The best number is one that is read, and stands for itself. -/
theorem bare_bestOf {isBetter : Number → Number → Bool} {first : NumericLeaf}
    {rest : List NumericLeaf} (h : Value.Reads args (first :: rest)) :
    (bestOf isBetter first rest).value.bare =
      .ofNumber (bestNumber isBetter first.number (rest.map NumericLeaf.number)) := by
  rw [h.bare_value _ (bestOf_mem isBetter first rest), number_bestOf]

theorem allNumericLeaves_of_reads (h : Value.Reads args leaves) :
    Value.allNumericLeaves args = leaves.map NumericLeaf.number := by
  rw [Value.allNumericLeaves, Value.reads_iff.mp h]

theorem map_bare_ofNumber (result : Except Error Number) :
    (result.map Value.ofNumber).map Value.bare = result.map Value.ofNumber := by
  rcases result with e | (n | x)
  · rfl
  · rfl
  · rfl

/-- **An aggregate is a function of the numbers** that its arguments are read as. -/
theorem map_bare_apply (hb : b.isAggregate = true) (h : Value.Reads args leaves) :
    (b.apply args).map Value.bare = b.ofNumbers (leaves.map NumericLeaf.number) := by
  -- a sum, a mean and a count are new values; only the least and the greatest may bear a mark
  cases b with
  | sum => rw [apply, map_bare_ofNumber, allNumericLeaves_of_reads h, ofNumbers]
  | count =>
    rw [apply, allNumericLeaves_of_reads h]
    rfl
  | min =>
    rw [apply, least, someLeaves, Value.reads_iff.mp h]
    cases leaves with
    | nil => rfl
    | cons first rest => exact congrArg Except.ok (bare_bestOf h)
  | max =>
    rw [apply, greatest, someLeaves, Value.reads_iff.mp h]
    cases leaves with
    | nil => rfl
    | cons first rest => exact congrArg Except.ok (bare_bestOf h)
  | average =>
    rw [apply, map_bare_ofNumber, meanOf, someLeaves, Value.reads_iff.mp h]
    cases leaves with
    | nil => rfl
    | cons first rest =>
      rw [List.map_cons, ofNumbers, List.length_map]
      rfl
  | _ => cases hb

/-- Arguments that are read alike have one result, marks included. -/
theorem apply_eq_of_reads (hb : b.isAggregate = true) (h : Value.Reads args leaves)
    (h' : Value.Reads args' leaves) : b.apply args = b.apply args' := by
  have hleaves : Value.allLeavesAsGiven args = Value.allLeavesAsGiven args' :=
    (Value.reads_iff.mp h).trans (Value.reads_iff.mp h').symm
  cases b with
  | sum => rw [apply, apply, allNumericLeaves_of_reads h, allNumericLeaves_of_reads h']
  | count => rw [apply, apply, allNumericLeaves_of_reads h, allNumericLeaves_of_reads h']
  | min => rw [apply, apply, least, least, someLeaves, someLeaves, hleaves]
  | max => rw [apply, apply, greatest, greatest, someLeaves, someLeaves, hleaves]
  | average => rw [apply, apply, meanOf, meanOf, someLeaves, someLeaves, hleaves]
  | _ => cases hb

/-! ### Complaints -/

/-- An aggregate that has a number to look at, or needs none, does not complain about its
arguments. -/
theorem failsWithin_ofNumbers {numbers : List Number} (hb : b.isAggregate = true)
    (h : b.needsNumber = true → numbers ≠ []) :
    FailsWithin (· != .argument) (b.ofNumbers numbers) := by
  cases b with
  | sum => exact (failsWithin_sumOf rfl numbers).map _
  | count => exact .pure _
  | min | max =>
    cases numbers with
    | nil => exact absurd rfl (h rfl)
    | cons first rest => exact .pure _
  | average =>
    cases numbers with
    | nil => exact absurd rfl (h rfl)
    | cons first rest =>
      have hmean : FailsWithin (· != .argument)
          (sumOf (first :: rest) >>= (·.div (.int (rest.length + 1)))) :=
        .bind (failsWithin_sumOf rfl _) fun sum => sum.failsWithin_div rfl rfl _
      exact hmean.map _
  | _ => cases hb

theorem ofNumbers_nil (h : b.needsNumber = true) :
    b.ofNumbers [] = .error (.argument (.noNumbers b.name)) := by
  cases b with
  | min | max | average => rfl
  | _ => cases h

theorem apply_eq_error_iff (hb : b.isAggregate = true) (h : Value.Reads args leaves) {e : Error} :
    b.apply args = .error e ↔ b.ofNumbers (leaves.map NumericLeaf.number) = .error e := by
  rw [← map_bare_apply hb h]
  rcases b.apply args with e' | v
  · rfl
  · constructor
    · intro h
      cases h
    · intro h
      cases h

/-- **An aggregate complains about its arguments just if it needs a number and there is none.** -/
theorem complains_iff (hb : b.isAggregate = true) (h : Value.Reads args leaves) :
    (∃ e, b.apply args = .error e ∧ e.kind = .argument) ↔ leaves = [] ∧ b.needsNumber = true := by
  constructor
  · rintro ⟨e, he, hkind⟩
    rw [apply_eq_error_iff hb h] at he
    by_contra hnot
    have hsome : b.needsNumber = true → leaves.map NumericLeaf.number ≠ [] :=
      fun hneeds hnil => hnot ⟨List.map_eq_nil_iff.mp hnil, hneeds⟩
    have hfails := failsWithin_ofNumbers hb hsome e he
    simp [hkind] at hfails
  · rintro ⟨rfl, hneeds⟩
    exact ⟨_, (apply_eq_error_iff hb h).mpr (ofNumbers_nil hneeds), rfl⟩

/-- **Aggregates see the sequence of numbers only.** Two lists of arguments that are read as the
same numbers, however they are nested and whatever else is in them, have the same result or the same
failure, which is a complaint about the arguments just if a number is needed and there is none; and
counting counts the numbers. -/
theorem sameResult_of_reads (hb : b.isAggregate = true) (h : Value.Reads args leaves)
    (h' : Value.Reads args' leaves')
    (hsame : leaves.map NumericLeaf.number = leaves'.map NumericLeaf.number) :
    (b.apply args).map Value.bare = (b.apply args').map Value.bare ∧
    (leaves = leaves' → b.apply args = b.apply args') ∧
    ((∃ e, b.apply args = .error e ∧ e.kind = .argument) ↔
      leaves = [] ∧ (b = .min ∨ b = .max ∨ b = .average)) ∧
    (b = .count → b.apply args = .ok (.int leaves.length)) := by
  refine ⟨?_, ?_, ?_, ?_⟩
  · rw [map_bare_apply hb h, map_bare_apply hb h', hsame]
  · rintro rfl
    exact apply_eq_of_reads hb h h'
  · rw [complains_iff hb h]
    cases b <;> simp [needsNumber]
  · rintro rfl
    rw [apply, allNumericLeaves_of_reads h, List.length_map]
    rfl

/-- Some numbers in a list, with a tuple in it that has a truth value. -/
def nestedNumbers : List Value := [.list [.int 2, .tuple [.text "x", .bool true]], .none]

/-- The same numbers beside each other. -/
def plainNumbers : List Value := [.list [], .int 2, .int 1]

theorem max_nestedNumbers : Value.Reads nestedNumbers [⟨.int 2, .int 2⟩, ⟨.int 1, .int 1⟩] ∧
    Value.Reads plainNumbers [⟨.int 2, .int 2⟩, ⟨.int 1, .int 1⟩] ∧
    Builtin.max.apply nestedNumbers = Builtin.max.apply plainNumbers ∧
    Builtin.max.apply plainNumbers = .ok (.int 2) := by
  have h : Value.Reads nestedNumbers [⟨.int 2, .int 2⟩, ⟨.int 1, .int 1⟩] :=
    Value.reads_iff.mpr rfl
  have h' : Value.Reads plainNumbers [⟨.int 2, .int 2⟩, ⟨.int 1, .int 1⟩] :=
    Value.reads_iff.mpr rfl
  exact ⟨h, h', (sameResult_of_reads rfl h h' rfl).2.1 rfl, rfl⟩

end Builtin

end Formulary

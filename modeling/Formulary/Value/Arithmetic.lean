import Formulary.Value.Equality
import Formulary.Value.Template

/-!
# Operators on values

Arithmetic works on scalars, a truth value counting as one or zero. Addition also joins two texts,
two lists or two tuples; multiplication repeats one of these; the remainder fills a template; and
concatenation joins the texts of any two values, nothing having the empty text. Equality is defined
for all values, the order for some (see `Value.compare?`).
-/

namespace Formulary

namespace Value

/-- An operation on scalars, which other values do not have. -/
def scalarOperation (operation : Scalar → Scalar → Except Error Scalar) (v w : Value) :
    Except Error Value :=
  match v.scalar?, w.scalar? with
  | some a, some b => (operation a b).map ofScalar
  | _, _ => throw .wrongType

/-- The opposite of a scalar. -/
def neg (v : Value) : Except Error Value :=
  match v.scalar? with
  | some a => pure (ofScalar a.neg)
  | Option.none => throw .wrongType

/-- The sum of two scalars, or two texts, lists or tuples joined. -/
def add (v w : Value) : Except Error Value :=
  match v.bare, w.bare with
  | .text s, .text t => pure (.text (s ++ t))
  | .list xs, .list ys => pure (.list (xs ++ ys))
  | .tuple xs, .tuple ys => pure (.tuple (xs ++ ys))
  | _, _ => scalarOperation Scalar.add v w

/-- A list repeated; a negative count gives the empty list. -/
def repeated {α : Type} (items : List α) (count : Int) : List α :=
  if items.isEmpty then [] else (List.replicate count.toNat items).flatten

/-- A text repeated; a negative count gives the empty text. -/
def repeatedText (s : String) (count : Int) : String :=
  if s.isEmpty then "" else count.toNat.repeat (· ++ s) ""

/-- The counts that a sequence can be repeated by are those of a 64-bit word with a sign. -/
def isRepeatCount (count : Int) : Bool := -wordLimit ≤ count && count < wordLimit

/-- The length of a sequence repeated; there must be room for it, and a text whose length no word
holds is an overflow. -/
def checkLength (v : Value) (length : Nat) (count : Int) : Except Error Unit :=
  let total := length * count
  match v.bare with
  | .text _ =>
    if wordLimit ≤ total then throw .overflow
    else if roomLimit < total then throw .outOfRoom else pure ()
  | _ => if roomLimit < total then throw .outOfRoom else pure ()

/-- A text, list or tuple repeated, or nothing for other values. -/
def repeat? (v : Value) (count : Int) : Option (Except Error Value) :=
  match v.bare with
  | .text s => some do
    checkLength v s.length count
    return .text (repeatedText s count)
  | .list xs => some do
    checkLength v xs.length count
    return .list (repeated xs count)
  | .tuple xs => some do
    checkLength v xs.length count
    return .tuple (repeated xs count)
  | _ => Option.none

/-- A sequence repeated by the count that another value stands for, or nothing if there is no
sequence or no count. -/
def repetition? (v w : Value) : Option (Except Error Value) := do
  let count ← w.integer?
  if isRepeatCount count then v.repeat? count
  else (v.repeat? 0).map fun _ => throw .overflow

/-- The product of two scalars, or a sequence repeated by a count on either side. -/
def mul (v w : Value) : Except Error Value :=
  match (repetition? v w).or (repetition? w v) with
  | some result => result
  | Option.none => scalarOperation Scalar.mul v w

/-- The remainder of two scalars, or a template filled. -/
def mod (v w : Value) : Except Error Value :=
  match v.text? with
  | some template => (Template.fill template w).map .text
  | Option.none => scalarOperation Scalar.mod v w

/-- The text of a value in a concatenation; nothing has the empty text. -/
def concatText (v : Value) : String :=
  match v.bare with
  | .none => ""
  | _ => v.display

/-- Whether two values are in one of the given orders. -/
def ordered (accepted : List Ordering) (v w : Value) : Except Error Value := do
  return .bool ((← v.compare? w).any accepted.contains)

end Value

/-- The result of an operator on two values. -/
def Operator.apply : Operator → Value → Value → Except Error Value
  | .add, v, w => v.add w
  | .sub, v, w => Value.scalarOperation Scalar.sub v w
  | .mul, v, w => v.mul w
  | .div, v, w => Value.scalarOperation Scalar.div v w
  | .mod, v, w => v.mod w
  | .pow, v, w => Value.scalarOperation Scalar.pow v w
  | .concat, v, w => pure (.text (v.concatText ++ w.concatText))
  | .eq, v, w => pure (.bool (v.equals w))
  | .ne, v, w => pure (.bool !(v.equals w))
  | .lt, v, w => Value.ordered [.lt] v w
  | .gt, v, w => Value.ordered [.gt] v w
  | .le, v, w => Value.ordered [.lt, .eq] v w
  | .ge, v, w => Value.ordered [.gt, .eq] v w

end Formulary

import Formulary.Value.Basic

/-!
# Objects

A value is an object if it matters which one it is: a NaN, a tree, a cell or a mapping. `identified`
marks the objects in a value that have no mark yet, each with its place among them, so that from
then on every copy of the value has the same objects in it. A value whose objects are all marked
stays as it is.

The marks that are given on the way to calls of routines are for a while. `released` takes those
from a number on away, and `settled` puts lasting ones in their place, so that they can be given
again.
-/

namespace Formulary

/-- Whether an object was made on the way to a call in a step from a number on. -/
def Identity.isCallFrom (step number : Nat) (i : Identity) : Bool :=
  match i.origin with
  | .call s n => s == step && number ≤ n
  | _ => false

namespace Value

/-- Whether a value equals nothing but itself, and inside a list, tuple or mapping only there. -/
def isOpaque (v : Value) : Bool :=
  match v.bare with
  | .node _ | .cell .. => true
  | _ => false

/-- Whether it matters which one a value is. -/
def isObject : Value → Bool
  | .float x => x.isNan
  | .complex z => z.re.isNan || z.im.isNan
  | .map _ | .node _ | .cell .. => true
  | _ => false

/-- A value marked as an object, if it matters which one it is. -/
def marked (identity : Identity) (v : Value) : Value :=
  if v.isObject then .object identity v else v

/-- Whether two values are one and the same marked object. -/
def isSameObject (v w : Value) : Bool :=
  match v.identity?, w.identity? with
  | some i, some j => i == j
  | _, _ => false

/-! ### Marking -/

mutual

/-- A value with its objects marked, from a place on, and the place after the last one. -/
def identifyFrom (origin : Origin) (place : Nat) : Value → Value × Nat
  | .list items =>
    let (items, after) := identifyAll origin place items
    (.list items, after)
  | .tuple items =>
    let (items, after) := identifyAll origin place items
    (.tuple items, after)
  | .map entries =>
    let (entries, after) := identifyEntries origin place entries
    (.object ⟨origin, after⟩ (.map entries), after + 1)
  | v => if v.isObject then (.object ⟨origin, place⟩ v, place + 1) else (v, place)

/-- The values of a list with their objects marked. -/
def identifyAll (origin : Origin) (place : Nat) : List Value → List Value × Nat
  | [] => ([], place)
  | v :: vs =>
    let (v, place) := v.identifyFrom origin place
    let (vs, place) := identifyAll origin place vs
    (v :: vs, place)

/-- The entries of a mapping with their objects marked. -/
def identifyEntries (origin : Origin) (place : Nat) :
    List (Value × Value) → List (Value × Value) × Nat
  | [] => ([], place)
  | (k, v) :: rest =>
    let (k, place) := k.identifyFrom origin place
    let (v, place) := v.identifyFrom origin place
    let (rest, place) := identifyEntries origin place rest
    ((k, v) :: rest, place)

end

/-- A value with its objects marked as objects of an origin. -/
def identified (origin : Origin) (v : Value) : Value := (v.identifyFrom origin 0).1

/-- The values of a list with their objects marked as objects of one origin. -/
def allIdentified (origin : Origin) (vs : List Value) : List Value := (identifyAll origin 0 vs).1

/-! ### Changing marks -/

mutual

/-- The identities of the marked objects in a value, from left to right. -/
def marks : Value → List Identity
  | .list items => allMarks items
  | .tuple items => allMarks items
  | .map entries => entriesMarks entries
  | .object identity content => identity :: content.marks
  | _ => []

/-- The identities of the marked objects in the values of a list. -/
def allMarks : List Value → List Identity
  | [] => []
  | v :: vs => v.marks ++ allMarks vs

/-- The identities of the marked objects in the entries of a mapping. -/
def entriesMarks : List (Value × Value) → List Identity
  | [] => []
  | (k, v) :: rest => k.marks ++ v.marks ++ entriesMarks rest

end

mutual

/-- A value with another identity for each marked object, or no mark where there is none. -/
def remarked (change : Identity → Option Identity) : Value → Value
  | .list items => .list (allRemarked change items)
  | .tuple items => .tuple (allRemarked change items)
  | .map entries => .map (entriesRemarked change entries)
  | .object identity content =>
    match change identity with
    | some other => .object other (content.remarked change)
    | Option.none => content.remarked change
  | v => v

/-- The values of a list with another identity for each marked object. -/
def allRemarked (change : Identity → Option Identity) : List Value → List Value
  | [] => []
  | v :: vs => v.remarked change :: allRemarked change vs

/-- The entries of a mapping with another identity for each marked object. -/
def entriesRemarked (change : Identity → Option Identity) :
    List (Value × Value) → List (Value × Value)
  | [] => []
  | (k, v) :: rest => (k.remarked change, v.remarked change) :: entriesRemarked change rest

end

/-- Whether an object of a call in a step from a number on is in a value. -/
def holdsCallFrom (step number : Nat) (v : Value) : Bool :=
  v.marks.any (·.isCallFrom step number)

/-- A value without the marks of the calls in a step from a number on. -/
def released (step number : Nat) (v : Value) : Value :=
  v.remarked fun i => if i.isCallFrom step number then Option.none else some i

/-- A value in which the objects of the calls in a step from a number on, and those without a mark,
are marked as objects of another origin. What was one object stays one. -/
def settled (origin : Origin) (step number : Nat) (v : Value) : Value :=
  let calls := (v.marks.filter (·.isCallFrom step number)).eraseDups
  let moved := v.remarked fun i => some (if i ∈ calls then ⟨origin, calls.idxOf i⟩ else i)
  (moved.identifyFrom origin calls.length).1

end Value

end Formulary

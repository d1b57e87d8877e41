import Formulary.Number.Rounding
import Formulary.Text.Blank
import Formulary.Text.LetterCase
import Formulary.Value.Arithmetic

/-!
# Builtin functions

The aggregates see their arguments as the list of their numeric leaves: lists and tuples are opened
at every depth, truth values count as one or zero, and everything else is passed over. The least and
the greatest leaf are answered as they are; the other results are new numbers. A function
of one number takes the first numeric leaf of its argument. The text functions see the text of
their argument, in which nothing is empty and truth values are upper-case words.

`Builtin.function` gives each builtin its name, return type and numbers of arguments, and
`Builtin.apply` its result.
-/

namespace Formulary

/-- A number in a value, as it stands there. -/
structure NumericLeaf where
  number : Number
  value : Value

/-- The leaf that a single value is; a truth value counts as a new integer. -/
def Value.numericLeaf? (v : Value) : Option NumericLeaf :=
  v.number?.map fun a => ⟨a, match v.bare with
    | .bool _ => .ofNumber a
    | _ => v⟩

mutual

/-- The numbers in a value as they stand there, from left to right, with lists and tuples opened. -/
def Value.leavesAsGiven : Value → List NumericLeaf
  | .list items => Value.allLeavesAsGiven items
  | .tuple items => Value.allLeavesAsGiven items
  | v => v.numericLeaf?.toList

/-- The numbers in a list of values as they stand there, from left to right. -/
def Value.allLeavesAsGiven : List Value → List NumericLeaf
  | [] => []
  | v :: vs => v.leavesAsGiven ++ Value.allLeavesAsGiven vs

end

/-- The numbers in a value, from left to right, with lists and tuples opened. -/
def Value.numericLeaves (v : Value) : List Number := v.leavesAsGiven.map NumericLeaf.number

/-- The numbers in a list of values, from left to right. -/
def Value.allNumericLeaves (vs : List Value) : List Number :=
  (Value.allLeavesAsGiven vs).map NumericLeaf.number

namespace Builtin

/-- The name that a builtin is registered under. -/
def name : Builtin → String
  | .sum => "SUM"
  | .min => "MIN"
  | .max => "MAX"
  | .average => "AVERAGE"
  | .count => "COUNT"
  | .abs => "ABS"
  | .round => "ROUND"
  | .roundUp => "ROUNDUP"
  | .roundDown => "ROUNDDOWN"
  | .int => "INT"
  | .mod => "MOD"
  | .power => "POWER"
  | .sqrt => "SQRT"
  | .sign => "SIGN"
  | .and => "AND"
  | .or => "OR"
  | .not => "NOT"
  | .left => "LEFT"
  | .right => "RIGHT"
  | .mid => "MID"
  | .len => "LEN"
  | .concat => "CONCAT"
  | .upper => "UPPER"
  | .lower => "LOWER"
  | .trim => "TRIM"

/-- All builtins, in the order of their registration. -/
def all : List Builtin :=
  [.sum, .min, .max, .average, .count, .abs, .round, .roundUp, .roundDown, .int, .mod, .power,
   .sqrt, .sign, .and, .or, .not, .left, .right, .mid, .len, .concat, .upper, .lower, .trim]

/-- What kind of value a builtin gives. -/
def returnType : Builtin → ReturnType
  | .and | .or | .not => .logical
  | .left | .right | .mid | .concat | .upper | .lower | .trim => .string
  | _ => .numeric

/-- The least and greatest number of arguments of a builtin. -/
def arity : Builtin → Nat × Option Nat
  | .sum | .min | .max | .average | .count | .and | .or | .concat => (0, none)
  | .round | .roundUp | .roundDown | .left | .right => (1, some 2)
  | .mod | .power => (2, some 2)
  | .mid => (3, some 3)
  | _ => (1, some 1)

/-- The function that a builtin is registered as. -/
def function (b : Builtin) : Function where
  name := b.name
  returnType := b.returnType
  body := .builtin b
  minArgs := b.arity.1
  maxArgs := b.arity.2

/-! ### Aggregates -/

/-- The sum of numbers from left to right, starting at the integer zero. -/
def sumOf (numbers : List Number) : Except Error Number :=
  numbers.foldlM Number.add (.int 0)

/-- The first leaf whose number no later one is better than. -/
def bestOf (isBetter : Number → Number → Bool) (first : NumericLeaf) (rest : List NumericLeaf) :
    NumericLeaf :=
  rest.foldl (fun best leaf => if isBetter leaf.number best.number then leaf else best) first

/-- The numeric leaves of the arguments, of which there must be one. -/
def someLeaves (function : String) (args : List Value) :
    Except Error (NumericLeaf × List NumericLeaf) :=
  match Value.allLeavesAsGiven args with
  | [] => throw (.argument (.noNumbers function))
  | first :: rest => pure (first, rest)

/-- The least number; of equal ones the first. -/
def least (args : List Value) : Except Error Value := do
  let (first, rest) ← someLeaves "MIN" args
  return (bestOf Number.isBelow first rest).value

/-- The greatest number; of equal ones the first. -/
def greatest (args : List Value) : Except Error Value := do
  let (first, rest) ← someLeaves "MAX" args
  return (bestOf (fun a b => b.isBelow a) first rest).value

/-- The sum divided by the number of numbers. -/
def meanOf (args : List Value) : Except Error Number := do
  let (first, rest) ← someLeaves "AVERAGE" args
  (← sumOf ((first :: rest).map NumericLeaf.number)).div (.int (rest.length + 1))

/-! ### Functions of one number -/

/-- The first numeric leaf of an argument. -/
def oneNumber (function : String) (v : Value) : Except Error Number :=
  match v.numericLeaves with
  | a :: _ => pure a
  | [] => throw (.argument (.notNumeric function v.shown))

/-- The first numeric leaf of an argument, cut to its whole part. -/
def oneInteger (function : String) (v : Value) : Except Error Int := do
  (← oneNumber function v).truncate

/-- A number rounded to places, to the nearest multiple with halves to even. -/
def nearest (v places : Value) : Except Error Number := do
  let a ← oneNumber "ROUND" v
  let places ← oneInteger "ROUND" places
  if places = 0 then return .int (← a.round) else a.roundTo places

/-- The power of ten that scales a number by places; below one it is a floating-point number. -/
def scale (places : Int) : Except Error Number := do
  match ← Number.pow (.int 10) (.int places) with
  | .real a => return a
  | .complex _ => throw .wrongType

/-- A number rounded to places through its scaled magnitude, which `whole` makes whole. The result
is divided down again, so it is as exact as that division. -/
def roundBy (whole : Number → Except Error Int) (function : String) (v places : Value) :
    Except Error Number := do
  let a ← oneNumber function v
  let places ← oneInteger function places
  let factor ← scale places
  let magnitude ← (Number.int (← whole (← a.abs.mul factor))).div factor
  let rounded := if a.isBelow (.int 0) then magnitude.neg else magnitude
  if places ≤ 0 then return .int (← rounded.truncate) else return rounded

/-- The remainder that has the sign of the divisor. -/
def remainder (v w : Value) : Except Error Number := do
  let a ← oneNumber "MOD" v
  let b ← oneNumber "MOD" w
  if b.isZero then throw .moduloByZero else a.mod b

/-- The square root of a number that is not negative. -/
def squareRoot (v : Value) : Except Error Number := do
  let a ← oneNumber "SQRT" v
  if a.isBelow (.int 0) then throw (.argument (.negativeRoot a.text))
  else return .float ((← a.toBinary64).apply Float.sqrt)

/-- One, minus one or zero, as a number is above, below or neither. -/
def signOf (v : Value) : Except Error Number := do
  let a ← oneNumber "SIGN" v
  return .int (if (Number.int 0).isBelow a then 1 else if a.isBelow (.int 0) then -1 else 0)

/-! ### Texts -/

/-- The text that a text function sees. -/
def textOf (v : Value) : String :=
  match v.bare with
  | .none => ""
  | .bool b => if b then "TRUE" else "FALSE"
  | _ => v.display

/-- A count of characters, which must not be negative. -/
def characterCount (function : String) (v : Value) : Except Error Nat := do
  let count ← oneInteger function v
  if count < 0 then throw (.argument (.negativeCount function count)) else return count.toNat

/-- The first characters of a text. -/
def leftPart (text count : Value) : Except Error String := do
  return String.ofList ((textOf text).toList.take (← characterCount "LEFT" count))

/-- The last characters of a text. -/
def rightPart (text count : Value) : Except Error String := do
  let count ← characterCount "RIGHT" count
  let characters := (textOf text).toList
  return String.ofList (characters.drop (characters.length - count))

/-- The characters of a text from a place on, the first place being one. -/
def middlePart (text start count : Value) : Except Error String := do
  let start ← oneInteger "MID" start
  if start < 1 then throw (.argument (.startBelowOne start))
  let count ← characterCount "MID" count
  return String.ofList (((textOf text).toList.drop (start - 1).toNat).take count)

/-- The texts of all arguments joined. -/
def joined (args : List Value) : String := String.join (args.map textOf)

/-- The words of a text with one space between each two. -/
def trimmed (text : Value) : String :=
  " ".intercalate ((Text.words (textOf text).toList).map String.ofList)

/-- A truth function of at least one argument. -/
def logical (function : String) (combine : List Value → Bool) (args : List Value) :
    Except Error Value :=
  if args.isEmpty then throw (.argument (.noArguments function))
  else pure (.bool (combine args))

/-! ### Application -/

/-- The result of a builtin; a wrong number of arguments is a type error. -/
def apply : Builtin → List Value → Except Error Value
  | .sum, args => (sumOf (Value.allNumericLeaves args)).map .ofNumber
  | .min, args => least args
  | .max, args => greatest args
  | .average, args => (meanOf args).map .ofNumber
  | .count, args => pure (.int (Value.allNumericLeaves args).length)
  | .abs, [v] => (oneNumber "ABS" v).map fun a => .ofNumber a.abs
  | .round, [v] => (nearest v (.int 0)).map .ofNumber
  | .round, [v, places] => (nearest v places).map .ofNumber
  | .roundUp, [v] => (roundBy Number.ceil "ROUNDUP" v (.int 0)).map .ofNumber
  | .roundUp, [v, places] => (roundBy Number.ceil "ROUNDUP" v places).map .ofNumber
  | .roundDown, [v] => (roundBy Number.floor "ROUNDDOWN" v (.int 0)).map .ofNumber
  | .roundDown, [v, places] => (roundBy Number.floor "ROUNDDOWN" v places).map .ofNumber
  | .int, [v] => do return .int (← (← oneNumber "INT" v).floor)
  | .mod, [v, w] => (remainder v w).map .ofNumber
  | .power, [v, w] => do
    let a ← oneNumber "POWER" v
    let b ← oneNumber "POWER" w
    return .ofScalar (← a.pow b)
  | .sqrt, [v] => (squareRoot v).map .ofNumber
  | .sign, [v] => (signOf v).map .ofNumber
  | .and, args => logical "AND" (·.all Value.truthy) args
  | .or, args => logical "OR" (·.any Value.truthy) args
  | .not, [v] => pure (.bool !v.truthy)
  | .left, [text] => (leftPart text (.int 1)).map .text
  | .left, [text, n] => (leftPart text n).map .text
  | .right, [text] => (rightPart text (.int 1)).map .text
  | .right, [text, n] => (rightPart text n).map .text
  | .mid, [text, start, n] => (middlePart text start n).map .text
  | .len, [text] => pure (.int (textOf text).length)
  | .concat, args => pure (.text (joined args))
  | .upper, [text] => pure (.text (Text.upperCase (textOf text)))
  | .lower, [text] => pure (.text (Text.lowerCase (textOf text)))
  | .trim, [text] => pure (.text (trimmed text))
  | _, _ => throw .wrongType

end Builtin

end Formulary

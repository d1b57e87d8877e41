import Formulary.Session.Basic

/-!
# Sessions on registries

Registries form a forest: a registry may have an older one as its parent, which it falls back on.
They are numbered by age, so the registries that one falls back on are all older. The commands make
registries, register and look up functions, and replace the default aliases.
-/

namespace Formulary

/-- Registries with the number of the parent of each, the newest first. -/
abbrev Forest := List (Registry × Option Nat)

namespace Forest

/-- The chain of registries from a number up to a registry without parent. -/
def chainOf : Forest → Nat → List Registry
  | [], _ => []
  | (registry, parent) :: older, number =>
    if number = older.length then
      registry :: (match parent with
        | some p => chainOf older p
        | none => [])
    else chainOf older number

/-- The forest with the registry of a number changed. -/
def modify (change : Registry → Registry) : Forest → Nat → Forest
  | [], _ => []
  | (registry, parent) :: older, number =>
    if number = older.length then (change registry, parent) :: older
    else (registry, parent) :: modify change older number

/-- The function of a name from a registry on. -/
def find? (f : Forest) (number : Nat) (name : String) : Option Function :=
  Registry.find? (f.chainOf number) name

/-- The names known from a registry on. -/
def names (f : Forest) (number : Nat) : List String := Registry.names (f.chainOf number)

/-- The forest with a function registered, and the function. -/
def register (f : Forest) (number : Nat) (name returnType : String)
    (offered : Option OfferedBody) : Except Error (Function × Forest) := do
  let g ← Registry.functionOf name returnType offered
  return (g, f.modify (·.add g) number)

end Forest

namespace RegistrySession

/-- A forest, what its registries are called, and the default aliases. -/
structure State where
  forest : Forest
  numbers : Table String Nat
  aliases : Table String String

/-- The registry of the builtins alone, called the default one. -/
def State.initial : State := ⟨[(Registry.builtins, none)], [("default", 0)], []⟩

/-- The commands of a session on registries. -/
inductive Command
  | new (registry : String) (parent : Option String) (builtins : Bool)
  | register (registry name returnType body : String)
  | get (registry name : String)
  | has (registry name : String)
  | accepts (registry name : String) (counts : List Int)
  | call (registry name : String) (args : List Value)
  | names (registry : String)
  | setDefaultAliases (pairs : List (String × String))

/-- The number of a called registry. -/
def State.number (s : State) (registry : String) : Nat :=
  (Table.get? s.numbers registry).getD 0

/-- A function as an answer. -/
def describe (f : Function) : Value :=
  .list [.text f.name, .text f.returnType.name, .int f.minArgs,
    (f.maxArgs.map fun n => Value.int n).getD .none]

/-- Aliases as an answer. -/
def describeAliases (aliases : Table String String) : Value :=
  .list (aliases.map fun entry => .list [.text entry.1, .text entry.2])

/-- The result of a function called from outside an expression, on no calculator. No registry has
functions of the spreadsheet library. -/
def invoke (library : Library) (f : Function) (args : List Value) : Except Error Value :=
  match f.body with
  | .routine key _ =>
    match library key with
    | some routine => if f.accepts args.length then (routine.run args).result else throw .wrongType
    | none => throw .wrongType
  | _ => f.applyPure .empty args

/-- Whether a function, if there is one, accepts a number of arguments; none is below zero. -/
def acceptsCount (f : Option Function) (count : Int) : Except Error Value :=
  match f, count with
  | none, _ => throw .missingPart
  | some f, .ofNat n => pure (.bool (f.accepts n))
  | some _, .negSucc _ => pure (.bool false)

/-- What a command does. -/
def act (library : Library) : Command → State → Except Failure Value × State
  | .new registry parent builtins, s =>
    (.ok .none, { s with
      forest := (if builtins then Registry.builtins else [], parent.map s.number) :: s.forest
      numbers := Table.insert s.numbers registry s.forest.length })
  | .register registry name returnType body, s =>
    match s.forest.register (s.number registry) name returnType (library.offered body none) with
    | .ok (f, forest) => (.ok (describe f), { s with forest := forest })
    | .error e => (.error ⟨e, none⟩, s)
  | .get registry name, s =>
    (.ok (((s.forest.find? (s.number registry) name).map describe).getD .none), s)
  | .has registry name, s =>
    (.ok (.bool (s.forest.find? (s.number registry) name).isSome), s)
  | .accepts registry name counts, s =>
    let f := s.forest.find? (s.number registry) name
    (((counts.mapM (acceptsCount f)).map .list).mapError (⟨·, none⟩), s)
  | .call registry name args, s =>
    match s.forest.find? (s.number registry) name with
    | some f => ((invoke library f args).mapError (⟨·, none⟩), s)
    | none => (.error ⟨.wrongType, none⟩, s)
  | .names registry, s =>
    (.ok (.list (((s.forest.names (s.number registry)).mergeSort (· ≤ ·)).map .text)), s)
  | .setDefaultAliases pairs, s =>
    let aliases := upperAliases pairs
    (.ok (describeAliases aliases), { s with aliases := aliases })

/-- Sessions on registries. There are no openings. -/
def session (library : Library) : Session State Unit Command Empty where
  act := act library
  enter := nofun
  leave := nofun
  seen _ _ := ()
  seenAt := nofun

end RegistrySession

end Formulary

import Formulary.Session.Basic

/-!
# Sessions on bindings

The commands on bindings are storing, reading and clearing, and an opening writes a value or a
mapping for a while. What is seen of bindings is their memory.
-/

namespace Formulary

/-- What to write: a key with a value, or without one a whole mapping. -/
structure Writing where
  key : Value
  value : Option Value

namespace BindingsSession

/-- The commands of a session on bindings. -/
inductive Command
  | store (writing : Writing)
  | get (key default : Value)
  | contains (key : Value)
  | normalize (key : Value)
  | names
  | size
  | isEmpty
  | clear
  | shown

/-- An answer that leaves the bindings alone. -/
def answer (v : Value) (b : Bindings) : Except Failure Value × Bindings := (.ok v, b)

/-- What a command does. -/
def act : Command → Bindings → Except Failure Value × Bindings
  | .store writing, b =>
    match b.store writing.key writing.value with
    | .ok after => (.ok (.bool true), after)
    | .error e => (.error ⟨e, none⟩, b)
  | .get key default, b => answer ((b.get? key).getD default) b
  | .contains key, b => answer (.bool (b.has key)) b
  | .normalize key, b => answer (.text (b.normalize key)) b
  | .names, b => answer (.list (b.names.map .text)) b
  | .size, b => answer (.int b.memory.length) b
  | .isEmpty, b => answer (.bool b.memory.isEmpty) b
  | .clear, b => (.ok .none, b.clear)
  | .shown, b => answer (.text b.shown) b

/-- Sessions on bindings. -/
def session : Session Bindings Memory Command Writing where
  act := act
  enter writing b := (b.enter writing.key writing.value).mapError (⟨·, none⟩)
  leave _ := Bindings.leave
  seen _ b := b.memory
  seenAt _ b := b.memory

end BindingsSession

end Formulary

import Formulary.Session.Basic

/-!
# Sessions on a cache

The commands on a cache are looking up, putting, removing and turning the shared switch; an opening
suspends the cache for a while. What is seen are the texts it knows and whether it takes new ones.
-/

namespace Formulary

namespace CacheSession

/-- A cache with the switch shared by all caches. -/
structure State where
  cache : Cache
  switch : Bool

/-- What is seen of a cache. -/
structure Seen where
  texts : List String
  enabled : Bool

/-- The commands of a session on a cache. -/
inductive Command
  | get (text : String)
  | put (text : String) (value : Value)
  | contains (text : Value)
  | size
  | invalidate (request : CachePattern.Request)
  | turn (value : Value)

/-- Whether a value is a text that the cache knows; what cannot be a key cannot be looked up. -/
def knows (c : Cache) (v : Value) : Except Failure Value :=
  match v with
  | .text s => .ok (.bool (c.get? s).isSome)
  | v => if v.isHashable then .ok (.bool false) else .error ⟨.wrongType, none⟩

/-- What a command does. -/
def act : Command → State → Except Failure Value × State
  | .get text, s => (.ok ((s.cache.get? text).getD .none), s)
  | .put text value, s =>
    (.ok (.bool (s.cache.enabled s.switch)),
      { s with cache := s.cache.put s.switch text value })
  | .contains text, s => (knows s.cache text, s)
  | .size, s => (.ok (.int s.cache.entries.length), s)
  | .invalidate request, s =>
    match CachePattern.ofRequest request >>= s.cache.invalidate with
    | .ok c => (.ok (.int (s.cache.entries.length - c.entries.length : Nat)), { s with cache := c })
    | .error e => (.error ⟨e, none⟩, s)
  | .turn value, s => (.ok (.bool value.truthy), { s with switch := value.truthy })

/-- What is seen of a state. -/
def seen (s : State) : Seen := ⟨s.cache.texts, s.cache.enabled s.switch⟩

/-- Sessions on a cache. -/
def session : Session State Seen Command Unit where
  act := act
  enter _ s := .ok { s with cache := s.cache.suspend }
  leave _ before inside := { inside with cache := Cache.resume before.cache inside.cache }
  seen _ := seen
  seenAt _ := seen

end CacheSession

end Formulary

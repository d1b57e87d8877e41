import Formulary.Error
import Formulary.Text.Glob
import Formulary.Value.Equality
import Formulary.Value.Printer

/-!
# The cache of parsed texts

A cache remembers what each text was parsed to. It takes new entries while the switch shared by all
caches is on and no block has suspended this one; looking up and removing always work. What to
remove is a pattern: all entries, the one of an exact text, or those whose text a matcher accepts.

A matcher comes from outside, as a regular expression does, and may fail. Then nothing is removed.
-/

namespace Formulary

/-- A compiled regular expression: whether it is found in a text, and what it was compiled from. A
search fails if the expression is none for texts. -/
structure Regex where
  search : String → Except Error Bool
  source : String

/-- Which entries of a cache to remove. A matcher carries the text it is described by. -/
inductive CachePattern
  | all
  | exact (text : String)
  | matching (accepts : String → Except Error Bool) (description : String)

namespace CachePattern

/-- The pattern of a regular expression, searched for in each text. -/
def regex (r : Regex) : CachePattern := .matching r.search r.source

/-- The pattern of a shell-style pattern for whole texts. -/
def glob (pattern : String) : CachePattern :=
  .matching (fun text => pure (Text.Glob.accepts pattern text)) pattern

/-- Whether a pattern selects a text. -/
def selects : CachePattern → String → Except Error Bool
  | .all, _ => pure true
  | .exact wanted, text => pure (text == wanted)
  | .matching accepts _, text => accepts text

/-- The entries that a pattern does not select. It is asked for one after the other. -/
def unselected (p : CachePattern) : Table String Value → Except Error (Table String Value)
  | [] => pure []
  | entry :: rest => do
    let isSelected ← p.selects entry.1
    let kept ← unselected p rest
    return if isSelected then kept else entry :: kept

/-- The pattern as it is shown. -/
def shown : CachePattern → String
  | .all => "ALL"
  | .exact text => application "Exact" [Text.quote text]
  | .matching _ description => application "Matching" [Text.quote description]

/-- What a caller may ask to remove: a pattern, a regular expression, or a value, of which only a
text means something. -/
inductive Request
  | pattern (p : CachePattern)
  | expression (r : Regex)
  | value (v : Value)

/-- The pattern that a request means. -/
def ofRequest : Request → Except Error CachePattern
  | .pattern p => pure p
  | .expression r => pure (regex r)
  | .value v => match v.text? with
    | some s => pure (.exact s)
    | none => throw (.argument (.pattern v.shown))

end CachePattern

/-- What texts were parsed to, and whether a block has suspended the taking of new entries. -/
structure Cache where
  entries : Table String Value
  suspended : Bool

namespace Cache

/-- The cache with the given entries. -/
def ofSeed (seed : List (String × Value)) : Cache := ⟨Table.ofPairs seed, false⟩

/-- Whether new entries are taken, given the switch shared by all caches. -/
def enabled (switch : Bool) (c : Cache) : Bool := switch && !c.suspended

/-- What a text was parsed to. -/
def get? (c : Cache) (text : String) : Option Value := Table.get? c.entries text

/-- The cache with an entry, if new entries are taken. -/
def put (switch : Bool) (c : Cache) (text : String) (value : Value) : Cache :=
  if c.enabled switch then { c with entries := Table.insert c.entries text value } else c

/-- The cache without the entries that a pattern selects. -/
def invalidate (c : Cache) (p : CachePattern) : Except Error Cache := do
  return { c with entries := ← p.unselected c.entries }

/-- The cache without the entries of the texts that are to be forgotten. -/
def forget (forgets : String → Bool) (c : Cache) : Cache :=
  { c with entries := c.entries.filter fun entry => !forgets entry.1 }

/-- The texts in the order in which they came in. -/
def texts (c : Cache) : List String := Table.keys c.entries

/-! ### Suspension for a while -/

/-- The cache inside a block that suspends it. -/
def suspend (c : Cache) : Cache := { c with suspended := true }

/-- The cache after a block that was entered from `before` and ended in `inside`. -/
def resume (before inside : Cache) : Cache := { inside with suspended := before.suspended }

@[simp] theorem enabled_suspend (switch : Bool) (c : Cache) : c.suspend.enabled switch = false := by
  simp [enabled, suspend]

@[simp] theorem entries_resume (before inside : Cache) :
    (resume before inside).entries = inside.entries := rfl

theorem get?_put (switch : Bool) (c : Cache) (text other : String) (value : Value) :
    (c.put switch text value).get? other =
      if c.enabled switch ∧ text = other then some value else c.get? other := by
  by_cases h : c.enabled switch
  · by_cases ht : text = other <;> simp [put, get?, h, Table.get?_insert, ht]
  · simp [put, h]

end Cache

end Formulary

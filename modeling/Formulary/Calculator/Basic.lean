import Formulary.Bindings
import Formulary.Cache
import Formulary.Expr.Parser
import Formulary.Function.Registry

/-!
# Calculators

A calculator has bindings, functions of its own, aliases of function names and a cache of parsed
texts. What all calculators share is the setting: the default functions that a calculator falls
back on, the default aliases that it starts with, the switch of all caches and the spreadsheet
library.

A routine may clear the bindings while an expression is evaluated. The expression goes on reading
the bindings it started with, which the calculator keeps as `detached` until the evaluation ends. A
bulk solve reads in the same way which names have a value already.
-/

namespace Formulary

/-- What all calculators share. -/
structure Setting where
  defaults : Registry
  defaultAliases : Table String String
  caching : Bool
  sheet : Sheet

/-- The builtins, no aliases, and caching switched on. -/
def Setting.initial (sheet : Sheet) : Setting := ⟨Registry.builtins, [], true, sheet⟩

/-- Aliases as they are kept: both names in upper case, later pairs overwriting earlier ones. -/
def upperAliases (pairs : List (String × String)) : Table String String :=
  Table.ofPairs ((Table.ofPairs pairs).map fun pair =>
    (Text.upperCase pair.1, Text.upperCase pair.2))

/-- A calculator. -/
structure Calculator where
  bindings : Bindings
  aliases : Table String String
  registry : Registry
  usesDefaults : Bool
  cache : Cache
  detached : Option Memory

instance : Inhabited Calculator := ⟨⟨.empty false false, [], [], true, .ofSeed [], none⟩⟩

namespace Calculator

/-- How a new calculator is set up. Without aliases it starts with the default ones. -/
structure Plan where
  caseSensitive : Bool
  ignoreNested : Bool
  aliases : Option (List (String × String))
  usesDefaults : Bool
  seed : List (String × Value)

/-- The plan of a calculator that nothing is said about. -/
def Plan.usual : Plan := ⟨false, false, none, true, []⟩

/-- A new calculator. -/
def ofPlan (setting : Setting) (plan : Plan) : Calculator where
  bindings := .empty plan.caseSensitive plan.ignoreNested
  aliases := upperAliases (plan.aliases.getD setting.defaultAliases)
  registry := []
  usesDefaults := plan.usesDefaults
  cache := .ofSeed plan.seed
  detached := none

/-- The values that names are bound to. -/
def memory (c : Calculator) : Memory := c.bindings.memory

/-- The values that a running evaluation reads. -/
def view (c : Calculator) : Memory := c.detached.getD c.memory

/-- The calculator as it reads what it binds. -/
def attached (c : Calculator) : Calculator := { c with detached := none }

/-! ### Functions -/

/-- The registries that a calculator searches. -/
def chain (setting : Setting) (c : Calculator) : List Registry :=
  c.registry :: if c.usesDefaults then [setting.defaults] else []

/-- The function that a name in an expression means. -/
def function? (setting : Setting) (c : Calculator) (name : String) : Option Function :=
  Registry.findOrSheet? setting.sheet (c.chain setting) name

/-- The calculator with a function registered. -/
def addFunction (c : Calculator) (name returnType : String) (offered : Option OfferedBody) :
    Except Error Calculator := do
  return { c with registry := c.registry.add (← Registry.functionOf name returnType offered) }

/-! ### Parsing -/

/-- How a calculator reads names. -/
def lexerOptions (c : Calculator) : LexerOptions := ⟨c.bindings.caseSensitive, c.aliases⟩

/-- What a calculator's parser knows. -/
def parserOptions (setting : Setting) (c : Calculator) : ParserOptions :=
  ⟨c.function? setting, true⟩

/-- The expression that a text spells for a calculator. -/
def parse (setting : Setting) (c : Calculator) (text : String) : Except Error Expr :=
  Expr.ofText c.lexerOptions (c.parserOptions setting) text

end Calculator

end Formulary

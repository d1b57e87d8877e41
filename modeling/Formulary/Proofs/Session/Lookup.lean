import Formulary.Proofs.Session.Lasting
import Formulary.Proofs.Session.Mirror
import Formulary.Proofs.Table
import Mathlib.Logic.Relation
import Mathlib.Data.Nat.Init
import Mathlib.Order.Nat

/-!
# Registries as their history tells them

A session on registries that also keeps a list of what happened (`RegistrySession.recording`) does
the same as one that does not. At every point the list tells the registries
(`RegistrySession.tells_registering`):

* a name means the function that was registered last under it, in whatever case, in the nearest of a
  registry and its ancestors in which there is one (`History.Finds`),
* the names that a registry knows are those that were registered, put in upper case, in it or in an
  ancestor (`History.FallsBackOn`),
* a registration that is refused changes nothing, and one that is not changes what this one name
  means in the registry and in those that fall back on it.

What carries the proof is that parents are older than their children: registries are numbered by
age, so a search moves on to smaller numbers, and it can be followed by induction on the number.
-/

namespace Formulary

/-! ### Chains in a forest -/

namespace Forest

variable {forest : Forest} {registry : Registry} {parent : Option Nat} {number p : Nat}
  {name key : String}

/-- The registry of a number, and the number of its parent. -/
def numbered? : Forest → Nat → Option (Registry × Option Nat)
  | [], _ => none
  | entry :: older, number => if number = older.length then some entry else numbered? older number

/-- Whether every parent is older than its children. -/
def IsGrown (forest : Forest) : Prop :=
  ∀ number registry p, forest.numbered? number = some (registry, some p) → p < number

theorem lt_of_numbered? {forest : Forest} {entry : Registry × Option Nat}
    (h : forest.numbered? number = some entry) : number < forest.length := by
  induction forest with
  | nil => cases h
  | cons first older ih =>
    rw [numbered?] at h
    split at h
    · next hnumber => simp [hnumber]
    · exact (ih h).trans (Nat.lt_succ_self _)

theorem exists_numbered? {forest : Forest} (h : number < forest.length) :
    ∃ entry, forest.numbered? number = some entry := by
  induction forest with
  | nil => exact absurd h (Nat.not_lt_zero _)
  | cons first older ih =>
    rw [numbered?]
    split
    · exact ⟨first, rfl⟩
    · next hnumber => exact ih (Nat.lt_of_le_of_ne (Nat.le_of_lt_succ h) hnumber)

theorem numbered?_eq_none (h : forest.length ≤ number) : forest.numbered? number = none := by
  rcases hentry : forest.numbered? number with - | entry
  · rfl
  · exact absurd (lt_of_numbered? hentry) h.not_gt

theorem numbered?_cons_of_lt (first : Registry × Option Nat) (h : number < forest.length) :
    numbered? (first :: forest) number = forest.numbered? number := by
  rw [numbered?, if_neg h.ne]

theorem IsGrown.tail {first : Registry × Option Nat} (h : IsGrown (first :: forest)) :
    forest.IsGrown := by
  intro number registry p hentry
  refine h number registry p ?_
  rwa [numbered?_cons_of_lt first (lt_of_numbered? hentry)]

theorem chainOf_cons (registry : Registry) (parent : Option Nat) (older : Forest) (number : Nat) :
    chainOf ((registry, parent) :: older) number =
      if number = older.length then registry :: parent.elim [] older.chainOf
      else older.chainOf number := by
  rw [chainOf.eq_def]
  cases parent with
  | none => rfl
  | some p => rfl

/-- The chain of a registry is the registry and then the chain of its parent. -/
theorem chainOf_eq (h : forest.IsGrown)
    (hentry : forest.numbered? number = some (registry, parent)) :
    forest.chainOf number = registry :: parent.elim [] forest.chainOf := by
  induction forest generalizing number registry parent with
  | nil => cases hentry
  | cons first older ih =>
    obtain ⟨r, q⟩ := first
    -- behind the newest registry, chains stay as they were without it
    have hchain : ∀ m, m < older.length → chainOf ((r, q) :: older) m = chainOf older m := by
      intro m hm
      rw [chainOf_cons, if_neg hm.ne]
    rw [numbered?] at hentry
    split at hentry
    · next hnumber =>
      obtain ⟨rfl, rfl⟩ := Prod.mk.inj (Option.some.inj hentry)
      rw [chainOf_cons, if_pos hnumber]
      cases q with
      | none => rfl
      | some p =>
        have hp : p < older.length := by
          rw [← hnumber]
          exact h number r p (by rw [numbered?, if_pos hnumber])
        exact congrArg (r :: ·) (hchain p hp).symm
    · next hnumber =>
      have hlt := lt_of_numbered? hentry
      rw [hchain number hlt, ih h.tail hentry]
      cases parent with
      | none => rfl
      | some p =>
        have hp : p < older.length := (h.tail number registry p hentry).trans hlt
        exact congrArg (registry :: ·) (hchain p hp).symm

theorem chainOf_of_numbered?_eq_none (h : forest.numbered? number = none) :
    forest.chainOf number = [] := by
  induction forest with
  | nil => rfl
  | cons first older ih =>
    rw [numbered?] at h
    split at h
    · cases h
    · next hnumber => rw [chainOf_cons, if_neg hnumber, ih h]

/-- A name is looked up in the registry first, and then from the parent on. -/
theorem find?_eq (h : forest.IsGrown) (number : Nat) (name : String) :
    forest.find? number name = (forest.numbered? number).bind fun entry =>
      (Table.get? entry.1 (Text.upperCase name)).or (entry.2.bind (forest.find? · name)) := by
  rcases hentry : forest.numbered? number with - | ⟨registry, parent⟩
  · rw [find?, chainOf_of_numbered?_eq_none hentry]
    rfl
  · rw [find?, chainOf_eq h hentry, Registry.find?_cons]
    cases parent with
    | none => rfl
    | some p => rfl

theorem mem_names (h : forest.IsGrown) : key ∈ forest.names number ↔
    ∃ registry parent, forest.numbered? number = some (registry, parent) ∧
      (key ∈ Table.keys registry ∨ ∃ p, parent = some p ∧ key ∈ forest.names p) := by
  rcases hentry : forest.numbered? number with - | ⟨registry, parent⟩
  · simp [names, Registry.names, chainOf_of_numbered?_eq_none hentry]
  · cases parent with
    | none => simp [names, Registry.names, chainOf_eq h hentry]
    | some p => simp [names, Registry.names, chainOf_eq h hentry]

/-- A name has a function just if it is known in upper case. -/
theorem isSome_find?_iff (forest : Forest) (number : Nat) (name : String) :
    (forest.find? number name).isSome = true ↔ Text.upperCase name ∈ forest.names number := by
  rw [find?, Registry.find?, List.findSome?_isSome_iff, names, Registry.names, List.mem_eraseDups,
    List.mem_flatMap]
  refine exists_congr fun registry => and_congr_right fun _ => ?_
  rw [← not_iff_not, Bool.not_eq_true, Option.isSome_eq_false_iff, Option.isNone_iff_eq_none,
    Table.get?_eq_none_iff]

/-! ### One changed registry -/

theorem length_modify (change : Registry → Registry) (forest : Forest) (number : Nat) :
    (forest.modify change number).length = forest.length := by
  induction forest with
  | nil => rfl
  | cons first older ih =>
    rw [modify]
    split
    · rfl
    · rw [List.length_cons, List.length_cons, ih]

theorem numbered?_modify (change : Registry → Registry) (forest : Forest) (number other : Nat) :
    (forest.modify change number).numbered? other =
      if other = number then (forest.numbered? other).map fun entry => (change entry.1, entry.2)
      else forest.numbered? other := by
  induction forest with
  | nil => simp [modify, numbered?]
  | cons first older ih =>
    obtain ⟨r, q⟩ := first
    rw [modify]
    split
    · next hnumber =>
      subst hnumber
      by_cases hother : other = older.length
      · simp [numbered?, hother]
      · simp [numbered?, hother]
    · next hnumber =>
      rw [numbered?, numbered?, length_modify, ih]
      by_cases hother : other = older.length
      · have hne : other ≠ number := fun h => hnumber (h ▸ hother)
        simp [hother, hother ▸ hne]
      · simp [hother]

theorem IsGrown.modify (h : forest.IsGrown) (change : Registry → Registry) (number : Nat) :
    (forest.modify change number).IsGrown := by
  intro other registry p hentry
  rw [numbered?_modify] at hentry
  split at hentry
  · obtain ⟨⟨registry', parent'⟩, hentry', heq⟩ := Option.map_eq_some_iff.mp hentry
    obtain ⟨-, rfl⟩ := Prod.mk.inj heq
    exact h other registry' p hentry'
  · exact h other registry p hentry

end Forest

namespace RegistrySession

/-! ### Histories -/

/-- What can happen to registries, which are numbered by age. -/
inductive Event
  | made (parent : Option Nat)
  | registered (number : Nat) (name : String) (f : Function)

/-- What happened, from last to first. -/
abbrev History := List Event

namespace Event

/-- Whether a registry is made. -/
def isMade : Event → Bool
  | .made _ => true
  | .registered .. => false

/-- The function that is registered in a registry under a name, in whatever case. -/
def function? (number : Nat) (name : String) : Event → Option Function
  | .made _ => none
  | .registered n other f =>
    if n = number ∧ Text.upperCase other = Text.upperCase name then some f else none

end Event

namespace History

/-- How many registries there are. -/
def count (past : History) : Nat := past.countP Event.isMade

/-- The parent that a registry was made with. -/
def parent? : History → Nat → Option Nat
  | [], _ => none
  | .made parent :: past, number => if number = count past then parent else parent? past number
  | .registered .. :: past, number => parent? past number

/-- The function that was registered last in a registry under a name. -/
def latest? (past : History) (number : Nat) (name : String) : Option Function :=
  past.findSome? (Event.function? number name)

/-- Whether a registry is another one or has it as an ancestor. -/
def FallsBackOn (past : History) : Nat → Nat → Prop :=
  Relation.ReflTransGen fun child parent => past.parent? child = some parent

/-- Whether a name means a function from a registry on: it is the one that was registered last in
the nearest registry in which there is one. -/
inductive Finds (past : History) : Nat → String → Function → Prop
  | own {number name f} (latest : past.latest? number name = some f) : Finds past number name f
  | inherited {number name f p} (latest : past.latest? number name = none)
      (parent : past.parent? number = some p) (finds : Finds past p name f) :
      Finds past number name f

/-- Whether a name was registered in a registry that has this upper case. -/
def Registers (past : History) (number : Nat) (key : String) : Prop :=
  ∃ name f, .registered number name f ∈ past ∧ Text.upperCase name = key

theorem registers_made {past : History} {parent : Option Nat} {number : Nat} {key : String} :
    Registers (.made parent :: past) number key ↔ past.Registers number key := by
  simp [Registers]

theorem registers_registered {past : History} {number other : Nat} {name key : String}
    {f : Function} : Registers (.registered number name f :: past) other key ↔
      (number = other ∧ Text.upperCase name = key) ∨ past.Registers other key := by
  constructor
  · rintro ⟨name', f', hmem, hkey⟩
    rcases List.mem_cons.mp hmem with heq | hmem
    · obtain ⟨rfl, rfl, rfl⟩ := Event.registered.inj heq
      exact .inl ⟨rfl, hkey⟩
    · exact .inr ⟨name', f', hmem, hkey⟩
  · rintro (⟨rfl, hkey⟩ | ⟨name', f', hmem, hkey⟩)
    · exact ⟨name, f, List.mem_cons_self, hkey⟩
    · exact ⟨name', f', List.mem_cons_of_mem _ hmem, hkey⟩

end History

/-! ### Telling a forest -/

/-- Whether a history tells a forest. -/
structure Tells (past : History) (forest : Forest) : Prop where
  count : past.count = forest.length
  parent : ∀ number, past.parent? number = (forest.numbered? number).bind Prod.snd
  grown : forest.IsGrown
  own : ∀ number name, past.latest? number name =
    (forest.numbered? number).bind fun entry => Table.get? entry.1 (Text.upperCase name)
  known : ∀ number key, past.Registers number key ↔
    ∃ entry, forest.numbered? number = some entry ∧ key ∈ Table.keys entry.1

namespace Tells

variable {past : History} {forest : Forest} {number other : Nat} {name key : String} {f : Function}

/-- **A name means what the history says.** -/
theorem find?_iff (h : Tells past forest) :
    forest.find? number name = some f ↔ past.Finds number name f := by
  constructor
  · intro hfind
    induction number using Nat.strong_induction_on with
    | _ number ih =>
      rw [Forest.find?_eq h.grown] at hfind
      obtain ⟨⟨registry, parent⟩, hentry, hfind⟩ := Option.bind_eq_some_iff.mp hfind
      have hown := h.own number name
      rw [hentry, Option.bind_some] at hown
      -- its own function, or one that its parent finds
      rcases Option.or_eq_some_iff.mp hfind with hget | ⟨hget, hparent⟩
      · exact .own (hown.trans hget)
      · obtain ⟨p, rfl, hp⟩ := Option.bind_eq_some_iff.mp hparent
        have hparent? : past.parent? number = some p := by
          rw [h.parent, hentry, Option.bind_some]
        exact .inherited (hown.trans hget) hparent? (ih p (h.grown _ _ _ hentry) hp)
  · intro hfinds
    induction hfinds with
    | own hlatest =>
      rw [h.own] at hlatest
      obtain ⟨entry, hentry, hget⟩ := Option.bind_eq_some_iff.mp hlatest
      rw [Forest.find?_eq h.grown, hentry, Option.bind_some, hget, Option.some_or]
    | inherited hlatest hparent _ ih =>
      rw [h.parent] at hparent
      obtain ⟨entry, hentry, hp⟩ := Option.bind_eq_some_iff.mp hparent
      rw [h.own, hentry, Option.bind_some] at hlatest
      rw [Forest.find?_eq h.grown, hentry, Option.bind_some, hlatest, Option.none_or, hp,
        Option.bind_some]
      exact ih

/-- **The names that are known** are those that were registered along the chain. -/
theorem mem_names_iff (h : Tells past forest) : key ∈ forest.names number ↔
    ∃ ancestor, past.FallsBackOn number ancestor ∧ past.Registers ancestor key := by
  constructor
  · intro hkey
    induction number using Nat.strong_induction_on with
    | _ number ih =>
      obtain ⟨registry, parent, hentry, hown | ⟨p, rfl, hp⟩⟩ := (Forest.mem_names h.grown).mp hkey
      · exact ⟨number, .refl, (h.known number key).mpr ⟨_, hentry, hown⟩⟩
      · obtain ⟨ancestor, hfalls, hregisters⟩ := ih p (h.grown _ _ _ hentry) hp
        refine ⟨ancestor, .head ?_ hfalls, hregisters⟩
        rw [h.parent, hentry, Option.bind_some]
  · rintro ⟨ancestor, hfalls, hregisters⟩
    induction hfalls using Relation.ReflTransGen.head_induction_on with
    | refl =>
      obtain ⟨⟨registry, parent⟩, hentry, hkey⟩ := (h.known ancestor key).mp hregisters
      exact (Forest.mem_names h.grown).mpr ⟨registry, parent, hentry, .inl hkey⟩
    | head hparent _ ih =>
      rw [h.parent] at hparent
      obtain ⟨⟨registry, parent⟩, hentry, hp⟩ := Option.bind_eq_some_iff.mp hparent
      exact (Forest.mem_names h.grown).mpr ⟨registry, parent, hentry, .inr ⟨_, hp, ih⟩⟩

/-- **One more registry**, which knows nothing yet. -/
theorem made (h : Tells past forest) {parent : Option Nat}
    (hparent : ∀ p, parent = some p → p < forest.length) :
    Tells (.made parent :: past) (([], parent) :: forest) where
  count := by
    rw [History.count, List.countP_cons_of_pos rfl, ← History.count, h.count, List.length_cons]
  parent number := by
    rw [History.parent?, Forest.numbered?, h.count]
    split
    · rfl
    · exact h.parent number
  grown := by
    intro number registry p hentry
    rw [Forest.numbered?] at hentry
    split at hentry
    · next hnumber =>
      obtain ⟨-, hp⟩ := Prod.mk.inj (Option.some.inj hentry)
      exact hnumber ▸ hparent p hp
    · exact h.grown number registry p hentry
  own number name := by
    show History.latest? past number name = _
    rw [h.own, Forest.numbered?]
    split
    · next hnumber =>
      rw [Forest.numbered?_eq_none hnumber.ge, Option.bind_none, Option.bind_some]
      rfl
    · rfl
  known number key := by
    rw [History.registers_made, h.known, Forest.numbered?]
    split
    · next hnumber => simp [Forest.numbered?_eq_none hnumber.ge, Table.keys]
    · rfl

/-- **One more function**: the registry knows it under its name, and all else stays. -/
theorem registered (h : Tells past forest) (hnumber : number < forest.length)
    (hname : f.name = Text.upperCase name) :
    Tells (.registered number name f :: past) (forest.modify (·.add f) number) where
  count := by
    rw [History.count, List.countP_cons_of_neg (by simp [Event.isMade]), ← History.count, h.count,
      Forest.length_modify]
  parent other := by
    rw [History.parent?, h.parent, Forest.numbered?_modify]
    split
    · rw [Option.bind_map]
      rfl
    · rfl
  grown := h.grown.modify _ number
  own other key := by
    rw [History.latest?, List.findSome?_cons, ← History.latest?, h.own, Forest.numbered?_modify]
    by_cases hother : other = number
    · subst hother
      obtain ⟨⟨registry, parent⟩, hentry⟩ := Forest.exists_numbered? hnumber
      rw [if_pos rfl, hentry, Option.map_some, Option.bind_some, Option.bind_some, Registry.add,
        Table.get?_insert, hname]
      by_cases hkey : Text.upperCase name = Text.upperCase key
      · simp [Event.function?, hkey]
      · simp [Event.function?, hkey]
    · rw [if_neg hother, Event.function?, if_neg fun hboth => hother hboth.1.symm]
  known other key := by
    rw [History.registers_registered, h.known, Forest.numbered?_modify]
    by_cases hother : other = number
    · subst hother
      obtain ⟨⟨registry, parent⟩, hentry⟩ := Forest.exists_numbered? hnumber
      simp [hentry, Registry.add, Table.mem_keys_insert, hname, eq_comm]
    · simp [hother, Ne.symm hother]

/-- A new registry may know functions from the start, which were registered one by one. -/
theorem registeredAll {registry : Registry} {parent : Option Nat} (functions : List Function)
    (hnames : ∀ g ∈ functions, Text.upperCase g.name = g.name)
    (h : Tells past ((registry, parent) :: forest)) :
    Tells ((functions.map fun g => .registered forest.length g.name g).reverse ++ past)
      ((functions.foldl Registry.add registry, parent) :: forest) := by
  induction functions generalizing registry past with
  | nil => exact h
  | cons g rest ih =>
    have hlast : forest.length < List.length ((registry, parent) :: forest) :=
      Nat.lt_succ_self _
    have hg := h.registered hlast (hnames g List.mem_cons_self).symm
    rw [Forest.modify, if_pos rfl] at hg
    rw [List.map_cons, List.reverse_cons, List.append_assoc]
    exact ih (fun g' hg' => hnames g' (List.mem_cons_of_mem _ hg')) hg

/-- **A registration changes one name** in the registry and in those that fall back on it. -/
theorem fallsBackOn_of_find?_ne (h : Tells past forest) (hname : f.name = Text.upperCase key)
    (hne : (forest.modify (·.add f) number).find? other name ≠ forest.find? other name) :
    past.FallsBackOn other number ∧ Text.upperCase name = Text.upperCase key := by
  induction other using Nat.strong_induction_on with
  | _ other ih =>
    rw [Forest.find?_eq (h.grown.modify _ number), Forest.find?_eq h.grown,
      Forest.numbered?_modify] at hne
    rcases hentry : forest.numbered? other with - | ⟨registry, parent⟩
    · simp [hentry] at hne
    by_cases hown : other = number ∧ Text.upperCase key = Text.upperCase name
    · exact ⟨hown.1 ▸ .refl, hown.2.symm⟩
    -- otherwise the registry itself answers as before, so the difference lies with the parent
    have hparent : parent.bind ((forest.modify (·.add f) number).find? · name) ≠
        parent.bind (forest.find? · name) := by
      intro heq
      refine hne ?_
      rw [hentry]
      split
      · next hother =>
        have hkey : (f.name == Text.upperCase name) = false := by
          rw [beq_eq_false_iff_ne, hname]
          exact fun hkey => hown ⟨hother, hkey⟩
        rw [Option.map_some, Option.bind_some, Option.bind_some, Registry.add, Table.get?_insert,
          hkey, if_neg Bool.false_ne_true, heq]
      · rw [Option.bind_some, Option.bind_some, heq]
    cases parent with
    | none => exact absurd rfl hparent
    | some p =>
      obtain ⟨hfalls, hkey⟩ := ih p (h.grown other registry p hentry) hparent
      refine ⟨.head ?_ hfalls, hkey⟩
      rw [h.parent, hentry, Option.bind_some]

end Tells

/-! ### The session that keeps the history -/

/-- The builtins as they are registered in a new registry, from last to first. -/
def History.builtins (number : Nat) : History :=
  (Builtin.all.map fun b => .registered number b.name b.function).reverse

/-- What happens when a command is given, from last to first. -/
def Command.events (library : Library) (s : State) : Command → History
  | .new _ parent builtins =>
    (if builtins then History.builtins s.forest.length else []) ++ [.made (parent.map s.number)]
  | .register registry name returnType body =>
    match Registry.functionOf name returnType (library.offered body none) with
    | .ok f => [.registered (s.number registry) name f]
    | .error _ => []
  | .get .. | .has .. | .accepts .. | .call .. | .names _ | .setDefaultAliases _ => []

/-- A state, and what happened before it. -/
structure Point where
  state : State
  past : History

/-- The registry of the builtins alone. -/
def Point.initial : Point := ⟨.initial, History.builtins 0 ++ [.made none]⟩

/-- Sessions on registries that keep what happens. -/
def recording (library : Library) : Session Point Unit Command Empty where
  act command x :=
    let (outcome, after) := (session library).act command x.state
    (outcome, ⟨after, command.events library x.state ++ x.past⟩)
  enter opening := opening.elim
  leave opening := opening.elim
  seen _ _ := ()
  seenAt opening := opening.elim

/-- Whether a point tells a state, in which every registry that is called is there. -/
structure IsTold (s : State) (x : Point) : Prop where
  state : x.state = s
  tells : Tells x.past s.forest
  numbered : ∀ registry, s.number registry < s.forest.length

theorem upperCase_name (b : Builtin) : Text.upperCase b.name = b.name := by
  cases b <;> decide

/-- **A new registry**, with the builtins or without. -/
theorem Tells.new {past : History} {forest : Forest} (h : Tells past forest) {parent : Option Nat}
    (hparent : ∀ p, parent = some p → p < forest.length) (builtins : Bool) :
    Tells ((if builtins then History.builtins forest.length else []) ++ .made parent :: past)
      ((if builtins then Registry.builtins else [], parent) :: forest) := by
  have hmade := h.made hparent
  cases builtins with
  | false => exact hmade
  | true =>
    have hnames : ∀ g ∈ Builtin.all.map Builtin.function, Text.upperCase g.name = g.name := by
      intro g hg
      obtain ⟨b, -, rfl⟩ := List.mem_map.mp hg
      exact upperCase_name b
    have hall := hmade.registeredAll _ hnames
    rw [List.map_map, List.foldl_map] at hall
    exact hall

theorem isTold_initial : IsTold .initial .initial where
  state := rfl
  tells := by
    have hnothing : Tells [] [] := {
      count := rfl
      parent := fun _ => rfl
      grown := by
        intro number registry p hentry
        cases hentry
      own := fun _ _ => rfl
      known := by simp [History.Registers, Forest.numbered?] }
    have hparent : ∀ p, (none : Option Nat) = some p → p < ([] : Forest).length := by
      rintro p ⟨⟩
    exact hnothing.new hparent true
  numbered registry := by
    rw [State.number, State.initial, Table.get?]
    split
    · exact Nat.one_pos
    · exact Nat.one_pos

namespace IsTold

variable {library : Library} {s : State} {x : Point}

/-- **A command does what is recorded of it.** -/
theorem act (h : IsTold s x) (command : Command) :
    IsTold ((session library).act command s).2
      ⟨((session library).act command s).2, command.events library s ++ x.past⟩ := by
  cases command with
  | get | has | accepts | names | setDefaultAliases => exact ⟨rfl, h.tells, h.numbered⟩
  | call registry name args =>
    have hsame : ((session library).act (.call registry name args) s).2 = s := by
      simp only [session, RegistrySession.act]
      split
      · rfl
      · rfl
    rw [hsame]
    exact ⟨rfl, h.tells, h.numbered⟩
  | new registry parent builtins =>
    refine ⟨rfl, ?_, fun other => ?_⟩
    · rw [Command.events, List.append_assoc]
      refine h.tells.new (fun p hp => ?_) builtins
      obtain ⟨called, -, rfl⟩ := Option.map_eq_some_iff.mp hp
      exact h.numbered called
    · show (Table.get? (Table.insert s.numbers registry s.forest.length) other).getD 0 <
        s.forest.length + 1
      rw [Table.get?_insert]
      split
      · exact Nat.lt_succ_self _
      · exact (h.numbered other).trans (Nat.lt_succ_self _)
  | register registry name returnType body =>
    simp only [session, RegistrySession.act, Forest.register, Command.events]
    rcases hf : Registry.functionOf name returnType (library.offered body none) with e | f
    · exact ⟨rfl, h.tells, h.numbered⟩
    · refine ⟨rfl, ?_, fun other => ?_⟩
      · exact h.tells.registered (h.numbered registry) (Registry.name_of_functionOf hf)
      · exact (h.numbered other).trans_eq (Forest.length_modify _ _ _).symm

end IsTold

/-- **A session that keeps the history refines one that does not.** -/
theorem refines_recording (library : Library) :
    Session.Refines (Session.Anywhere IsTold) (fun _ => True) id id (session library)
      (recording library) where
  act := by
    rintro around s x command (h : IsTold s x) -
    obtain rfl := h.state
    exact ⟨rfl, h.act command⟩
  enter opening := opening.elim
  seen _ _ _ _ _ := rfl
  seenAt opening := opening.elim

/-! ### Registering -/

/-- Whether a registration is accepted: the body can be called and the return type is known, the
name means the new function from then on, and nothing else changes but what the name means in
registries that fall back on this one. -/
def IsAccepted (library : Library) (past : History) (s : State)
    (registry name returnType body : String) : Prop :=
  ∃ routine kind f, library body = some routine ∧ ReturnType.ofName? returnType = some kind ∧
    f = ⟨Text.upperCase name, kind, .routine body none, routine.minArgs, routine.maxArgs⟩ ∧
    ∃ after, (session library).act (.register registry name returnType body) s =
        (.ok (describe f), { s with forest := after }) ∧
      after.find? (s.number registry) name = some f ∧
      ∀ number other, after.find? number other ≠ s.forest.find? number other →
        past.FallsBackOn number (s.number registry) ∧ Text.upperCase other = Text.upperCase name

/-- Whether a registration is refused: the body cannot be called or the return type is unknown, it
fails with the complaint about the one or the other, and nothing changes. -/
def IsRefused (library : Library) (s : State) (registry name returnType body : String) : Prop :=
  (library body = none ∧ (session library).act (.register registry name returnType body) s =
    (.error ⟨.argument (.notCallable name), none⟩, s)) ∨
  (library body ≠ none ∧ ReturnType.ofName? returnType = none ∧
    (session library).act (.register registry name returnType body) s =
      (.error ⟨.argument (.returnType returnType name), none⟩, s))

variable {library : Library} {s : State} {x : Point}

theorem IsTold.isAccepted_or_isRefused (h : IsTold s x)
    (registry name returnType body : String) :
    IsAccepted library x.past s registry name returnType body ∨
      IsRefused library s registry name returnType body := by
  rcases hbody : library body with - | routine
  · refine .inr (.inl ⟨hbody, ?_⟩)
    simp [session, RegistrySession.act, Forest.register, Library.offered, hbody,
      Registry.functionOf, bind, Except.bind, throw, throwThe, MonadExceptOf.throw]
  rcases hkind : ReturnType.ofName? returnType with - | kind
  · refine .inr (.inr ⟨by simp [hbody], hkind, ?_⟩)
    simp [session, RegistrySession.act, Forest.register, Library.offered, hbody, hkind,
      Registry.functionOf, bind, Except.bind, throw, throwThe, MonadExceptOf.throw]
  obtain ⟨f, hf⟩ : ∃ f : Function, f = ⟨Text.upperCase name, kind, .routine body none,
    routine.minArgs, routine.maxArgs⟩ := ⟨_, rfl⟩
  have hname : f.name = Text.upperCase name := by rw [hf]
  refine .inl ⟨routine, kind, f, hbody, hkind, hf, _, ?_, ?_, fun number other hne =>
    h.tells.fallsBackOn_of_find?_ne hname hne⟩
  · simp [session, RegistrySession.act, Forest.register, Library.offered, hbody, hkind,
      Registry.functionOf, bind, Except.bind, pure, Except.pure, hf]
  · refine ((h.tells.registered (h.numbered registry) hname).find?_iff).mpr (.own ?_)
    simp [History.latest?, Event.function?]

/-! ### What registries answer -/

/-- Whether what registries answer at a state is what a history says. -/
structure Answers (library : Library) (past : History) (s : State) : Prop where
  get : ∀ number name f, s.forest.find? number name = some f ↔ past.Finds number name f
  has : ∀ registry name, ((session library).act (.has registry name) s).1 = .ok (.bool true) ↔
    Text.upperCase name ∈ s.forest.names (s.number registry)
  names : ∀ number key, key ∈ s.forest.names number ↔
    ∃ ancestor, past.FallsBackOn number ancestor ∧ past.Registers ancestor key
  register : ∀ registry name returnType body,
    IsAccepted library past s registry name returnType body ∨
      IsRefused library s registry name returnType body

theorem IsTold.answers (h : IsTold s x) : Answers library x.past s where
  get _ _ _ := h.tells.find?_iff
  has registry name := by
    rw [← Forest.isSome_find?_iff]
    simp [session, RegistrySession.act]
  names _ _ := h.tells.mem_names_iff
  register := h.isAccepted_or_isRefused

/-- **Registries are what their history tells**: keeping the history changes no record of a session,
and at every point the history tells what every name means from every registry on, which names it
knows, and what registering does. -/
theorem tells_registering (library : Library) (steps : List (Step Command Empty)) :
    (recording library).run steps .initial = (session library).run steps .initial ∧
    List.Forall₂ (fun s x => x.state = s ∧ Answers library x.past s)
      (.initial :: (session library).allStates steps .initial)
      (.initial :: (recording library).allStates steps .initial) := by
  have hinitial : Session.Anywhere IsTold () .initial .initial := isTold_initial
  have hrun : Record.allMap id ((recording library).run steps .initial) =
      Record.allMap id ((session library).run steps .initial) :=
    (refines_recording library).run (fun _ _ => trivial) hinitial
  rw [Record.allMap_id, Record.allMap_id] at hrun
  have hstates : List.Forall₂ (Session.Refines.Related (Session.Anywhere IsTold))
      ((session library).allStates steps .initial)
      ((recording library).allStates steps .initial) :=
    (refines_recording library).forall₂_allStates (fun _ _ => trivial) hinitial
  refine ⟨hrun, (hstates.cons ⟨(), hinitial⟩).imp ?_⟩
  rintro s x ⟨around, h : IsTold s x⟩
  exact ⟨h.state, h.answers⟩

end RegistrySession

end Formulary

import Formulary.Cache
import Formulary.Proofs.Table

/-!
# What a removal leaves

A pattern is asked for the texts of a cache one after the other. If its matcher returns for all of
them, the entries that it selects are removed and the others stay in their order
(`Cache.invalidate_eq_ok_iff`). If it fails for one of them, the removal fails in the same way, at
the first such text (`Cache.invalidate_eq_error_iff`).
-/

namespace Formulary

namespace CachePattern

/-- Whether a pattern takes a text away. One for which its matcher fails stays. -/
def takes (p : CachePattern) (text : String) : Bool := (p.selects text).toOption.getD false

variable {p : CachePattern} {text : String} {entries kept : Table String Value}

theorem takes_of_selects {isSelected : Bool} (h : p.selects text = .ok isSelected) :
    p.takes text = isSelected := by
  rw [takes, h]
  rfl

theorem unselected_eq_ok_iff : p.unselected entries = .ok kept ↔
    (∀ entry ∈ entries, ∃ isSelected, p.selects entry.1 = .ok isSelected) ∧
      kept = entries.filter fun entry => !p.takes entry.1 := by
  induction entries generalizing kept with
  | nil => simp [unselected, pure, Except.pure, eq_comm]
  | cons entry rest ih =>
    rw [unselected, List.forall_mem_cons]
    constructor
    · intro h
      obtain ⟨isSelected, hselects, h⟩ := Except.bind_eq_ok_iff.mp h
      obtain ⟨others, hrest, h⟩ := Except.bind_eq_ok_iff.mp h
      obtain ⟨hall, rfl⟩ := ih.mp hrest
      obtain rfl := Except.ok.inj h
      refine ⟨⟨⟨_, hselects⟩, hall⟩, ?_⟩
      rw [List.filter_cons, takes_of_selects hselects]
      cases isSelected <;> rfl
    · rintro ⟨⟨⟨isSelected, hselects⟩, hall⟩, rfl⟩
      rw [hselects, ih.mpr ⟨hall, rfl⟩, List.filter_cons, takes_of_selects hselects]
      cases isSelected <;> rfl

theorem unselected_eq_error_iff {fault : Error} : p.unselected entries = .error fault ↔
    ∃ before entry after, entries = before ++ entry :: after ∧
      (∀ other ∈ before, ∃ isSelected, p.selects other.1 = .ok isSelected) ∧
      p.selects entry.1 = .error fault := by
  induction entries with
  | nil => simp [unselected, pure, Except.pure]
  | cons first rest ih =>
    rw [unselected]
    rcases hselects : p.selects first.1 with e | isSelected
    · -- the first text decides
      constructor
      · intro h
        exact ⟨[], first, rest, rfl, by simp, Except.error.inj h ▸ hselects⟩
      · rintro ⟨_ | ⟨other, before⟩, entry, after, hsplit, hbefore, herror⟩
        · obtain ⟨rfl, rfl⟩ := List.cons.inj hsplit
          rw [Except.error.inj (hselects.symm.trans herror)]
          rfl
        · obtain ⟨rfl, rfl⟩ := List.cons.inj hsplit
          obtain ⟨isSelected, hok⟩ := hbefore first List.mem_cons_self
          cases hselects.symm.trans hok
    · have hrest : (do
          let isSelected ← Except.ok isSelected
          let kept ← p.unselected rest
          return if isSelected then kept else first :: kept) = .error fault ↔
          p.unselected rest = .error fault := by
        rcases p.unselected rest with e | kept
        · exact Iff.rfl
        · exact iff_of_false nofun nofun
      rw [hrest, ih]
      constructor
      · rintro ⟨before, entry, after, rfl, hbefore, herror⟩
        refine ⟨first :: before, entry, after, rfl, ?_, herror⟩
        exact List.forall_mem_cons.mpr ⟨⟨isSelected, hselects⟩, hbefore⟩
      · rintro ⟨_ | ⟨other, before⟩, entry, after, hsplit, hbefore, herror⟩
        · obtain ⟨rfl, rfl⟩ := List.cons.inj hsplit
          cases hselects.symm.trans herror
        · obtain ⟨rfl, rfl⟩ := List.cons.inj hsplit
          exact ⟨before, entry, after, rfl, (List.forall_mem_cons.mp hbefore).2, herror⟩

end CachePattern

namespace Cache

variable {c c' : Cache} {p : CachePattern}

/-- A removal that succeeds takes away what the pattern selects, and nothing else. -/
theorem invalidate_eq_ok_iff : c.invalidate p = .ok c' ↔
    (∀ entry ∈ c.entries, ∃ isSelected, p.selects entry.1 = .ok isSelected) ∧
      c' = c.forget p.takes := by
  rw [invalidate]
  constructor
  · intro h
    obtain ⟨kept, hkept, h⟩ := Except.bind_eq_ok_iff.mp h
    obtain ⟨hall, rfl⟩ := CachePattern.unselected_eq_ok_iff.mp hkept
    exact ⟨hall, (Except.ok.inj h).symm⟩
  · rintro ⟨hall, rfl⟩
    rw [CachePattern.unselected_eq_ok_iff.mpr ⟨hall, rfl⟩]
    rfl

/-- A removal fails as the matcher fails for the first text for which it does. -/
theorem invalidate_eq_error_iff {fault : Error} : c.invalidate p = .error fault ↔
    ∃ before entry after, c.entries = before ++ entry :: after ∧
      (∀ other ∈ before, ∃ isSelected, p.selects other.1 = .ok isSelected) ∧
      p.selects entry.1 = .error fault := by
  rw [← CachePattern.unselected_eq_error_iff, invalidate]
  rcases p.unselected c.entries with e | kept
  · exact ⟨fun h => by cases h; rfl, fun h => by cases h; rfl⟩
  · exact iff_of_false nofun nofun

theorem get?_forget (c : Cache) (forgets : String → Bool) (text : String) :
    (c.forget forgets).get? text = if forgets text then none else c.get? text := by
  rw [forget, get?, get?, Table.get?_filter c.entries (fun text => !forgets text) text]
  cases forgets text <;> rfl

/-- What a removal leaves of a text is what was there, or nothing. -/
theorem get?_invalidate (h : c.invalidate p = .ok c') (text : String) :
    c'.get? text = if p.takes text then none else c.get? text := by
  obtain ⟨-, rfl⟩ := invalidate_eq_ok_iff.mp h
  exact get?_forget c p.takes text

end Cache

end Formulary

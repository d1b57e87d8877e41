import Mathlib.Data.List.Nodup

/-!
# Lists in first-use order

Where names are listed in the order of their first use, a name that was there before is left out
(`List.eraseDups`). It does not matter whether this is done once at the end or for each part of the
list as well: the whole list depends only on the lists of first uses of its parts
(`eraseDups_append_congr`).
-/

namespace Formulary

theorem nodup_eraseDups (names : List String) : names.eraseDups.Nodup := by
  induction hn : names.length using Nat.strongRecOn generalizing names with
  | _ n ih =>
    cases names with
    | nil => simp
    | cons name rest =>
      rw [List.eraseDups_cons, List.nodup_cons]
      refine ⟨by simp, ih _ ?_ _ rfl⟩
      have := List.length_filter_le (fun b => !b == name) rest
      simp only [List.length_cons] at hn
      omega

theorem eraseDups_of_nodup {names : List String} (h : names.Nodup) : names.eraseDups = names := by
  induction names with
  | nil => rfl
  | cons name rest ih =>
    obtain ⟨hname, hrest⟩ := List.nodup_cons.mp h
    have hkept : rest.filter (fun other => !other == name) = rest :=
      List.filter_eq_self.mpr fun other hother => by
        rw [beq_eq_false_iff_ne.mpr (ne_of_mem_of_not_mem hother hname), Bool.not_false]
    rw [List.eraseDups_cons, hkept, ih hrest]

theorem eraseDups_eraseDups (names : List String) : names.eraseDups.eraseDups = names.eraseDups :=
  eraseDups_of_nodup (nodup_eraseDups names)

theorem eraseDups_of_eq {names others : List String} (h : names = others.eraseDups) :
    names.eraseDups = others.eraseDups := by
  rw [h, eraseDups_eraseDups]

theorem filter_eraseDups (p : String → Bool) : ∀ names : List String,
    names.eraseDups.filter p = (names.filter p).eraseDups
  | [] => rfl
  | name :: rest => by
    rw [List.eraseDups_cons]
    rcases hp : p name with - | -
    · -- what is not kept need not be kept out
      rw [List.filter_cons_of_neg (by simp [hp]), List.filter_cons_of_neg (by simp [hp]),
        filter_eraseDups p, List.filter_filter]
      congr 1
      refine List.filter_congr fun other _ => ?_
      by_cases h : other = name
      · simp [h, hp]
      · simp [h]
    · rw [List.filter_cons_of_pos hp, List.filter_cons_of_pos hp, List.eraseDups_cons,
        filter_eraseDups p, List.filter_filter, List.filter_filter]
      simp only [Bool.and_comm]
termination_by names => names.length
decreasing_by
  all_goals
    have := List.length_filter_le (fun other => !other == name) rest
    simp only [List.length_cons]
    omega

/-- **The first uses in a list are those in its parts.** -/
theorem eraseDups_append_congr {xs xs' ys ys' : List String} (hx : xs.eraseDups = xs'.eraseDups)
    (hy : ys.eraseDups = ys'.eraseDups) : (xs ++ ys).eraseDups = (xs' ++ ys').eraseDups := by
  have hmem (name : String) : name ∈ xs ↔ name ∈ xs' := by
    rw [← List.mem_eraseDups, hx, List.mem_eraseDups]
  have hleft : ys.removeAll xs = ys.removeAll xs' :=
    List.filter_congr fun name _ => by simp [hmem]
  rw [List.eraseDups_append, List.eraseDups_append, hx, hleft, List.removeAll, List.removeAll,
    ← filter_eraseDups, ← filter_eraseDups, hy]

end Formulary

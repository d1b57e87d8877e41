import Formulary.Function.Builtin

/-!
# Parts of a text

A text function works on the characters of its argument's text, whatever the argument is. How many
characters it takes, and from where, is a whole number that it reads off another argument
(`Builtin.oneInteger`); once these are read, the parts are `take` and `drop` of the characters
(`Builtin.leftPart_eq`, `Builtin.middlePart_eq`, `Builtin.rightPart_eq`).

The aim is that cutting loses nothing and repeats nothing (`Value.concat_left_mid_right`): the first
characters, a window that begins where they end, and the last characters, as many as are left, are
the text again, also where a count is zero or goes past the end.
-/

namespace Formulary

namespace Builtin

variable {function : String} {text start count : Value} {n : Nat}

/-! ### Counts -/

@[simp] theorem oneInteger_int (function : String) (n : Int) :
    oneInteger function (.int n) = .ok n := rfl

theorem characterCount_eq (h : oneInteger function count = .ok (n : Int)) :
    characterCount function count = .ok n := by
  rw [characterCount, h]
  show (if (n : Int) < 0 then throw (.argument (.negativeCount function n))
    else pure (n : Int).toNat : Except Error Nat) = .ok n
  rw [if_neg (by omega), Int.toNat_natCast]
  rfl

@[simp] theorem characterCount_int (function : String) (n : Nat) :
    characterCount function (.int n) = .ok n :=
  characterCount_eq (oneInteger_int function n)

/-! ### Parts -/

theorem leftPart_eq (h : characterCount "LEFT" count = .ok n) :
    leftPart text count = .ok (String.ofList ((textOf text).toList.take n)) := by
  rw [leftPart, h]
  rfl

theorem rightPart_eq (h : characterCount "RIGHT" count = .ok n) :
    rightPart text count =
      .ok (String.ofList ((textOf text).toList.drop ((textOf text).length - n))) := by
  rw [rightPart, h, ← String.length_toList]
  rfl

/-- Places are counted from one. -/
theorem middlePart_eq {before : Nat} (hstart : oneInteger "MID" start = .ok (before + 1 : Int))
    (h : characterCount "MID" count = .ok n) :
    middlePart text start count =
      .ok (String.ofList (((textOf text).toList.drop before).take n)) := by
  have hplace : ¬ (before + 1 : Int) < 1 := by omega
  simp only [middlePart, hstart, bind, Except.bind, if_neg hplace, h, Int.add_sub_cancel,
    Int.toNat_natCast]
  rfl

/-! ### Calls with given counts -/

theorem apply_left_int (t : Value) (a : Nat) :
    Builtin.left.apply [t, .int a] = .ok (.text (String.ofList ((textOf t).toList.take a))) := by
  rw [apply, leftPart_eq (characterCount_int "LEFT" a)]
  rfl

theorem apply_right_int (t : Value) (a : Nat) :
    Builtin.right.apply [t, .int a] =
      .ok (.text (String.ofList ((textOf t).toList.drop ((textOf t).length - a)))) := by
  rw [apply, rightPart_eq (characterCount_int "RIGHT" a)]
  rfl

theorem apply_mid_int (t : Value) (a b : Nat) :
    Builtin.mid.apply [t, .int (a + 1), .int b] =
      .ok (.text (String.ofList (((textOf t).toList.drop a).take b))) := by
  rw [apply, middlePart_eq (oneInteger_int "MID" (a + 1)) (characterCount_int "MID" b)]
  rfl

/-! ### Joining -/

@[simp] theorem textOf_text (s : String) : textOf (.text s) = s := rfl

@[simp] theorem joined_nil : joined [] = "" := rfl

theorem joined_cons (v : Value) (args : List Value) :
    joined (v :: args) = textOf v ++ joined args := by
  rw [joined, List.map_cons, String.join_cons, joined]

@[simp] theorem joined_singleton (v : Value) : joined [v] = textOf v := by
  rw [joined_cons, joined_nil, String.append_empty]

/-- The characters before a place, a window from there and what is left are the whole. -/
theorem take_append_window_append_drop {α : Type} (items : List α) (a b : Nat) :
    items.take a ++ ((items.drop a).take b ++
      items.drop (items.length - (items.length - a - b))) = items := by
  -- A window that goes past the end leaves nothing, and so does dropping that far.
  have hrest : items.drop (items.length - (items.length - a - b)) = items.drop (a + b) := by
    rcases Nat.le_total (a + b) items.length with h | h
    · congr 1
      omega
    · rw [List.drop_of_length_le h, List.drop_of_length_le (by omega)]
  rw [hrest, ← List.append_assoc, ← List.take_add, List.take_append_drop]

theorem joined_parts (s : String) (a b : Nat) :
    joined [.text (String.ofList (s.toList.take a)),
      .text (String.ofList ((s.toList.drop a).take b)),
      .text (String.ofList (s.toList.drop (s.length - (s.length - a - b))))] = s := by
  rw [joined_cons, joined_cons, joined_singleton, textOf_text, textOf_text, textOf_text,
    ← String.ofList_append, ← String.ofList_append, ← String.length_toList,
    take_append_window_append_drop, String.ofList_toList]

end Builtin

namespace Value

/-- **Cutting a text loses nothing and repeats nothing.** For every value and all counts, the parts
are there, they join to what the value alone joins to, and the first and the last characters are as
many as were asked for, or all. -/
theorem concat_left_mid_right (t : Value) :
    ∃ length : Nat, Builtin.len.apply [t] = .ok (.int length) ∧ ∀ a b : Nat,
      ∃ first window rest last whole : Value,
        Builtin.left.apply [t, .int a] = .ok first ∧
        Builtin.mid.apply [t, .int (a + 1), .int b] = .ok window ∧
        Builtin.right.apply [t, .int (max (length - a - b) 0)] = .ok rest ∧
        Builtin.concat.apply [first, window, rest] = .ok whole ∧
        Builtin.concat.apply [t] = .ok whole ∧
        Builtin.right.apply [t, .int a] = .ok last ∧
        Builtin.len.apply [first] = .ok (.int (min a length : Nat)) ∧
        Builtin.len.apply [last] = .ok (.int (min a length : Nat)) := by
  obtain ⟨s, hs⟩ : ∃ s, Builtin.textOf t = s := ⟨_, rfl⟩
  refine ⟨s.length, by rw [Builtin.apply, hs]; rfl, fun a b => ?_⟩
  have hfirst := Builtin.apply_left_int t a
  have hwindow := Builtin.apply_mid_int t a b
  have hrest := Builtin.apply_right_int t (s.length - a - b)
  have hlast := Builtin.apply_right_int t a
  have hcount : max (s.length - a - b : Int) 0 = (s.length - a - b : Nat) := by omega
  rw [hs] at hfirst hwindow hrest hlast
  rw [← hcount] at hrest
  refine ⟨_, _, _, _, .text s, hfirst, hwindow, hrest, ?_, ?_, hlast, ?_, ?_⟩
  · rw [Builtin.apply, Builtin.joined_parts]
    rfl
  · rw [Builtin.apply, Builtin.joined_singleton, hs]
    rfl
  · rw [Builtin.apply, Builtin.textOf_text, String.length_ofList, List.length_take,
      String.length_toList]
    rfl
  · rw [Builtin.apply, Builtin.textOf_text, String.length_ofList, List.length_drop,
      String.length_toList, show s.length - (s.length - a) = min a s.length by omega]
    rfl

end Value

end Formulary

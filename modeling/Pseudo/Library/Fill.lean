import Mathlib.Data.List.Basic
import Mathlib.Logic.Function.Basic

/-!
# Arrays that are filled as far as they go

A program counts more elements than it has room for: it stores those that fit, and counts on.

* `fill_append_singleton`: one more element.
* `fill_fill`: to start again, with no fewer elements, leaves nothing of the first attempt.
-/

namespace Fill

variable {α : Type*}

/-- The array, filled with a list as far as there is room. The room may be negative. -/
def fill (room : Int) (l : List α) (mem : Nat → α) (i : Nat) : α :=
  if (i : Int) < room then l[i]?.getD (mem i) else mem i

@[simp] theorem fill_nil (room : Int) (mem : Nat → α) : fill room [] mem = mem := by
  funext i
  simp [fill]

/-- The next element is stored behind the others, if there is room. -/
theorem fill_append_singleton (room : Int) (l : List α) (a : α) (mem : Nat → α) :
    fill room (l ++ [a]) mem =
      if (l.length : Int) < room then Function.update (fill room l mem) l.length a
      else fill room l mem := by
  funext i
  rcases Nat.lt_trichotomy i l.length with hi | rfl | hi
  · have hne : i ≠ l.length := Nat.ne_of_lt hi
    split <;> simp [fill, List.getElem?_append_left hi, hne]
  · split <;> rename_i hroom <;> simp [fill, hroom]
  · have hne : i ≠ l.length := Nat.ne_of_gt hi
    have hlong : (l ++ [a])[i]? = none := List.getElem?_eq_none (by simp; omega)
    have hshort : l[i]? = none := List.getElem?_eq_none (by omega)
    split <;> simp [fill, hlong, hshort, hne]

/-- A second attempt stores over the first. -/
theorem fill_fill (room : Int) {l l' : List α} (h : l.length ≤ l'.length) (mem : Nat → α) :
    fill room l' (fill room l mem) = fill room l' mem := by
  funext i
  unfold fill
  split
  · rcases Nat.lt_or_ge i l'.length with hi | hi
    · rw [List.getElem?_eq_getElem hi, Option.getD_some, Option.getD_some]
    · rw [List.getElem?_eq_none hi, List.getElem?_eq_none (Nat.le_trans h hi)]
      rfl
  · rfl

theorem fill_getElem? {room : Int} {l : List α} {i : Nat} (hroom : (i : Int) < room)
    (hi : i < l.length) (mem : Nat → α) : l[i]? = some (fill room l mem i) := by
  rw [fill, if_pos hroom, List.getElem?_eq_getElem hi, Option.getD_some]

theorem fill_of_le {room : Int} {i : Nat} (h : room ≤ i) (l : List α) (mem : Nat → α) :
    fill room l mem i = mem i :=
  if_neg (Int.not_lt.mpr h)

end Fill

import Mathlib.Data.List.Basic

/-!
# Memory around an address

Cells at any distance from an address, those before it included: the arithmetic of a program on its
pointers may leave the object that it points into.

* `window_patch`, `patch_of_outside`: what a write changes, and what it leaves.
* `patch_eq_self_iff`: a write changes nothing when it writes what is there.
-/

namespace Window

variable {α : Type} {m : Int → α} {a i : Int} {n : Nat} {cells : List α}

/-- Some cells, from an address on. -/
def window (m : Int → α) (a : Int) (n : Nat) : List α := (List.range n).map fun k : Nat => m (a + k)

/-- Memory in which some cells have been written, from an address on. -/
def patch (m : Int → α) (a : Int) (cells : List α) (i : Int) : α :=
  if a ≤ i then (cells[(i - a).toNat]?).getD (m i) else m i

@[simp] theorem length_window : (window m a n).length = n := by simp [window]

theorem patch_of_outside (h : i < a ∨ a + cells.length ≤ i) : patch m a cells i = m i := by
  unfold patch
  split
  · rw [List.getElem?_eq_none (by omega)]
    rfl
  · rfl

theorem patch_add {k : Nat} (h : k < cells.length) : patch m a cells (a + k) = cells[k] := by
  have hk : (a + k - a).toNat = k := by omega
  rw [patch, if_pos (by omega), hk, List.getElem?_eq_getElem h, Option.getD_some]

theorem window_patch : window (patch m a cells) a cells.length = cells := by
  refine List.ext_getElem length_window fun k _ hk => ?_
  simp only [window, List.getElem_map, List.getElem_range]
  exact patch_add hk

theorem patch_eq_self_iff : patch m a cells = m ↔ window m a cells.length = cells := by
  constructor
  · intro h
    rw [← congrArg (fun m => window m a cells.length) h, window_patch]
  · intro h
    funext i
    unfold patch
    split
    · rename_i hle
      obtain ⟨k, rfl⟩ := Int.le.dest hle
      have hk : (a + k - a).toNat = k := by omega
      rw [← h, hk]
      by_cases hlt : k < cells.length
      · simp [window, hlt]
      · rw [List.getElem?_eq_none (by simpa using hlt)]
        rfl
    · rfl

/-- What is read and written back changes nothing. -/
theorem patch_window : patch m a (window m a n) = m :=
  patch_eq_self_iff.mpr (by rw [length_window])

end Window

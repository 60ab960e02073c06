import Pseudo.Library.Block

/-!
# Texts printed into cells of a fixed size

A pointer that moves through a block as `s += snprintf(s, size, …)` moves it: each text is written
with a terminator into at most `size` cells, but the pointer advances by the length of the whole
text.

* `terminated_printed`: what can be read back as one terminated text.
* `readBack_eq_iff`: it is everything exactly when every text fits with its terminator.
* `within_printed`: the block that is needed.
-/

namespace Block

variable {α : Type} {m : Nat → α} {nul : α} {size pos n : Nat} {s : List α} {ss : List (List α)}

def printed (nul : α) (size : Nat) : Nat → List (List α) → List (Write α)
  | _, [] => []
  | pos, s :: ss => ⟨pos, s.take (size - 1) ++ [nul]⟩ :: printed nul size (pos + s.length) ss

/-- The texts up to the first one that is cut off, and what is left of that. -/
def readBack (size : Nat) : List (List α) → List α
  | [] => []
  | s :: ss => if s.length < size then s ++ readBack size ss else s.take (size - 1)

theorem le_offset_printed {w : Write α} (h : w ∈ printed nul size pos ss) : pos ≤ w.offset := by
  induction ss generalizing pos with
  | nil => cases h
  | cons s ss ih =>
    rcases List.mem_cons.mp h with rfl | h
    · exact Nat.le_refl _
    · exact Nat.le_trans (Nat.le_add_right _ _) (ih h)

/-- The induction is on the texts: later writes leave the cells of a text alone, the one of its
terminator excepted when it is not cut off. -/
theorem terminated_printed (hsize : 0 < size) (hnil : ss = [] → m pos = nul) :
    Holds (stores m (printed nul size pos ss)) pos (readBack size ss ++ [nul]) := by
  induction ss generalizing m pos with
  | nil => exact holds_singleton.mpr (hnil rfl)
  | cons s ss ih =>
    have hself := holds_store_self m pos (s.take (size - 1) ++ [nul])
    rw [printed, readBack, stores_cons]
    by_cases hfits : s.length < size
    · rw [List.take_of_length_le (by omega)] at hself ⊢
      obtain ⟨hs, hnul⟩ := holds_append.mp hself
      rw [if_pos hfits, List.append_assoc, holds_append]
      exact ⟨hs.stores_before fun w hw => le_offset_printed hw,
        ih fun _ => holds_singleton.mp hnul⟩
    · rw [if_neg hfits]
      refine hself.stores_before fun w hw => ?_
      refine Nat.le_trans ?_ (le_offset_printed hw)
      rw [List.length_append, List.length_take, List.length_singleton]
      omega

theorem readBack_sublist (size : Nat) (ss : List (List α)) :
    (readBack size ss).Sublist ss.flatten := by
  induction ss with
  | nil => exact List.Sublist.refl _
  | cons s ss ih =>
    rw [readBack, List.flatten_cons]
    split
    · exact (List.Sublist.refl s).append ih
    · exact (List.take_sublist _ s).trans (List.sublist_append_left s _)

theorem readBack_eq_iff (hsize : 0 < size) :
    readBack size ss = ss.flatten ↔ ∀ s ∈ ss, s.length < size := by
  induction ss with
  | nil => exact iff_of_true rfl fun _ h => absurd h List.not_mem_nil
  | cons s ss ih =>
    rw [readBack, List.flatten_cons, List.forall_mem_cons]
    by_cases hfits : s.length < size
    · rw [if_pos hfits, List.append_cancel_left_eq, ih, and_iff_right hfits]
    · rw [if_neg hfits]
      refine iff_of_false (fun h => ?_) fun h => hfits h.1
      have hlen := congrArg List.length h
      rw [List.length_take, List.length_append] at hlen
      omega

/-- Texts that take no more than `size` cells each. -/
theorem within_printed (hsize : 0 < size) (hss : ∀ s ∈ ss, s.length ≤ size)
    (hn : pos + size * ss.length ≤ n) : Within n (printed nul size pos ss) := by
  induction ss generalizing pos with
  | nil => exact within_nil
  | cons s ss ih =>
    obtain ⟨hs, hss⟩ := List.forall_mem_cons.mp hss
    rw [List.length_cons, Nat.mul_succ] at hn
    rw [printed, within_cons]
    refine ⟨?_, ih hss (by omega)⟩
    simp only [Write.stop, List.length_append, List.length_take, List.length_singleton]
    omega

end Block

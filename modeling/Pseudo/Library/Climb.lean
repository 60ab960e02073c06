import Mathlib.Data.List.Nodup
import Mathlib.Data.List.Infix
import Mathlib.Algebra.Order.Group.Unbundled.Int

/-!
# A bound that climbs over a list

A bound starts at `lo` and is raised to `d + 1` by each `d` of a list that it is below when the
list gets to it. A value that the bound has just reached does not raise it, so the bound may end
at the greatest value of the list instead of above it.

* `top_le_iff`: exactly when it does. `passes lo ds k` says by recursion on `k` whether
  the bound gets over `lo + k`: not over `lo` itself, and not over a value that it reaches by
  having got over the one before it in the list.
-/

namespace Climb

/-- The bound after the list. -/
def top (lo : Int) (ds : List Int) : Int := ds.foldl (fun top d => if top < d then d + 1 else top) lo

/-- The bound gets over `lo + k`, if that is in the list with nothing greater before it. -/
def passes (lo : Int) (ds : List Int) : Nat → Bool
  | 0 => false
  | k + 1 => !(decide ([lo + k, lo + k + 1].Sublist ds) && passes lo ds k)

variable {lo b c d : Int} {ds es pre post : List Int}

@[simp] theorem top_nil : top lo [] = lo := rfl

@[simp] theorem top_cons : top lo (d :: ds) = top (if lo < d then d + 1 else lo) ds := rfl

@[simp] theorem top_append : top lo (ds ++ es) = top (top lo ds) es := List.foldl_append

theorem top_of_forall_le (h : ∀ d ∈ ds, d ≤ lo) : top lo ds = lo := by
  induction ds with
  | nil => rfl
  | cons d ds ih =>
    obtain ⟨hd, hds⟩ := List.forall_mem_cons.mp h
    rw [top_cons, if_neg (Int.not_lt.mpr hd), ih hds]

theorem le_top (ds : List Int) : lo ≤ top lo ds := by
  induction ds generalizing lo with
  | nil => exact Int.le_refl lo
  | cons d ds ih =>
    rw [top_cons]
    refine Int.le_trans ?_ ih
    split <;> omega

theorem top_le (hlo : lo ≤ b) (h : ∀ d ∈ ds, d < b) : top lo ds ≤ b := by
  induction ds generalizing lo with
  | nil => exact hlo
  | cons d ds ih =>
    obtain ⟨hd, hds⟩ := List.forall_mem_cons.mp h
    rw [top_cons]
    refine ih ?_ hds
    split <;> omega

theorem le_top_of_mem (h : d ∈ ds) : d ≤ top lo ds := by
  obtain ⟨pre, post, rfl⟩ := List.append_of_mem h
  rw [top_append, top_cons]
  refine Int.le_trans ?_ (le_top post)
  split <;> omega

/-- In a list without repetition, what stands before a value is what is in front of it. -/
theorem pair_sublist_iff (hnodup : (pre ++ d :: post).Nodup) (hne : c ≠ d) :
    [c, d].Sublist (pre ++ d :: post) ↔ c ∈ pre := by
  constructor
  · intro h
    obtain ⟨l, r, hlr, hl, hr⟩ := List.sublist_append_iff.mp h
    cases l with
    | nil =>
      obtain rfl : [c, d] = r := hlr
      have hpost : [c, d].Sublist post := by
        cases hr with
        | cons _ h => exact h
        | cons_cons _ _ => exact absurd rfl hne
      have hd : d ∈ post := hpost.subset (by simp)
      exact absurd hd (List.nodup_cons.mp (List.nodup_append.mp hnodup).2.1).1
    | cons x l =>
      obtain ⟨rfl, -⟩ := List.cons_eq_cons.mp hlr
      exact hl.subset List.mem_cons_self
  · intro h
    exact (List.singleton_sublist.mpr h).append (List.singleton_sublist.mpr List.mem_cons_self)

/-- The bound reaches `lo + k` without getting over it. The induction is on `k`: to reach a value
above `lo` the bound has to get over the one just below it. -/
theorem top_eq_iff {k : Nat} (hnodup : (pre ++ (lo + k) :: post).Nodup)
    (hpre : ∀ x ∈ pre, x < lo + k) :
    top lo pre = lo + k ↔ passes lo (pre ++ (lo + k) :: post) k = false := by
  generalize hds : pre ++ (lo + (k : Int)) :: post = ds at hnodup
  induction k generalizing pre post with
  | zero =>
    refine iff_of_true ?_ rfl
    rw [top_of_forall_le fun x hx => ?_]
    · simp
    · have hlt := hpre x hx
      omega
  | succ k ih =>
    subst hds
    have hne : lo + (k : Int) ≠ lo + (k + 1 : Nat) := by omega
    have hpair := pair_sublist_iff hnodup hne
    have hcast : lo + (k : Int) + 1 = lo + ((k + 1 : Nat) : Int) := by omega
    rw [passes, hcast]
    by_cases hmem : lo + (k : Int) ∈ pre
    · obtain ⟨front, back, rfl⟩ := List.append_of_mem hmem
      -- the values before `lo + k` are below it, and so are those between the two
      have hnodup' := (List.nodup_append.mp hnodup).1
      have hfront : ∀ x ∈ front, x < lo + k := by
        intro x hx
        have hlt := hpre x (List.mem_append_left _ hx)
        have hxne : x ≠ lo + k := by
          rintro rfl
          exact (List.nodup_append.mp hnodup').2.2 _ hx _ List.mem_cons_self rfl
        omega
      have hback : ∀ x ∈ back, x ≤ lo + k := by
        intro x hx
        have hlt := hpre x (List.mem_append_right _ (List.mem_cons_of_mem _ hx))
        omega
      have hsplit : front ++ (lo + (k : Int)) :: (back ++ (lo + (k + 1 : Nat)) :: post) =
          front ++ (lo + (k : Int)) :: back ++ (lo + (k + 1 : Nat)) :: post := by simp
      have hstep := ih hfront hsplit
      have hle : top lo front ≤ lo + k := top_le (by omega) hfront
      rw [decide_eq_true (hpair.mpr hmem), Bool.true_and, Bool.not_eq_false', top_append, top_cons]
      rw [← Bool.not_eq_false, ← hstep]
      split
      · rename_i hlt
        rw [top_of_forall_le fun x hx => Int.le_trans (hback x hx) (by omega)]
        omega
      · rename_i hge
        have heq : top lo front = lo + k := by omega
        rw [heq, top_of_forall_le hback]
        omega
    · have hlt : ∀ x ∈ pre, x < lo + k := by
        intro x hx
        have hlt := hpre x hx
        have hxne : x ≠ lo + k := by
          rintro rfl
          exact hmem hx
        omega
      have hle : top lo pre ≤ lo + k := top_le (by omega) hlt
      rw [decide_eq_false (mt hpair.mp hmem)]
      simp only [Bool.false_and, Bool.not_false]
      refine iff_of_false ?_ (by simp)
      omega

theorem top_le_iff_of_nodup (hnodup : ds.Nodup) (hd : d ∈ ds) (hlo : lo ≤ d) :
    top lo ds ≤ d ↔ (∀ e ∈ ds, e ≤ d) ∧ passes lo ds (d - lo).toNat = false := by
  obtain ⟨pre, post, rfl⟩ := List.append_of_mem hd
  obtain ⟨k, rfl⟩ : ∃ k : Nat, d = lo + k := ⟨(d - lo).toNat, by omega⟩
  rw [show (lo + (k : Int) - lo).toNat = k by omega]
  have hbelow : (∀ e ∈ pre ++ (lo + (k : Int)) :: post, e ≤ lo + k) → ∀ x ∈ pre, x < lo + k := by
    intro hmax x hx
    have hle := hmax x (List.mem_append_left _ hx)
    have hne := (List.nodup_append.mp hnodup).2.2 x hx _ List.mem_cons_self
    omega
  constructor
  · intro h
    have hmax : ∀ e ∈ pre ++ (lo + (k : Int)) :: post, e ≤ lo + k :=
      fun e he => Int.le_trans (le_top_of_mem he) h
    refine ⟨hmax, (top_eq_iff hnodup (hbelow hmax)).mp ?_⟩
    have hle : top lo pre ≤ lo + k := top_le (by omega) (hbelow hmax)
    rw [top_append, top_cons] at h
    have hge := Int.le_trans (le_top post) h
    split at hge <;> omega
  · rintro ⟨hmax, hpasses⟩
    have heq := (top_eq_iff hnodup (hbelow hmax)).mpr hpasses
    rw [top_append, top_cons, heq, if_neg (Int.lt_irrefl _)]
    refine Int.le_of_eq (top_of_forall_le fun e he => ?_)
    exact hmax e (List.mem_append_right _ (List.mem_cons_of_mem _ he))

/-- Values below the start raise nothing. -/
theorem top_filter (hle : b ≤ lo) (ds : List Int) :
    top lo (ds.filter fun d => decide (b ≤ d)) = top lo ds := by
  induction ds generalizing lo with
  | nil => rfl
  | cons d ds ih =>
    by_cases hd : b ≤ d
    · rw [List.filter_cons_of_pos (by simpa using hd), top_cons, top_cons]
      refine ih ?_
      split <;> omega
    · rw [List.filter_cons_of_neg (by simpa using hd), top_cons, if_neg (by omega)]
      exact ih hle

theorem passes_filter (ds : List Int) (k : Nat) :
    passes lo (ds.filter fun d => decide (lo ≤ d)) k = passes lo ds k := by
  induction k with
  | zero => rfl
  | succ k ih =>
    rw [passes, passes, ih]
    congr 2
    refine decide_eq_decide.mpr ⟨fun h => h.trans List.filter_sublist, fun h => ?_⟩
    have hfilter := h.filter fun d => decide (lo ≤ d)
    rwa [List.filter_cons_of_pos (by simp), List.filter_cons_of_pos (by simp; omega),
      List.filter_nil] at hfilter

/-- Something in the list is not below the bound exactly when the bound does not get over the
greatest value of the list. -/
theorem top_le_iff (hnodup : (ds.filter fun d => decide (lo ≤ d)).Nodup) (hd : d ∈ ds)
    (hlo : lo ≤ d) :
    top lo ds ≤ d ↔ (∀ e ∈ ds, e ≤ d) ∧ passes lo ds (d - lo).toNat = false := by
  have hmem : d ∈ ds.filter fun d => decide (lo ≤ d) :=
    List.mem_filter.mpr ⟨hd, by simpa using hlo⟩
  rw [← top_filter (Int.le_refl lo), top_le_iff_of_nodup hnodup hmem hlo, passes_filter]
  refine and_congr_left fun _ => ⟨fun h e he => ?_, fun h e he => h e (List.mem_filter.mp he).1⟩
  by_cases hle : lo ≤ e
  · exact h e (List.mem_filter.mpr ⟨he, by simpa using hle⟩)
  · omega

end Climb

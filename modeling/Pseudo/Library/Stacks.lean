import Mathlib.Data.List.Basic

/-!
# Stacks that share one list

The entries of several owners stand in one list, oldest first. An owner's stack is what the list
holds of it, newest first. Appending pushes, and taking out an owner's last entry pops.

* `exists_last`: a stack that is not empty has its top as the owner's last entry.
* `stack_top`, `stack_other`: what taking an entry out does to each stack.
* `eq_nil_iff`: the list is empty when all stacks are.
-/

namespace Stacks

variable {ε τ : Type} [DecidableEq τ] {owner : ε → τ}

/-- The stack of one owner. -/
def stack (owner : ε → τ) (entries : List ε) (t : τ) : List ε :=
  (entries.filter (owner · = t)).reverse

theorem stack_concat_self {entries : List ε} {e : ε} :
    stack owner (entries ++ [e]) (owner e) = e :: stack owner entries (owner e) := by
  simp [stack, List.filter_append]

theorem stack_concat_other {entries : List ε} {e : ε} {t : τ} (h : owner e ≠ t) :
    stack owner (entries ++ [e]) t = stack owner entries t := by
  simp [stack, List.filter_append, h]

/-- The last entry of an owner. -/
theorem exists_last {entries : List ε} {t : τ} (h : stack owner entries t ≠ []) :
    ∃ before e after, entries = before ++ e :: after ∧ owner e = t ∧ ∀ x ∈ after, owner x ≠ t := by
  induction entries with
  | nil => exact absurd rfl h
  | cons e entries ih =>
    by_cases hrest : stack owner entries t = []
    · have hnone : ∀ x ∈ entries, owner x ≠ t := by
        intro x hx ht
        have hmem : x ∈ stack owner entries t := by
          rw [stack, List.mem_reverse, List.mem_filter]
          exact ⟨hx, decide_eq_true ht⟩
        rw [hrest] at hmem
        cases hmem
      have ht : owner e = t := by
        by_contra hne
        refine h ?_
        rw [stack, List.filter_cons_of_neg (by simpa using hne)]
        exact hrest
      exact ⟨[], e, entries, rfl, ht, hnone⟩
    · obtain ⟨before, e', after, rfl, ht, hafter⟩ := ih hrest
      exact ⟨e :: before, e', after, rfl, ht, hafter⟩

/-- It is the top of the owner's stack, and without it the rest of the stack is left. -/
theorem stack_top {before after : List ε} {e : ε} (h : ∀ x ∈ after, owner x ≠ owner e) :
    stack owner (before ++ e :: after) (owner e) =
      e :: stack owner (before ++ after) (owner e) := by
  have hafter : after.filter (owner · = owner e) = [] :=
    List.filter_eq_nil_iff.mpr fun x hx => by simpa using h x hx
  simp [stack, List.filter_append, hafter]

/-- The other stacks stay. -/
theorem stack_other {before after : List ε} {e : ε} {t : τ} (h : owner e ≠ t) :
    stack owner (before ++ e :: after) t = stack owner (before ++ after) t := by
  simp [stack, List.filter_append, h]

theorem eq_nil_iff {entries : List ε} : entries = [] ↔ ∀ t, stack owner entries t = [] := by
  constructor
  · rintro rfl t
    rfl
  · intro h
    refine List.eq_nil_iff_forall_not_mem.mpr fun e he => ?_
    have hmem : e ∈ stack owner entries (owner e) := by
      rw [stack, List.mem_reverse, List.mem_filter]
      exact ⟨he, decide_eq_true rfl⟩
    rw [h] at hmem
    cases hmem

end Stacks

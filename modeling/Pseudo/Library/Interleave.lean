import Mathlib.Logic.Function.Basic

/-!
# Threads that take turns

Every thread has a state of its own, and all of them share one. A step of a thread reads and changes
the shared state and its own.

* `step_keeps`: a condition on a thread and the shared state holds of all threads as long as every
  step of a thread keeps its own, and what a step may do to the shared state keeps that of the
  others.
-/

namespace Interleave

structure State (σ ι θ : Type) where
  shared : σ
  threads : ι → θ

variable {σ ι θ α : Type} [DecidableEq ι] {act : σ → ι → θ → α → Option (σ × θ)}
  {s s' : State σ ι θ} {i j : ι} {a : α}

/-- One thread takes a step. -/
def step (act : σ → ι → θ → α → Option (σ × θ)) (s : State σ ι θ) (i : ι) (a : α) :
    Option (State σ ι θ) :=
  (act s.shared i (s.threads i) a).map fun r => ⟨r.1, Function.update s.threads i r.2⟩

theorem step_eq_some : step act s i a = some s' ↔ ∃ sh t,
    act s.shared i (s.threads i) a = some (sh, t) ∧
      s' = ⟨sh, Function.update s.threads i t⟩ := by
  unfold step
  rw [Option.map_eq_some_iff]
  constructor
  · rintro ⟨⟨sh, t⟩, hact, rfl⟩
    exact ⟨sh, t, hact, rfl⟩
  · rintro ⟨sh, t, hact, rfl⟩
    exact ⟨(sh, t), hact, rfl⟩

/-- The others stay where they are. -/
theorem step_other (h : step act s i a = some s') (hj : j ≠ i) : s'.threads j = s.threads j := by
  obtain ⟨sh, t, _, rfl⟩ := step_eq_some.mp h
  exact Function.update_of_ne hj _ _

theorem step_keeps {Ok : σ → ι → θ → Prop} {G : ι → σ → σ → Prop}
    (hothers : ∀ {sh sh' j t}, j ≠ i → Ok sh j t → G i sh sh' → Ok sh' j t)
    (hown : ∀ {sh' t'}, act s.shared i (s.threads i) a = some (sh', t') →
      Ok sh' i t' ∧ G i s.shared sh')
    (hs : ∀ j, Ok s.shared j (s.threads j)) (h : step act s i a = some s') (j : ι) :
    Ok s'.shared j (s'.threads j) := by
  obtain ⟨sh, t, hact, rfl⟩ := step_eq_some.mp h
  obtain ⟨hok, hmoves⟩ := hown hact
  rcases Decidable.em (j = i) with rfl | hj
  · rw [show (State.mk sh (Function.update s.threads j t)).threads j = t from
      Function.update_self _ _ _]
    exact hok
  · rw [show (State.mk sh (Function.update s.threads i t)).threads j = s.threads j from
      Function.update_of_ne hj _ _]
    exact hothers hj (hs j) hmoves

end Interleave

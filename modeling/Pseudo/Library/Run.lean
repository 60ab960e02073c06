import Mathlib.Data.List.Infix

/-!
# Runs of a deterministic step function

A run feeds a list of inputs to a step function. A guard is a condition on each input and the
state it meets; an invariant that every guarded step preserves holds after every prefix of a
guarded run.
-/

namespace Run

variable {σ ι : Type} {step : σ → ι → σ} {ok : σ → ι → Prop} {P : σ → Prop} {s : σ}

/-- The state after a list of inputs. -/
def run (step : σ → ι → σ) (s : σ) (ms : List ι) : σ := ms.foldl step s

/-- Every input of the run meets the guard in the state it is handled in. -/
def Guarded (step : σ → ι → σ) (ok : σ → ι → Prop) : σ → List ι → Prop
  | _, [] => True
  | s, m :: ms => ok s m ∧ Guarded step ok (step s m) ms

instance instDecidableGuarded [∀ s m, Decidable (ok s m)] :
    (s : σ) → (ms : List ι) → Decidable (Guarded step ok s ms)
  | _, [] => inferInstanceAs (Decidable True)
  | s, m :: ms =>
    have := instDecidableGuarded (step s m) ms
    inferInstanceAs (Decidable (ok s m ∧ Guarded step ok (step s m) ms))

@[simp] theorem run_nil : run step s [] = s := rfl

@[simp] theorem run_cons (m : ι) (ms : List ι) :
    run step s (m :: ms) = run step (step s m) ms := rfl

@[simp] theorem run_append (ms ms' : List ι) :
    run step s (ms ++ ms') = run step (run step s ms) ms' :=
  List.foldl_append

theorem Guarded.of_append {ms ms' : List ι} (h : Guarded step ok s (ms ++ ms')) :
    Guarded step ok s ms := by
  induction ms generalizing s with
  | nil => trivial
  | cons m ms ih => exact ⟨h.1, ih h.2⟩

theorem guarded_append {ms ms' : List ι} : Guarded step ok s (ms ++ ms') ↔
    Guarded step ok s ms ∧ Guarded step ok (run step s ms) ms' := by
  induction ms generalizing s with
  | nil => exact (and_iff_right trivial).symm
  | cons m ms ih => exact (and_congr_right fun _ => ih).trans and_assoc.symm

/-- A condition on the inputs alone joins the guard. -/
theorem Guarded.and_of_forall {ms : List ι} {p : ι → Prop} (h : Guarded step ok s ms)
    (hp : ∀ m ∈ ms, p m) : Guarded step (fun s m => p m ∧ ok s m) s ms := by
  induction ms generalizing s with
  | nil => trivial
  | cons m ms ih =>
    exact ⟨⟨hp m List.mem_cons_self, h.1⟩, ih h.2 fun m' hm => hp m' (List.mem_cons_of_mem _ hm)⟩

/-- The run lemma: guarded steps carry an invariant to the end of the run. -/
theorem Guarded.invariant {ms : List ι} (h : Guarded step ok s ms)
    (hstep : ∀ s m, P s → ok s m → P (step s m)) (hs : P s) : P (run step s ms) := by
  induction ms generalizing s with
  | nil => exact hs
  | cons m ms ih => exact ih h.2 (hstep s m hs h.1)

/-- The invariant holds in every state that the run passes through. -/
theorem Guarded.invariant_of_prefix {ms pre : List ι} (h : Guarded step ok s ms)
    (hstep : ∀ s m, P s → ok s m → P (step s m)) (hs : P s) (hpre : pre <+: ms) :
    P (run step s pre) := by
  obtain ⟨rest, rfl⟩ := hpre
  exact h.of_append.invariant hstep hs

/-- When the guard says exactly which inputs keep a property, as long as an invariant holds with
it, the property holds throughout a run of valid inputs exactly when the run is guarded. -/
theorem guarded_iff_of_valid {V : ι → Prop} {I : σ → Prop} {ms : List ι}
    (hms : ∀ m ∈ ms, V m) (hinv : ∀ s m, V m → I s → P s → I (step s m))
    (hstep : ∀ s m, V m → I s → P s → (P (step s m) ↔ ok s m)) (hI : I s) (hs : P s) :
    Guarded step ok s ms ↔ ∀ pre, pre <+: ms → P (run step s pre) := by
  constructor
  · intro h pre hpre
    have hguarded := h.and_of_forall hms
    have hrun : I (run step s pre) ∧ P (run step s pre) :=
      Guarded.invariant_of_prefix (P := fun s => I s ∧ P s) hguarded
        (fun s m hp hok => ⟨hinv s m hok.1 hp.1 hp.2, (hstep s m hok.1 hp.1 hp.2).mpr hok.2⟩)
        ⟨hI, hs⟩ hpre
    exact hrun.2
  · intro h
    induction ms generalizing s with
    | nil => trivial
    | cons m ms ih =>
      obtain ⟨hm, hms⟩ := List.forall_mem_cons.mp hms
      have hnext : P (step s m) := h [m] (List.cons_prefix_cons.mpr ⟨rfl, List.nil_prefix⟩)
      refine ⟨(hstep s m hm hI hs).mp hnext, ih hms (hinv s m hm hI hs) hnext fun pre hpre => ?_⟩
      exact h (m :: pre) (List.cons_prefix_cons.mpr ⟨rfl, hpre⟩)

/-- The same for all inputs. -/
theorem guarded_iff_of_invariant {I : σ → Prop} {ms : List ι}
    (hinv : ∀ s m, I s → P s → I (step s m))
    (hstep : ∀ s m, I s → P s → (P (step s m) ↔ ok s m)) (hI : I s) (hs : P s) :
    Guarded step ok s ms ↔ ∀ pre, pre <+: ms → P (run step s pre) :=
  guarded_iff_of_valid (V := fun _ => True) (fun _ _ => trivial) (fun s m _ => hinv s m)
    (fun s m _ => hstep s m) hI hs

theorem guarded_iff {ms : List ι} (hstep : ∀ s m, P s → (P (step s m) ↔ ok s m)) (hs : P s) :
    Guarded step ok s ms ↔ ∀ pre, pre <+: ms → P (run step s pre) :=
  guarded_iff_of_invariant (I := fun _ => True) (fun _ _ _ _ => trivial)
    (fun s m _ => hstep s m) trivial hs

/-- The same for the runs whose inputs all meet a condition of their own. -/
theorem guarded_iff_of_forall {p : ι → Prop} {ms : List ι} (hp : ∀ m ∈ ms, p m)
    (hstep : ∀ s m, p m → P s → (P (step s m) ↔ ok s m)) (hs : P s) :
    Guarded step ok s ms ↔ ∀ pre, pre <+: ms → P (run step s pre) :=
  guarded_iff_of_valid (I := fun _ => True) hp (fun _ _ _ _ _ => trivial)
    (fun s m hm _ => hstep s m hm) trivial hs

/-- Two guards that agree wherever an invariant holds guard the same runs. -/
theorem guarded_congr {ok' : σ → ι → Prop} {ms : List ι} (hinv : ∀ s m, P s → P (step s m))
    (h : ∀ s m, P s → (ok s m ↔ ok' s m)) (hs : P s) :
    Guarded step ok s ms ↔ Guarded step ok' s ms := by
  induction ms generalizing s with
  | nil => exact Iff.rfl
  | cons m ms ih => exact and_congr (h s m hs) (ih (hinv s m hs))

/-- A loop over positions whose body rewrites its own position only, as far as a view of the state
tells and as long as an invariant holds: every position from `lo` on is rewritten once, the others
stay. -/
theorem view_run_range' {β : Type} {v : σ → Nat → β} {b : σ → Nat → σ} {g : Nat → β → β}
    {I : σ → Prop} (hinv : ∀ s j, I s → I (b s j))
    (hbody : ∀ s j i, I s → v (b s j) i = if i = j then g i (v s i) else v s i)
    (hs : I s) (lo n i : Nat) : v (run b s (List.range' lo n)) i =
      if lo ≤ i ∧ i < lo + n then g i (v s i) else v s i := by
  induction n generalizing lo s with
  | zero =>
    rw [if_neg (by omega)]
    rfl
  | succ n ih =>
    rw [List.range'_succ, run_cons, ih (hinv s lo hs), hbody s lo i hs]
    by_cases hi : i = lo
    · subst hi
      rw [if_neg (by omega), if_pos rfl, if_pos (by omega)]
    · rw [if_neg hi]
      by_cases hin : lo ≤ i ∧ i < lo + (n + 1)
      · rw [if_pos (by omega), if_pos hin]
      · rw [if_neg (by omega), if_neg hin]

/-- An invariant of the step function, whatever the inputs are. -/
theorem run_invariant {ms : List ι} (hstep : ∀ s m, P s → P (step s m)) (hs : P s) :
    P (run step s ms) := by
  induction ms generalizing s with
  | nil => exact hs
  | cons m ms ih => exact ih (hstep s m hs)

end Run

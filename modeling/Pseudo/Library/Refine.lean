import Pseudo.Library.Run

/-!
# Refinement of a partial step function

The concrete machine may get stuck, the abstract one never does. Both read the same inputs. A guard
is a condition on each input and the abstract state it meets.

* `run_invariant`: what every step keeps holds at the end of every run.
* `meets_invariant`: the same where each step depends on the state it meets.
* `along_invariant`: the same of a record kept beside the run.
* `run_reaches`: where some step always leads closer to the end, a run gets there.
* `Leads`: some run with inputs of a kind leads from the one state to the other.
* `refines`: a relation that every guarded step keeps leads a run of the one machine along
  the run of the other, and the concrete machine does not get stuck.
* `refines_prefix`: so it does for every prefix of the run.
-/

namespace Refine

variable {σ α ι : Type} {step : σ → ι → Option σ} {spec : α → ι → α} {ok : α → ι → Prop}
  {R : σ → α → Prop} {s : σ} {a : α} {ms : List ι}

/-- The run of a machine that may get stuck. -/
def run (step : σ → ι → Option σ) : σ → List ι → Option σ
  | s, [] => some s
  | s, m :: ms => (step s m).bind fun s' => run step s' ms

@[simp] theorem run_nil : run step s [] = some s := rfl

@[simp] theorem run_cons (m : ι) (ms : List ι) :
    run step s (m :: ms) = (step s m).bind fun s' => run step s' ms := rfl

theorem run_append (ms ms' : List ι) :
    run step s (ms ++ ms') = (run step s ms).bind fun s' => run step s' ms' := by
  induction ms generalizing s with
  | nil => rfl
  | cons m ms ih =>
    rw [List.cons_append, run_cons, run_cons, Option.bind_assoc]
    exact congrArg _ (funext fun _ => ih)

/-- What every step keeps, for inputs of a kind. -/
theorem run_invariant {P : σ → Prop} {p : ι → Prop} {s' : σ} (hms : ∀ m ∈ ms, p m)
    (hstep : ∀ s m s', p m → P s → step s m = some s' → P s') (hs : P s)
    (h : run step s ms = some s') : P s' := by
  induction ms generalizing s with
  | nil => exact Option.some.inj h ▸ hs
  | cons m ms ih =>
    rw [run_cons, Option.bind_eq_some_iff] at h
    obtain ⟨s₁, hs₁, h⟩ := h
    obtain ⟨hm, hms⟩ := List.forall_mem_cons.mp hms
    exact ih hms (hstep s m s₁ hm hs hs₁) h

/-- What is noted of each step that is taken. -/
def along {β : Type} (step : σ → ι → Option σ) (note : σ → ι → β → β) : σ → β → List ι → β
  | _, b, [] => b
  | s, b, m :: ms =>
    match step s m with
    | some s' => along step note s' (note s m b) ms
    | none => b

/-- Every step that is taken is of a kind, in the state that it meets. -/
def Meets (step : σ → ι → Option σ) (ok : σ → ι → Prop) : σ → List ι → Prop
  | _, [] => True
  | s, m :: ms => ok s m ∧ ∀ s', step s m = some s' → Meets step ok s' ms

theorem meets_of_forall {ok : σ → ι → Prop} (h : ∀ s m, ok s m) : Meets step ok s ms := by
  induction ms generalizing s with
  | nil => trivial
  | cons m ms ih => exact ⟨h s m, fun _ _ => ih⟩

theorem meets_and {ok ok' : σ → ι → Prop} (h : Meets step ok s ms) (h' : Meets step ok' s ms) :
    Meets step (fun s m => ok s m ∧ ok' s m) s ms := by
  induction ms generalizing s with
  | nil => trivial
  | cons m ms ih => exact ⟨⟨h.1, h'.1⟩, fun s' hs' => ih (h.2 s' hs') (h'.2 s' hs')⟩

theorem meets_left {ok : σ → ι → Prop} {ms' : List ι} (h : Meets step ok s (ms ++ ms')) :
    Meets step ok s ms := by
  induction ms generalizing s with
  | nil => trivial
  | cons m ms ih => exact ⟨h.1, fun s' hs' => ih (h.2 s' hs')⟩

theorem meets_append {ok : σ → ι → Prop} {ms' : List ι} {s' : σ}
    (h : Meets step ok s (ms ++ ms')) (hrun : run step s ms = some s') : Meets step ok s' ms' := by
  induction ms generalizing s with
  | nil => exact Option.some.inj hrun ▸ h
  | cons m ms ih =>
    rw [run_cons, Option.bind_eq_some_iff] at hrun
    obtain ⟨s₁, hs₁, hrun⟩ := hrun
    exact ih (h.2 s₁ hs₁) hrun

theorem along_meets {β : Type} {f : σ → ι → β → β} {P : σ → β → Prop} {ok : σ → ι → Prop}
    {s' : σ} {b : β} (hms : Meets step ok s ms)
    (hstep : ∀ s b m s', ok s m → P s b → step s m = some s' → P s' (f s m b)) (hs : P s b)
    (h : run step s ms = some s') : P s' (along step f s b ms) := by
  induction ms generalizing s b with
  | nil => exact Option.some.inj h ▸ hs
  | cons m ms ih =>
    rw [run_cons, Option.bind_eq_some_iff] at h
    obtain ⟨s₁, hs₁, h⟩ := h
    unfold along
    rw [hs₁]
    exact ih (hms.2 s₁ hs₁) (hstep s b m s₁ hms.1 hs hs₁) h

theorem meets_invariant {P : σ → Prop} {ok : σ → ι → Prop} {s' : σ} (hms : Meets step ok s ms)
    (hstep : ∀ s m s', ok s m → P s → step s m = some s' → P s') (hs : P s)
    (h : run step s ms = some s') : P s' :=
  along_meets (f := fun _ _ b => b) (P := fun s (_ : Unit) => P s) (b := ()) hms (fun s _ m s' => hstep s m s') hs h

theorem along_invariant {β : Type} {note : σ → ι → β → β} {P : σ → β → Prop} {s' : σ} {b : β}
    (hstep : ∀ s b m s', P s b → step s m = some s' → P s' (note s m b)) (hs : P s b)
    (h : run step s ms = some s') : P s' (along step note s b ms) :=
  along_meets (meets_of_forall fun _ _ => trivial) (fun s b m s' (_ : True) => hstep s b m s') hs h

/-- Steps of a kind that leave less to do are taken until nothing is left. -/
theorem run_reaches (step : σ → ι → Option σ) (P done : σ → Prop) (p : ι → Prop) (rank : σ → ℕ)
    (hstep : ∀ s, P s → ¬ done s → ∃ m s', p m ∧ step s m = some s' ∧ P s' ∧ rank s' < rank s)
    (hs : P s) : ∃ ms s', (∀ m ∈ ms, p m) ∧ ms.length ≤ rank s ∧ run step s ms = some s' ∧
      P s' ∧ done s' := by
  induction hn : rank s using Nat.strong_induction_on generalizing s with
  | _ n ih =>
    subst hn
    rcases Classical.em (done s) with hdone | hdone
    · exact ⟨[], s, fun _ hm => (by cases hm), Nat.zero_le _, rfl, hs, hdone⟩
    · obtain ⟨m, s₁, hm, hs₁, hP, hlt⟩ := hstep s hs hdone
      obtain ⟨ms, s', hms, hlen, hrun, hP', hdone'⟩ := ih _ hlt hP rfl
      refine ⟨m :: ms, s', List.forall_mem_cons.mpr ⟨hm, hms⟩, ?_, ?_, hP', hdone'⟩
      · exact Nat.succ_le_of_lt (Nat.lt_of_le_of_lt hlen hlt)
      · rw [run_cons, hs₁, Option.bind_some, hrun]

/-- Inputs of a kind lead from the one state to the other. -/
def Leads (step : σ → ι → Option σ) (p : ι → Prop) (s s' : σ) : Prop :=
  ∃ ms, (∀ m ∈ ms, p m) ∧ run step s ms = some s'

section Leads
variable {p : ι → Prop} {s₁ s₂ s₃ : σ}

theorem leads_refl : Leads step p s s := ⟨[], fun _ hm => (by cases hm), rfl⟩

theorem leads_trans (h : Leads step p s₁ s₂) (h' : Leads step p s₂ s₃) : Leads step p s₁ s₃ := by
  obtain ⟨ms, hms, hrun⟩ := h
  obtain ⟨ms', hms', hrun'⟩ := h'
  refine ⟨ms ++ ms', List.forall_mem_append.mpr ⟨hms, hms'⟩, ?_⟩
  rw [run_append, hrun, Option.bind_some, hrun']

theorem leads_step {m : ι} (hm : p m) (h : step s₁ m = some s₂) : Leads step p s₁ s₂ := by
  refine ⟨[m], List.forall_mem_singleton.mpr hm, ?_⟩
  rw [run_cons, h, Option.bind_some, run_nil]

theorem leads_invariant {P : σ → Prop} (hstep : ∀ s m s', P s → step s m = some s' → P s')
    (hs : P s₁) (h : Leads step p s₁ s₂) : P s₂ := by
  obtain ⟨ms, hms, hrun⟩ := h
  exact run_invariant hms (fun s m s' _ => hstep s m s') hs hrun

end Leads

/-- Related states stay related along a guarded run. -/
theorem refines (hstep : ∀ s a m, R s a → ok a m → ∃ s', step s m = some s' ∧ R s' (spec a m))
    (hR : R s a) (h : Run.Guarded spec ok a ms) :
    ∃ s', run step s ms = some s' ∧ R s' (Run.run spec a ms) := by
  induction ms generalizing s a with
  | nil => exact ⟨s, rfl, hR⟩
  | cons m ms ih =>
    obtain ⟨s₁, hs₁, hR₁⟩ := hstep s a m hR h.1
    obtain ⟨s', hs', hR'⟩ := ih hR₁ h.2
    refine ⟨s', ?_, hR'⟩
    rw [run_cons, hs₁, Option.bind_some, hs']

/-- The states in between are related as well. -/
theorem refines_prefix
    (hstep : ∀ s a m, R s a → ok a m → ∃ s', step s m = some s' ∧ R s' (spec a m))
    (hR : R s a) (h : Run.Guarded spec ok a ms) {pre : List ι} (hpre : pre <+: ms) :
    ∃ s', run step s pre = some s' ∧ R s' (Run.run spec a pre) := by
  obtain ⟨rest, rfl⟩ := hpre
  exact refines hstep hR h.of_append

end Refine

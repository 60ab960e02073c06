import Pseudo.Library.Table

/-!
# Deletions and the clean-ups that follow them

The rows of one table own rows of another. A script deletes owners, amends them, and cleans up: a
clean-up deletes the rows of its scope that have no owner left.

* `runAll_eq`: a script deletes the dependents that it clears.
* `orphan_owners`: which rows lose their last owner.
* `orphan_of_clears`: only a row without an owner is cleared.
* `clears_of_covered`: a row with an owner is cleared exactly when it loses the last one, if every
  deletion that concerns it is followed by a clean-up in whose scope it is.
* `clears_of_avoids`: a script that takes no owner from a row clears it exactly when it cleans up
  in the row's scope and the row had no owner to begin with.
-/

namespace Cleanup

open Table

variable {α β : Type}

/-- One statement on the two tables. -/
inductive Stmt (owns : α → β → Bool)
  | drop (p : α → Bool)
  | amend (f : α → α) (keeps : ∀ r x, owns (f r) x = owns r x)
  | clear (scope : β → Bool)

section Scripts
variable {owns : α → β → Bool}

/-- No row of the table owns `x`. -/
def orphan (owns : α → β → Bool) (t : List α) (x : β) : Bool := count (fun r => owns r x) t == 0

def Stmt.run : Stmt owns → List α × List β → List α × List β
  | .drop p, d => (delete p d.1, d.2)
  | .amend f _, d => (d.1.map f, d.2)
  | .clear scope, d => (d.1, delete (fun x => scope x && orphan owns d.1 x) d.2)

def runAll (script : List (Stmt owns)) (d : List α × List β) : List α × List β :=
  script.foldl (fun d s => s.run d) d

/-- The owners that a script leaves. -/
def owners : List (Stmt owns) → List α → List α
  | [], t => t
  | .drop p :: rest, t => owners rest (delete p t)
  | .amend f _ :: rest, t => owners rest (t.map f)
  | .clear _ :: rest, t => owners rest t

/-- The script deletes the owner. -/
def drops : List (Stmt owns) → α → Bool
  | [], _ => false
  | .drop p :: rest, r => p r || drops rest r
  | .amend f _ :: rest, r => drops rest (f r)
  | .clear _ :: rest, r => drops rest r

/-- The script deletes the dependent, when it starts from the owners `t`. -/
def clears : List (Stmt owns) → List α → β → Bool
  | [], _, _ => false
  | .drop p :: rest, t, x => clears rest (delete p t) x
  | .amend f _ :: rest, t, x => clears rest (t.map f) x
  | .clear scope :: rest, t, x => (scope x && orphan owns t x) || clears rest t x

/-- Some clean-up of the script has `x` in its scope. -/
def reaches : List (Stmt owns) → β → Bool
  | [], _ => false
  | .drop _ :: rest, x => reaches rest x
  | .amend _ _ :: rest, x => reaches rest x
  | .clear scope :: rest, x => scope x || reaches rest x

/-- The deletion takes no owner from `x`. -/
def Harmless (owns : α → β → Bool) (x : β) (p : α → Bool) : Prop :=
  ∀ r, p r = true → owns r x = false

/-- Behind every deletion that may take an owner from `x` there is a clean-up for it. -/
def Covered (x : β) : List (Stmt owns) → Prop
  | [] => True
  | .drop p :: rest => (Harmless owns x p ∨ reaches rest x = true) ∧ Covered x rest
  | .amend _ _ :: rest => Covered x rest
  | .clear _ :: rest => Covered x rest

/-- No deletion concerns a row with the property, and no change takes the property from a row. -/
def Avoids (Q : α → Prop) : List (Stmt owns) → Prop
  | [] => True
  | .drop p :: rest => (∀ r, Q r → p r = false) ∧ Avoids Q rest
  | .amend f _ :: rest => (∀ r, Q r → Q (f r)) ∧ Avoids Q rest
  | .clear _ :: rest => Avoids Q rest

variable {s s' : List (Stmt owns)} {t : List α} {x : β} {p : α → Bool} {Q : α → Prop}

@[simp] theorem orphan_iff : orphan owns t x = true ↔ ∀ r ∈ t, owns r x = false := by
  rw [orphan, beq_iff_eq, count_eq_zero]

theorem orphan_eq_false : orphan owns t x = false ↔ ∃ r ∈ t, owns r x = true := by
  rw [← Bool.not_eq_true, orphan_iff]
  push Not
  simp only [ne_eq, Bool.not_eq_false]

theorem orphan_delete (h : orphan owns t x = true) : orphan owns (delete p t) x = true :=
  orphan_iff.mpr fun r hr => orphan_iff.mp h r (delete_subset hr)

theorem orphan_delete_iff :
    orphan owns (delete p t) x = true ↔ ∀ r ∈ t, owns r x = true → p r = true := by
  rw [orphan_iff]
  constructor
  · intro h r hr ho
    refine Bool.of_not_eq_false fun hp => ?_
    rw [h r (mem_delete.mpr ⟨hr, hp⟩)] at ho
    cases ho
  · intro h r hr
    obtain ⟨hmem, hp⟩ := mem_delete.mp hr
    refine Bool.eq_false_iff.mpr fun ho => ?_
    rw [h r hmem ho] at hp
    cases hp

theorem orphan_delete_harmless (hp : Harmless owns x p) :
    orphan owns (delete p t) x = orphan owns t x := by
  rw [Bool.eq_iff_iff, orphan_iff, orphan_iff]
  refine ⟨fun h r hr => ?_, fun h r hr => h r (delete_subset hr)⟩
  cases hdrop : p r with
  | true => exact hp r hdrop
  | false => exact h r (mem_delete.mpr ⟨hr, hdrop⟩)

theorem orphan_map {f : α → α} (keeps : ∀ r x, owns (f r) x = owns r x) :
    orphan owns (t.map f) x = orphan owns t x := by
  rw [Bool.eq_iff_iff, orphan_iff, orphan_iff]
  constructor
  · intro h r hr
    rw [← keeps]
    exact h _ (List.mem_map_of_mem hr)
  · intro h r hr
    obtain ⟨r', hr', rfl⟩ := List.mem_map.mp hr
    rw [keeps]
    exact h r' hr'

theorem orphan_append {r : α} :
    orphan owns (t ++ [r]) x = (orphan owns t x && !owns r x) := by
  rw [Bool.eq_iff_iff, Bool.and_eq_true, orphan_iff, orphan_iff]
  simp only [List.mem_append, List.mem_singleton, or_imp, forall_and, forall_eq,
    Bool.not_eq_true']

/-! ## What a script does -/

/-- Deleting twice. -/
theorem delete_delete {γ : Type} {p q : γ → Bool} {t : List γ} :
    delete p (delete q t) = delete (fun r => q r || p r) t := by
  rw [delete, delete, List.filter_filter]
  refine List.filter_congr fun r _ => ?_
  rw [Bool.not_or, Bool.and_comm]

theorem delete_false {γ : Type} {t : List γ} : delete (fun _ => false) t = t :=
  delete_eq_self fun _ _ => rfl

theorem runAll_append {d : List α × List β} : runAll (s ++ s') d = runAll s' (runAll s d) :=
  List.foldl_append

theorem runAll_eq (s : List (Stmt owns)) (t : List α) (xs : List β) :
    runAll s (t, xs) = (owners s t, delete (clears s t) xs) := by
  induction s generalizing t xs with
  | nil =>
    show (t, xs) = (t, delete (fun _ => false) xs)
    rw [delete_false]
  | cons stmt rest ih =>
    cases stmt with
    | drop p => exact ih (delete p t) xs
    | amend f keeps => exact ih (t.map f) xs
    | clear scope =>
      show runAll rest (t, delete _ xs) = _
      rw [ih, delete_delete]
      rfl

/-- A row has lost its last owner exactly when the script deletes all of them. -/
theorem orphan_owners (s : List (Stmt owns)) (t : List α) (x : β) :
    orphan owns (owners s t) x = orphan owns (delete (drops s) t) x := by
  induction s generalizing t with
  | nil =>
    show orphan owns t x = orphan owns (delete (fun _ => false) t) x
    rw [delete_false]
  | cons stmt rest ih =>
    cases stmt with
    | drop p =>
      show orphan owns (owners rest (delete p t)) x = _
      rw [ih, delete_delete]
      rfl
    | amend f keeps =>
      show orphan owns (owners rest (t.map f)) x = _
      have hcomm : delete (drops rest) (t.map f) =
          (delete (fun r => drops rest (f r)) t).map f := List.filter_map
      rw [ih, hcomm, orphan_map keeps]
      rfl
    | clear scope => exact ih t

theorem clears_append : clears (s ++ s') t x = (clears s t x || clears s' (owners s t) x) := by
  induction s generalizing t with
  | nil => rfl
  | cons stmt rest ih =>
    cases stmt with
    | drop p => exact ih
    | amend f keeps => exact ih
    | clear scope =>
      show (_ || clears (rest ++ s') t x) = (_ || _ || _)
      rw [ih, Bool.or_assoc]
      rfl

theorem reaches_append : reaches (s ++ s') x = (reaches s x || reaches s' x) := by
  induction s with
  | nil => rfl
  | cons stmt rest ih =>
    cases stmt with
    | drop p => exact ih
    | amend f keeps => exact ih
    | clear scope =>
      show (_ || reaches (rest ++ s') x) = (_ || _ || _)
      rw [ih, Bool.or_assoc]

theorem owners_append : owners (s ++ s') t = owners s' (owners s t) := by
  have h : (runAll (s ++ s') (t, [])).1 = (runAll s' (runAll s (t, []))).1 :=
    congrArg Prod.fst runAll_append
  rwa [runAll_eq, runAll_eq, runAll_eq] at h

theorem orphan_of_orphan (h : orphan owns t x = true) : orphan owns (owners s t) x = true := by
  rw [orphan_owners]
  exact orphan_delete h

/-- Only a row without an owner is cleared. -/
theorem orphan_of_clears (h : clears s t x = true) : orphan owns (owners s t) x = true := by
  induction s generalizing t with
  | nil => cases h
  | cons stmt rest ih =>
    cases stmt with
    | drop p => exact ih h
    | amend f keeps => exact ih h
    | clear scope =>
      rcases Bool.or_eq_true_iff.mp h with hnow | hlater
      · exact orphan_of_orphan (Bool.and_eq_true_iff.mp hnow).2
      · exact ih hlater

/-! ## When a row is cleared -/

theorem clears_of_not_reaches (h : reaches s x = false) : clears s t x = false := by
  induction s generalizing t with
  | nil => rfl
  | cons stmt rest ih =>
    cases stmt with
    | drop p => exact ih h
    | amend f keeps => exact ih h
    | clear scope =>
      obtain ⟨hscope, hrest⟩ := Bool.or_eq_false_iff.mp h
      show (scope x && _ || clears rest t x) = false
      rw [hscope, ih hrest]
      rfl

theorem clears_of_reaches (h : reaches s x = true) (ho : orphan owns t x = true) :
    clears s t x = true := by
  induction s generalizing t with
  | nil => cases h
  | cons stmt rest ih =>
    cases stmt with
    | drop p => exact ih h (orphan_delete ho)
    | amend f keeps => exact ih h ((orphan_map keeps).trans ho)
    | clear scope =>
      show (scope x && orphan owns t x || clears rest t x) = true
      rcases Bool.or_eq_true_iff.mp h with hscope | hrest
      · rw [hscope, ho]
        rfl
      · rw [ih hrest ho, Bool.or_true]

/-- A row that has an owner is cleared exactly when it loses its last one. -/
theorem clears_of_covered (hc : Covered x s) (ho : orphan owns t x = false) :
    clears s t x = orphan owns (owners s t) x := by
  induction s generalizing t with
  | nil => exact ho.symm
  | cons stmt rest ih =>
    cases stmt with
    | drop p =>
      obtain ⟨hp, hrest⟩ := hc
      cases hnow : orphan owns (delete p t) x with
      | false => exact ih hrest hnow
      | true =>
        have hreach : reaches rest x = true := by
          rcases hp with hharmless | hreach
          · rw [orphan_delete_harmless hharmless, ho] at hnow
            cases hnow
          · exact hreach
        exact (clears_of_reaches hreach hnow).trans (orphan_of_orphan hnow).symm
    | amend f keeps => exact ih hc ((orphan_map keeps).trans ho)
    | clear scope =>
      show (scope x && orphan owns t x || clears rest t x) = _
      rw [ho, Bool.and_false, Bool.false_or]
      exact ih hc ho

/-- A row whose owners a script avoids keeps them. -/
theorem orphan_owners_avoids (hs : Avoids Q s) (hQ : ∀ r ∈ t, owns r x = true → Q r) :
    orphan owns (owners s t) x = orphan owns t x := by
  induction s generalizing t with
  | nil => rfl
  | cons stmt rest ih =>
    cases stmt with
    | drop p =>
      have hkeep : orphan owns (delete p t) x = orphan owns t x := by
        rw [Bool.eq_iff_iff, orphan_delete_iff, orphan_iff]
        refine forall₂_congr fun r hr => ?_
        cases ho : owns r x with
        | false => simp
        | true => simp [hs.1 r (hQ r hr ho)]
      exact (ih hs.2 fun r hr => hQ r (delete_subset hr)).trans hkeep
    | amend f keeps =>
      refine (ih hs.2 fun r hr ho => ?_).trans (orphan_map keeps)
      obtain ⟨r', hr', rfl⟩ := List.mem_map.mp hr
      exact hs.1 r' (hQ r' hr' ((keeps r' x).symm.trans ho))
    | clear scope => exact ih hs hQ

/-- A row whose owners a script avoids is cleared only if it has none. -/
theorem clears_of_avoids (hs : Avoids Q s) (hQ : ∀ r ∈ t, owns r x = true → Q r) :
    clears s t x = (reaches s x && orphan owns t x) := by
  cases hreach : reaches s x with
  | false => exact clears_of_not_reaches hreach
  | true =>
    rw [Bool.true_and]
    cases ho : orphan owns t x with
    | true => exact clears_of_reaches hreach ho
    | false =>
      refine Bool.eq_false_iff.mpr fun h => ?_
      have hgone := orphan_of_clears h
      rw [orphan_owners_avoids hs hQ, ho] at hgone
      cases hgone

theorem Covered.append (h : Covered x s) (h' : Covered x s') : Covered x (s ++ s') := by
  induction s with
  | nil => exact h'
  | cons stmt rest ih =>
    cases stmt with
    | drop p =>
      refine ⟨h.1.imp_right fun hreach => ?_, ih h.2⟩
      show reaches (rest ++ s') x = true
      rw [reaches_append, hreach, Bool.true_or]
    | amend f keeps => exact ih h
    | clear scope => exact ih h

/-- A clean-up at the end covers every deletion before it. -/
theorem Covered.prepend (h : Covered x s') (hreach : reaches s' x = true) (s : List (Stmt owns)) :
    Covered x (s ++ s') := by
  induction s with
  | nil => exact h
  | cons stmt rest ih =>
    cases stmt with
    | drop p =>
      refine ⟨Or.inr ?_, ih⟩
      show reaches (rest ++ s') x = true
      rw [reaches_append, hreach, Bool.or_true]
    | amend f keeps => exact ih
    | clear scope => exact ih

theorem Avoids.append (h : Avoids Q s) (h' : Avoids Q s') : Avoids Q (s ++ s') := by
  induction s with
  | nil => exact h'
  | cons stmt rest ih =>
    cases stmt with
    | drop p => exact ⟨h.1, ih h.2⟩
    | amend f keeps => exact ⟨h.1, ih h.2⟩
    | clear scope => exact ih h

end Scripts

end Cleanup

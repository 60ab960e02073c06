import Mathlib.Data.List.Basic
import Mathlib.Data.List.Forall2

/-!
# Tables

A table is the list of its rows. `INSERT` appends, `DELETE` filters and `UPDATE` rewrites in
place. A `SELECT` that reads one row without an `ORDER BY` may be answered with any matching
row: the engine's choice is a `Scan`, and the results below hold for every one of them.
-/

namespace Table

variable {α : Type}

/-- The order in which an engine visits the matching rows, as far as a caller that reads only
the first of them can tell: it gets one of them, and gets none only when there is none. -/
structure Scan (α : Type) where
  first : List α → Option α
  mem_of_first : ∀ {t : List α} {r : α}, first t = some r → r ∈ t
  isSome_first : ∀ {t : List α}, t ≠ [] → (first t).isSome

/-- The scan in row order. -/
def Scan.inOrder : Scan α where
  first := List.head?
  mem_of_first := List.mem_of_head?
  isSome_first := by
    intro t h
    simpa [List.isSome_head?] using h

/-- `SELECT * FROM t WHERE p`, first row. -/
def select (s : Scan α) (p : α → Bool) (t : List α) : Option α :=
  s.first (t.filter p)

/-- `DELETE FROM t WHERE p`. -/
def delete (p : α → Bool) (t : List α) : List α :=
  t.filter fun r => !p r

/-- `UPDATE t SET f WHERE p`. -/
def update (p : α → Bool) (f : α → α) (t : List α) : List α :=
  t.map fun r => if p r then f r else r

/-- `SELECT COUNT(*) FROM t WHERE p`. -/
def count (p : α → Bool) (t : List α) : Nat :=
  (t.filter p).length

section Select
variable {s : Scan α} {p : α → Bool} {t : List α} {r : α}

theorem mem_of_select (h : select s p t = some r) : r ∈ t :=
  (List.mem_filter.mp (s.mem_of_first h)).1

theorem prop_of_select (h : select s p t = some r) : p r = true :=
  (List.mem_filter.mp (s.mem_of_first h)).2

theorem select_eq_none_iff : select s p t = none ↔ ∀ r ∈ t, p r = false := by
  constructor
  · intro h r hr
    by_contra hp
    have hne : t.filter p ≠ [] := by
      intro he
      have : r ∈ t.filter p := List.mem_filter.mpr ⟨hr, by simpa using hp⟩
      rw [he] at this
      exact absurd this List.not_mem_nil
    have hs := s.isSome_first hne
    unfold select at h
    rw [h] at hs
    exact absurd hs (by simp)
  · intro h
    cases hs : select s p t with
    | none => rfl
    | some r =>
      have := h r (mem_of_select hs)
      rw [prop_of_select hs] at this
      exact absurd this (by simp)

end Select

section Change
variable {p : α → Bool} {f : α → α} {t : List α} {r : α}

@[simp] theorem mem_delete : r ∈ delete p t ↔ r ∈ t ∧ p r = false := by
  simp [delete]

theorem mem_update : r ∈ update p f t ↔ ∃ r' ∈ t, (if p r' then f r' else r') = r := by
  simp [update]

/-- Rows outside the `WHERE` clause stay. -/
theorem mem_update_of_not (h : r ∈ t) (hp : p r = false) : r ∈ update p f t :=
  mem_update.mpr ⟨r, h, by simp [hp]⟩

theorem delete_subset : delete p t ⊆ t := fun _ h => (mem_delete.mp h).1

/-- Deleting what is not there changes nothing. -/
theorem delete_eq_self (h : ∀ r ∈ t, p r = false) : delete p t = t := by
  unfold delete
  rw [List.filter_eq_self]
  intro r hr
  simp [h r hr]

/-- An update that leaves every matching row as it is changes nothing. -/
theorem update_eq_self (h : ∀ r ∈ t, p r = true → f r = r) : update p f t = t := by
  unfold update
  conv_rhs => rw [← List.map_id t]
  refine List.map_congr_left fun r hr => ?_
  by_cases hp : p r = true
  · simp [hp, h r hr hp]
  · simp [hp]

theorem count_eq_zero : count p t = 0 ↔ ∀ r ∈ t, p r = false := by
  unfold count
  rw [List.length_eq_zero_iff, List.filter_eq_nil_iff]
  simp

theorem getElem?_update (j : Nat) :
    (update p f t)[j]? = t[j]?.map fun r => if p r then f r else r := by
  simp [update]

end Change

section Related
variable {β : Type} {R : α → β → Prop} {p : α → Bool} {q : β → Bool} {t : List α} {t' : List β}

/-- Two tables row by row. -/
theorem forall₂_of_getElem? (hlen : t.length = t'.length)
    (h : ∀ (j : Nat) (r : α) (r' : β), t[j]? = some r → t'[j]? = some r' → R r r') :
    List.Forall₂ R t t' := by
  refine List.forall₂_iff_get.mpr ⟨hlen, fun j hj hj' => ?_⟩
  exact h j _ _ (List.getElem?_eq_getElem hj) (List.getElem?_eq_getElem hj')

theorem exists_right (h : List.Forall₂ R t t') {r : α} (hr : r ∈ t) : ∃ r' ∈ t', R r r' := by
  induction h with
  | nil => exact absurd hr List.not_mem_nil
  | cons hab _ ih =>
    rcases List.mem_cons.mp hr with rfl | hr
    · exact ⟨_, List.mem_cons_self, hab⟩
    · obtain ⟨r', hr', hR⟩ := ih hr
      exact ⟨r', List.mem_cons_of_mem _ hr', hR⟩

theorem exists_left (h : List.Forall₂ R t t') {r' : β} (hr : r' ∈ t') : ∃ r ∈ t, R r r' := by
  obtain ⟨r, hr, hR⟩ := exists_right h.flip hr
  exact ⟨r, hr, hR⟩

/-- When the rows kept on the right come from rows kept on the left, and no fewer are kept,
every row kept on the left is kept on the right. -/
theorem forall₂_filter_length (h : List.Forall₂ R t t')
    (hqp : ∀ r r', R r r' → q r' = true → p r = true) :
    (t'.filter q).length ≤ (t.filter p).length ∧
      ((t'.filter q).length = (t.filter p).length →
        List.Forall₂ (fun r r' => R r r' ∧ (p r = true → q r' = true)) t t') := by
  induction h with
  | nil => exact ⟨Nat.le_refl _, fun _ => List.Forall₂.nil⟩
  | @cons a b l l' hab _ ih =>
    obtain ⟨hle, heq⟩ := ih
    have hlen : (List.filter p (a :: l)).length =
        (if p a then 1 else 0) + (List.filter p l).length := by
      rw [List.filter_cons]
      cases p a <;> simp [Nat.add_comm]
    have hlen' : (List.filter q (b :: l')).length =
        (if q b then 1 else 0) + (List.filter q l').length := by
      rw [List.filter_cons]
      cases q b <;> simp [Nat.add_comm]
    rw [hlen, hlen']
    cases hq : q b with
    | true =>
      rw [hqp a b hab hq]
      refine ⟨by simp; omega, fun hn => ?_⟩
      exact List.Forall₂.cons ⟨hab, fun _ => hq⟩ (heq (by simp at hn; omega))
    | false =>
      cases hp : p a with
      | true =>
        refine ⟨by simp; omega, fun hn => ?_⟩
        simp at hn
        omega
      | false =>
        refine ⟨by simp; omega, fun hn => ?_⟩
        refine List.Forall₂.cons ⟨hab, fun h => ?_⟩ (heq (by simp at hn; omega))
        rw [hp] at h
        exact absurd h (by simp)

end Related

end Table

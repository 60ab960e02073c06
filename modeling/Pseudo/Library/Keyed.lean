import Mathlib.Data.List.Find
import Mathlib.Data.List.Nodup
import Mathlib.Logic.Function.Basic
import Pseudo.Library.Table

/-!
# Tables as maps

A table in which a key occurs at most once holds a map from keys to values, and the statements
that touch the rows of one key change that map at one point. Rows are picked by a `WHERE` clause
`p`, of which only is asked that it selects the rows of the key.

* `select_keyed`: a scan has no choice.
* `contents_append`, `contents_delete`, `contents_update`: what a statement does to the map.
* `nodup_append_iff`, `nodup_delete`, `nodup_update`: it keeps the keys unique.
-/

namespace Table

variable {ρ κ ν : Type} {key : ρ → κ} {val : ρ → ν} {t : List ρ} {p : ρ → Bool} {f : ρ → ρ}
  {k : κ} {r : ρ}

/-- No two rows have the same key. -/
def UniqueKeys (key : ρ → κ) (t : List ρ) : Prop := (t.map key).Nodup

/-- The `WHERE` clause selects the rows of the table that have the key. -/
def Selects (p : ρ → Bool) (key : ρ → κ) (k : κ) (t : List ρ) : Prop :=
  ∀ r ∈ t, p r = true ↔ key r = k

section Unique

theorem UniqueKeys.eq_of_key (h : UniqueKeys key t) {r r' : ρ} (hr : r ∈ t) (hr' : r' ∈ t)
    (he : key r = key r') : r = r' :=
  List.inj_on_of_nodup_map h hr hr' he

/-- A row can be added when its key is free. -/
theorem nodup_append_iff (h : UniqueKeys key t) :
    UniqueKeys key (t ++ [r]) ↔ ∀ r' ∈ t, key r' ≠ key r := by
  unfold UniqueKeys at h ⊢
  rw [List.map_append, List.nodup_append]
  constructor
  · rintro ⟨_, _, hdisj⟩ r' hr'
    exact hdisj (key r') (List.mem_map_of_mem hr') (key r) (by simp)
  · intro hr
    refine ⟨h, List.nodup_singleton _, ?_⟩
    intro a ha b hb hab
    obtain ⟨r', hr', rfl⟩ := List.mem_map.mp ha
    obtain rfl : b = key r := by simpa using hb
    exact hr r' hr' hab

theorem nodup_append (h : UniqueKeys key t) (hr : ∀ r' ∈ t, key r' ≠ key r) :
    UniqueKeys key (t ++ [r]) :=
  (nodup_append_iff h).mpr hr

theorem nodup_delete (h : UniqueKeys key t) : UniqueKeys key (delete p t) :=
  List.Nodup.sublist (List.Sublist.map key List.filter_sublist) h

theorem nodup_update (h : UniqueKeys key t) (hf : ∀ r, key (f r) = key r) :
    UniqueKeys key (update p f t) := by
  have hmap : (update p f t).map key = t.map key := by
    rw [update, List.map_map]
    refine List.map_congr_left fun r _ => ?_
    rw [Function.comp_apply]
    split
    · exact hf r
    · rfl
  unfold UniqueKeys
  rwa [hmap]

/-- A scan has no choice among the rows of a unique key. -/
theorem select_keyed (h : UniqueKeys key t) (hp : Selects p key k t) (s : Scan ρ) :
    select s p t = t.find? p := by
  cases hs : select s p t with
  | none => exact (List.find?_eq_none.mpr fun r hr => by simp [select_eq_none_iff.mp hs r hr]).symm
  | some r =>
    cases hf : t.find? p with
    | none =>
      have hno := List.find?_eq_none.mp hf r (mem_of_select hs)
      exact absurd (prop_of_select hs) hno
    | some r' =>
      have hr := mem_of_select hs
      have hr' := List.mem_of_find?_eq_some hf
      have hk := (hp r hr).mp (prop_of_select hs)
      have hk' := (hp r' hr').mp (List.find?_some hf)
      rw [h.eq_of_key hr hr' (hk.trans hk'.symm)]

end Unique

section Contents
variable [DecidableEq κ]

/-- The map that the table holds: the value of the first row with the key. -/
def contents (key : ρ → κ) (val : ρ → ν) (t : List ρ) (k : κ) : Option ν :=
  (t.find? fun r => decide (key r = k)).map val

theorem contents_isSome_iff : (contents key val t k).isSome = true ↔ ∃ r ∈ t, key r = k := by
  simp [contents]

theorem find?_eq_contents (hp : Selects p key k t) :
    (t.find? p).map val = contents key val t k := by
  have : t.find? p = t.find? fun r => decide (key r = k) := by
    refine List.find?_congr fun r hr => ?_
    rw [Bool.eq_iff_iff, decide_eq_true_iff]
    exact hp r hr
  rw [contents, this]

/-- What a scan reads from the row of a unique key. -/
theorem select_contents (h : UniqueKeys key t) (hp : Selects p key k t) (s : Scan ρ) :
    (select s p t).map val = contents key val t k := by
  rw [select_keyed h hp s, find?_eq_contents hp]

theorem contents_append (hr : ∀ r' ∈ t, key r' ≠ key r) :
    contents key val (t ++ [r]) = Function.update (contents key val t) (key r) (some (val r)) := by
  funext k
  unfold contents
  rw [List.find?_append]
  by_cases hk : k = key r
  · subst hk
    rw [Function.update_self, List.find?_eq_none.mpr fun r' hr' => by simp [hr r' hr']]
    simp
  · rw [Function.update_of_ne hk]
    simp [Ne.symm hk]

theorem contents_delete (hp : Selects p key k t) :
    contents key val (delete p t) = Function.update (contents key val t) k none := by
  funext k'
  unfold contents delete
  rw [List.find?_filter]
  by_cases hk : k' = k
  · subst hk
    rw [Function.update_self, Option.map_eq_none_iff, List.find?_eq_none]
    intro r hr
    have := hp r hr
    grind
  · rw [Function.update_of_ne hk]
    congr 1
    refine List.find?_congr fun r hr => ?_
    have := hp r hr
    grind

/-- Of the rows with one key, either all are deleted or none. -/
theorem contents_delete_at {b : Bool} (hp : ∀ r ∈ t, key r = k → p r = b) :
    contents key val (delete p t) k = if b = true then none else contents key val t k := by
  unfold contents delete
  rw [List.find?_filter]
  split
  · rename_i hb
    rw [Option.map_eq_none_iff, List.find?_eq_none]
    intro r hr hfound
    have := hp r hr
    grind
  · rename_i hb
    congr 1
    refine List.find?_congr fun r hr => ?_
    have := hp r hr
    grind

theorem contents_update {v : ν} (hp : Selects p key k t) (hkey : ∀ r, key (f r) = key r)
    (hval : ∀ r, val (f r) = v) (hmem : ∃ r ∈ t, key r = k) :
    contents key val (update p f t) = Function.update (contents key val t) k (some v) := by
  funext k'
  have hmap : ∀ r, key (if p r then f r else r) = key r := by
    intro r
    split
    · exact hkey r
    · rfl
  unfold contents update
  rw [List.find?_map]
  have hcomp : ((fun r => decide (key r = k')) ∘ fun r => if p r then f r else r) =
      fun r => decide (key r = k') := by
    funext r
    simp [hmap]
  rw [hcomp, Option.map_map]
  by_cases hk : k' = k
  · subst hk
    rw [Function.update_self]
    cases hf : t.find? fun r => decide (key r = k') with
    | none =>
      obtain ⟨r, hr, he⟩ := hmem
      exact absurd (List.find?_eq_none.mp hf r hr) (by simp [he])
    | some r =>
      have hpr := (hp r (List.mem_of_find?_eq_some hf)).mpr (by simpa using List.find?_some hf)
      simp [hpr, hval]
  · rw [Function.update_of_ne hk]
    cases hf : t.find? fun r => decide (key r = k') with
    | none => rfl
    | some r =>
      have he : key r = k' := by simpa using List.find?_some hf
      have hpr : p r = false := by
        rw [Bool.eq_false_iff, ne_eq, hp r (List.mem_of_find?_eq_some hf), he]
        exact hk
      simp [hpr]

end Contents

end Table

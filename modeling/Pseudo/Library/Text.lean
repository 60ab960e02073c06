import Mathlib.Data.List.Infix
import Mathlib.Order.Basic

/-!
# Text: prefix ranges and substring replacement

Two facts that store keys of hierarchical names as plain text rely on.

* `between_iff`: with `a` and `b` adjacent characters, the strings strictly between `p ++ [a]`
  and `p ++ [b]` are exactly the proper extensions of `p ++ [a]`.
* `replace_append`, `replace_eq_self_iff`: replacing every occurrence of `y` in `y ++ t`
  rewrites the leading `y` and leaves `t` alone exactly when `y` does not occur in `t`.
-/

namespace Text

variable {α : Type}

section Order
variable [LT α]

/-- `a` and `b` are adjacent characters. -/
def Adjacent (a b : α) : Prop := a < b ∧ ∀ c, a < c → ¬ c < b

/-- The strings strictly between `p ++ [a]` and `p ++ [b]`, compared character by character,
are the proper extensions of `p ++ [a]`. -/
theorem between_iff [Std.Asymm (α := α) (· < ·)] {a b : α} (h : Adjacent a b) (p s : List α) :
    p ++ [a] < s ∧ s < p ++ [b] ↔ ∃ rest, rest ≠ [] ∧ s = p ++ a :: rest := by
  induction p generalizing s with
  | nil =>
    cases s with
    | nil => simp
    | cons c s =>
      simp only [List.nil_append, List.cons_lt_cons_iff, List.not_lt_nil, and_false, or_false]
      constructor
      · rintro ⟨hac | ⟨rfl, hs⟩, hcb⟩
        · exact absurd hcb (h.2 c hac)
        · refine ⟨s, ?_, rfl⟩
          rintro rfl
          exact List.not_lt_nil _ hs
      · rintro ⟨rest, hne, he⟩
        obtain ⟨rfl, rfl⟩ := List.cons.inj he
        refine ⟨.inr ⟨rfl, ?_⟩, h.1⟩
        cases s with
        | nil => exact absurd rfl hne
        | cons _ _ => exact List.nil_lt_cons _ _
  | cons x p ih =>
    cases s with
    | nil => simp
    | cons y s =>
      simp only [List.cons_append, List.cons_lt_cons_iff, List.cons.injEq]
      constructor
      · rintro ⟨hxy | ⟨rfl, hlo⟩, hyx | ⟨he, hhi⟩⟩
        · exact absurd hyx (Std.Asymm.asymm _ _ hxy)
        · subst he
          exact absurd hxy (Std.Asymm.asymm _ _ hxy)
        · exact absurd hyx (Std.Asymm.asymm _ _ hyx)
        · obtain ⟨rest, hne, rfl⟩ := (ih s).mp ⟨hlo, hhi⟩
          exact ⟨rest, hne, rfl, rfl⟩
      · rintro ⟨rest, hne, rfl, rfl⟩
        obtain ⟨hlo, hhi⟩ := (ih _).mpr ⟨rest, hne, rfl⟩
        exact ⟨.inr ⟨rfl, hlo⟩, .inr ⟨rfl, hhi⟩⟩

end Order

section Replace
variable [DecidableEq α]

/-- The scan of `replace`: `skip` characters of a match that was already rewritten are
dropped first. -/
def replaceFrom (y z : List α) : Nat → List α → List α
  | _, [] => []
  | skip + 1, _ :: s => replaceFrom y z skip s
  | 0, c :: s =>
    if y <+: c :: s then z ++ replaceFrom y z (y.length - 1) s else c :: replaceFrom y z 0 s

/-- SQL's `replace(s, y, z)`: every occurrence of `y` in `s`, from left to right and without
overlaps, becomes `z`; an empty `y` occurs nowhere. -/
def replace (y z s : List α) : List α :=
  if y = [] then s else replaceFrom y z 0 s

theorem replaceFrom_skip (y z s t : List α) :
    replaceFrom y z s.length (s ++ t) = replaceFrom y z 0 t := by
  induction s with
  | nil => rfl
  | cons c s ih => simpa [replaceFrom] using ih

theorem replaceFrom_append {y : List α} (hy : y ≠ []) (z t : List α) :
    replaceFrom y z 0 (y ++ t) = z ++ replaceFrom y z 0 t := by
  cases y with
  | nil => exact absurd rfl hy
  | cons c y =>
    have hp : c :: y <+: c :: (y ++ t) := ⟨t, rfl⟩
    rw [List.cons_append, replaceFrom, if_pos hp]
    simpa using replaceFrom_skip (c :: y) z y t

/-- The leading occurrence is rewritten and the scan goes on behind it. -/
theorem replace_append {y : List α} (hy : y ≠ []) (z t : List α) :
    replace y z (y ++ t) = z ++ replace y z t := by
  simp only [replace, if_neg hy, replaceFrom_append hy]

/-- The scan either meets an occurrence at the front or keeps the first character. -/
theorem replaceFrom_cases {y : List α} (hy : y ≠ []) (z : List α) (c : α) (s : List α) :
    (∃ t, c :: s = y ++ t ∧ replaceFrom y z 0 (c :: s) = z ++ replaceFrom y z 0 t) ∨
      (¬ y <+: c :: s ∧ replaceFrom y z 0 (c :: s) = c :: replaceFrom y z 0 s) := by
  by_cases hp : y <+: c :: s
  · obtain ⟨t, ht⟩ := hp
    exact .inl ⟨t, ht.symm, by rw [← ht, replaceFrom_append hy]⟩
  · exact .inr ⟨hp, by rw [replaceFrom, if_neg hp]⟩

/-- Induction along the scan: an occurrence is taken as a whole, any other character alone. -/
theorem replaceFrom_induction {y : List α} (hy : y ≠ []) (z : List α) {motive : List α → Prop}
    (nil : motive [])
    (hit : ∀ t, replaceFrom y z 0 (y ++ t) = z ++ replaceFrom y z 0 t → motive t → motive (y ++ t))
    (keep : ∀ c s, replaceFrom y z 0 (c :: s) = c :: replaceFrom y z 0 s → motive s →
      motive (c :: s)) (s : List α) : motive s := by
  induction hn : s.length using Nat.strongRecOn generalizing s with
  | ind n ih =>
    subst hn
    cases s with
    | nil => exact nil
    | cons c s =>
      have hy' : 0 < y.length := List.length_pos_iff.mpr hy
      rcases replaceFrom_cases hy z c s with ⟨t, ht, he⟩ | ⟨_, he⟩
      · have hl : (c :: s).length = y.length + t.length := by rw [ht, List.length_append]
        rw [ht] at he ⊢
        exact hit t he (ih t.length (by omega) t rfl)
      · exact keep c s he (ih s.length (by simp) s rfl)

/-- Replacing `y` by itself changes nothing. -/
theorem replaceFrom_same {y : List α} (hy : y ≠ []) (s : List α) : replaceFrom y y 0 s = s := by
  induction s using replaceFrom_induction hy y with
  | nil => rfl
  | hit t he ih => rw [he, ih]
  | keep c s he ih => rw [he, ih]

theorem replace_same (y s : List α) : replace y y s = s := by
  unfold replace
  split
  · rfl
  · next hy => exact replaceFrom_same hy s

theorem replaceFrom_length {y : List α} (hy : y ≠ []) (z : List α) :
    ∀ s : List α, (y.length ≤ z.length → s.length ≤ (replaceFrom y z 0 s).length) ∧
      (z.length ≤ y.length → (replaceFrom y z 0 s).length ≤ s.length) := by
  intro s
  induction s using replaceFrom_induction hy z with
  | nil => simp [replaceFrom]
  | hit t he ih =>
    obtain ⟨h1, h2⟩ := ih
    rw [he, List.length_append, List.length_append]
    exact ⟨fun h => Nat.add_le_add h (h1 h), fun h => Nat.add_le_add h (h2 h)⟩
  | keep c s he ih =>
    rw [he]
    simpa using ih

theorem replaceFrom_ne_nil {y z : List α} (hy : y ≠ []) (hz : z ≠ []) (c : α) (s : List α) :
    replaceFrom y z 0 (c :: s) ≠ [] := by
  rcases replaceFrom_cases hy z c s with ⟨t, _, he⟩ | ⟨_, he⟩
  · rw [he]
    exact List.append_ne_nil_of_left_ne_nil hz _
  · rw [he]
    exact List.cons_ne_nil _ _

/-- A character that ends neither the string nor what is put in does not end the result. -/
theorem replaceFrom_getLast {y z : List α} (hy : y ≠ []) (hz : z ≠ []) {a : α}
    (hza : z.getLast? ≠ some a) {s : List α} (hs : s.getLast? ≠ some a) :
    (replaceFrom y z 0 s).getLast? ≠ some a := by
  induction s using replaceFrom_induction hy z with
  | nil => simp [replaceFrom]
  | hit t he ih =>
    have ht : t.getLast? ≠ some a := by
      intro hlast
      rw [List.getLast?_append, hlast] at hs
      exact hs rfl
    have hrest := ih ht
    rw [he, List.getLast?_append]
    cases hlast : (replaceFrom y z 0 t).getLast? with
    | none => simpa using hza
    | some b => simpa [hlast] using hrest
  | keep c s he ih =>
    rw [he]
    cases s with
    | nil => simpa [replaceFrom] using hs
    | cons d s =>
      rw [List.getLast?_cons_cons] at hs
      rw [List.getLast?_cons]
      cases hlast : (replaceFrom y z 0 (d :: s)).getLast? with
      | none => exact absurd (List.getLast?_eq_none_iff.mp hlast) (replaceFrom_ne_nil hy hz d s)
      | some b =>
        have hrest := ih hs
        rw [hlast] at hrest
        simpa using hrest

theorem replace_getLast {y z : List α} (hz : z ≠ []) {a : α} (hza : z.getLast? ≠ some a)
    {s : List α} (hs : s.getLast? ≠ some a) : (replace y z s).getLast? ≠ some a := by
  unfold replace
  split
  · exact hs
  · next hy => exact replaceFrom_getLast hy hz hza hs

/-- Replacing `y` by something else leaves a string alone exactly when `y` does not occur. -/
theorem replaceFrom_eq_self_iff {y z : List α} (hy : y ≠ []) (hyz : y ≠ z) (s : List α) :
    replaceFrom y z 0 s = s ↔ ¬ y <:+: s := by
  induction s with
  | nil => simp [replaceFrom, hy]
  | cons c s ih =>
    rcases replaceFrom_cases hy z c s with ⟨t, ht, he⟩ | ⟨hp, he⟩
    · -- an occurrence at the front: equality would force `z` to be as long as `y`, and then `y`
      have hin : y <:+: c :: s := ⟨[], t, by simp [ht]⟩
      refine ⟨fun h => ?_, fun h => absurd hin h⟩
      rw [he, ht] at h
      obtain ⟨h1, h2⟩ := replaceFrom_length hy z t
      have hlen := congrArg List.length h
      simp only [List.length_append] at hlen
      have hyzl : z.length = y.length := by
        rcases Nat.le_total y.length z.length with hle | hle
        · have := h1 hle; omega
        · have := h2 hle; omega
      exact absurd (List.append_inj_left h hyzl).symm hyz
    · rw [he, List.infix_cons_iff, List.cons.injEq, ih]
      simp [hp]

theorem replace_eq_self_iff {y z : List α} (hy : y ≠ []) (hyz : y ≠ z) (s : List α) :
    replace y z s = s ↔ ¬ y <:+: s := by
  simp only [replace, if_neg hy, replaceFrom_eq_self_iff hy hyz]

end Replace

end Text

import Mathlib.Data.List.Basic

/-!
# Environments

An environment is a list of texts, `KEY=value` each. Who looks a key up sees the first entry for it,
who sets it replaces that one or appends another, who unsets it removes them all.

* `names_entry`: an entry is for its own key only.
* `getenv_put`, `getenv_unsetenv`: what another look-up sees.
* `countP_put`: setting a key makes no second entry for it.
-/

namespace Environ

variable {α : Type} [DecidableEq α] (sep : α)

/-- `KEY=value`. -/
def entry (key value : List α) : List α := key ++ sep :: value

/-- The text is an entry for the key. -/
def names (key text : List α) : Bool := (key ++ [sep]).isPrefixOf text

def getenv (env : List (List α)) (key : List α) : Option (List α) :=
  (env.find? (names sep key)).map (·.drop (key.length + 1))

/-- The first entry for the key is replaced, or there is a new one. -/
def put (key value : List α) : List (List α) → List (List α)
  | [] => [entry sep key value]
  | e :: es => if names sep key e then entry sep key value :: es else e :: put key value es

def setenv (env : List (List α)) (key value : List α) (overwrite : Bool) : List (List α) :=
  if !overwrite && env.any (names sep key) then env else put sep key value env

def unsetenv (env : List (List α)) (key : List α) : List (List α) :=
  env.filter fun e => !names sep key e

variable {sep : α} {env : List (List α)} {key name value e : List α}

theorem names_self : names sep key (entry sep key value) = true :=
  List.isPrefixOf_iff_prefix.mpr ⟨value, List.append_assoc _ _ _⟩

omit [DecidableEq α] in
theorem drop_entry : (entry sep key value).drop (key.length + 1) = value := by
  unfold entry
  rw [← List.drop_drop, List.drop_left]
  rfl

/-- A text is an entry for one key at most. -/
theorem names_unique (hkey : sep ∉ key) (hname : sep ∉ name) (h : names sep key e = true)
    (h' : names sep name e = true) : key = name := by
  obtain ⟨v, rfl⟩ := List.isPrefixOf_iff_prefix.mp h
  obtain ⟨v', heq⟩ := List.isPrefixOf_iff_prefix.mp h'
  have htake := congrArg (List.takeWhile (· ≠ sep)) heq
  have hcut : ∀ {k v : List α}, sep ∉ k → (k ++ [sep] ++ v).takeWhile (· ≠ sep) = k := by
    intro k v hk
    rw [List.append_assoc, List.takeWhile_append_of_pos]
    · simp
    · intro c hc
      exact decide_eq_true fun he => hk (he ▸ hc)
  rw [hcut hkey, hcut hname] at htake
  exact htake.symm

theorem names_entry (hkey : sep ∉ key) (hname : sep ∉ name) :
    names sep name (entry sep key value) = true ↔ name = key := by
  constructor
  · intro h
    exact names_unique hname hkey h names_self
  · rintro rfl
    exact names_self

@[simp] theorem getenv_nil : getenv sep ([] : List (List α)) key = none := rfl

theorem getenv_cons_self (h : names sep key e = true) :
    getenv sep (e :: env) key = some (e.drop (key.length + 1)) := by
  unfold getenv
  rw [List.find?_cons_of_pos h]
  rfl

theorem getenv_cons_other (h : names sep key e = false) :
    getenv sep (e :: env) key = getenv sep env key := by
  unfold getenv
  rw [List.find?_cons_of_neg (Bool.eq_false_iff.mp h)]

theorem getenv_eq_none : getenv sep env key = none ↔ env.any (names sep key) = false := by
  unfold getenv
  rw [Option.map_eq_none_iff, List.find?_eq_none, List.any_eq_false]

theorem getenv_isSome : (getenv sep env key).isSome = env.any (names sep key) := by
  cases h : env.any (names sep key) with
  | false => rw [getenv_eq_none.mpr h]; rfl
  | true =>
    rw [Option.isSome_iff_ne_none]
    intro hnone
    rw [getenv_eq_none.mp hnone] at h
    cases h

/-- The first of the entries for the key. -/
theorem getenv_eq_head? : getenv sep env key =
    (env.filter (names sep key)).head?.map (·.drop (key.length + 1)) := by
  unfold getenv
  rw [List.head?_filter]

theorem getenv_put (hkey : sep ∉ key) (hname : sep ∉ name) :
    getenv sep (put sep key value env) name =
      if name = key then some value else getenv sep env name := by
  have hentry : ∀ {es : List (List α)}, name ≠ key →
      getenv sep (entry sep key value :: es) name = getenv sep es name := fun hne =>
    getenv_cons_other (Bool.eq_false_iff.mpr fun h => hne ((names_entry hkey hname).mp h))
  have hself : ∀ {es : List (List α)},
      getenv sep (entry sep key value :: es) key = some value := by
    intro es
    rw [getenv_cons_self names_self, drop_entry]
  induction env with
  | nil =>
    unfold put
    split
    · next h => rw [h, hself]
    · next h => rw [hentry h]
  | cons e es ih =>
    unfold put
    split
    · next he =>
      split
      · next h => rw [h, hself]
      · next h =>
        have hother : names sep name e = false :=
          Bool.eq_false_iff.mpr fun h' => h (names_unique hname hkey h' he)
        rw [hentry h, getenv_cons_other hother]
    · next he =>
      cases hn : names sep name e with
      | true =>
        have hne : name ≠ key := by
          rintro rfl
          exact he hn
        rw [getenv_cons_self hn, getenv_cons_self hn, if_neg hne]
      | false => rw [getenv_cons_other hn, getenv_cons_other hn, ih]

theorem getenv_setenv {overwrite : Bool} (hkey : sep ∉ key) (hname : sep ∉ name) :
    getenv sep (setenv sep env key value overwrite) name =
      if name = key ∧ (overwrite = true ∨ getenv sep env key = none) then some value
      else getenv sep env name := by
  unfold setenv
  cases overwrite with
  | true => simpa using getenv_put hkey hname
  | false =>
    rw [← getenv_isSome]
    cases h : getenv sep env key with
    | none => simpa using getenv_put hkey hname
    | some v => simp

theorem getenv_unsetenv (hkey : sep ∉ key) (hname : sep ∉ name) :
    getenv sep (unsetenv sep env key) name =
      if name = key then none else getenv sep env name := by
  split
  · next h =>
    rw [h, getenv_eq_none]
    unfold unsetenv
    rw [List.any_filter, List.any_eq_false]
    intro e _
    simp
  · next h =>
    rw [getenv_eq_head?, getenv_eq_head?]
    unfold unsetenv
    rw [List.filter_filter]
    refine congrArg (fun l => Option.map _ (List.head? l)) (List.filter_congr fun e _ => ?_)
    cases hn : names sep name e with
    | false => rfl
    | true =>
      have hother : names sep key e = false :=
        Bool.eq_false_iff.mpr fun hk => h (names_unique hname hkey hn hk)
      rw [hother]
      rfl

/-! ## One entry for a key -/

theorem countP_put (hkey : sep ∉ key) (hname : sep ∉ name)
    (h : env.countP (names sep name) ≤ 1) :
    (put sep key value env).countP (names sep name) ≤ 1 := by
  rcases Decidable.em (name = key) with rfl | hne
  · induction env with
    | nil => exact List.countP_le_length
    | cons e es ih =>
      unfold put
      split
      · next he =>
        rw [List.countP_cons_of_pos he] at h
        rw [List.countP_cons_of_pos names_self]
        exact h
      · next he =>
        rw [List.countP_cons_of_neg he] at h ⊢
        exact ih h
  · have hentry : ¬ names sep name (entry sep key value) = true := fun h' =>
      hne ((names_entry hkey hname).mp h')
    have hsame : (put sep key value env).countP (names sep name) = env.countP (names sep name) := by
      clear h
      induction env with
      | nil => exact List.countP_cons_of_neg hentry
      | cons e es ih =>
        unfold put
        split
        · next he =>
          have hother : ¬ names sep name e = true := fun h' => hne (names_unique hname hkey h' he)
          rw [List.countP_cons_of_neg hentry, List.countP_cons_of_neg hother]
        · rw [List.countP_cons, List.countP_cons, ih]
    rw [hsame]
    exact h

theorem countP_setenv {overwrite : Bool} (hkey : sep ∉ key) (hname : sep ∉ name)
    (h : env.countP (names sep name) ≤ 1) :
    (setenv sep env key value overwrite).countP (names sep name) ≤ 1 := by
  unfold setenv
  split
  · exact h
  · exact countP_put hkey hname h

theorem countP_unsetenv (h : env.countP (names sep name) ≤ 1) :
    (unsetenv sep env key).countP (names sep name) ≤ 1 :=
  Nat.le_trans (List.Sublist.countP_le List.filter_sublist) h

end Environ

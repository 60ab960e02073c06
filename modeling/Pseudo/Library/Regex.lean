import Mathlib.Data.List.Basic
import Mathlib.Data.List.TakeWhile

/-!
# Regular expressions, searched leftmost and longest

The part of the extended expressions of POSIX that has no group to report: anchors, characters
of a class, any number of them, concatenation and alternation.

* `mem_ends`: the matcher computes the lengths of the matches at a place.
* `regexec_eq_none`, `regexec_eq_some`: the search finds the leftmost match, and the longest one
  there.
-/

namespace Regex

variable {α : Type}

/-- `many p` is `p*` for a class `p`. -/
inductive Expr (α : Type)
  | bol
  | eol
  | one (p : α → Bool)
  | many (p : α → Bool)
  | cat (r s : Expr α)
  | alt (r s : Expr α)

/-- `m` matches where `before` is in front of it and `after` behind. -/
def Match : Expr α → List α → List α → List α → Prop
  | .bol, before, m, _ => before = [] ∧ m = []
  | .eol, _, m, after => after = [] ∧ m = []
  | .one p, _, m, _ => ∃ c, p c = true ∧ m = [c]
  | .many p, _, m, _ => ∀ c ∈ m, p c = true
  | .cat r s, before, m, after =>
    ∃ m₁ m₂, m = m₁ ++ m₂ ∧ Match r before m₁ (m₂ ++ after) ∧ Match s (before ++ m₁) m₂ after
  | .alt r s, before, m, after => Match r before m after ∨ Match s before m after

/-- The characters of a word, one after the other. -/
def literal [DecidableEq α] : List α → Expr α
  | [] => .many fun _ => false
  | c :: word => .cat (.one (· = c)) (literal word)

/-- The lengths of the matches at the start of `rest`. -/
def ends : Expr α → List α → List α → List Nat
  | .bol, before, _ => if before.isEmpty then [0] else []
  | .eol, _, rest => if rest.isEmpty then [0] else []
  | .one p, _, rest => if rest.head?.any p then [1] else []
  | .many p, _, rest => List.range ((rest.takeWhile p).length + 1)
  | .cat r s, before, rest =>
    (ends r before rest).flatMap fun n =>
      (ends s (before ++ rest.take n) (rest.drop n)).map (n + ·)
  | .alt r s, before, rest => ends r before rest ++ ends s before rest

/-- The search from the place behind `before` on: start and end of the match. -/
def searchFrom (r : Expr α) (before : List α) : List α → Option (Nat × Nat)
  | [] => (ends r before []).max?.map fun n => (before.length, before.length + n)
  | c :: rest =>
    match (ends r before (c :: rest)).max? with
    | some n => some (before.length, before.length + n)
    | none => searchFrom r (before ++ [c]) rest

def regexec (r : Expr α) (text : List α) : Option (Nat × Nat) := searchFrom r [] text

/-- There is a match of `text` from `so` to `eo`. -/
def Occurs (r : Expr α) (text : List α) (so eo : Nat) : Prop :=
  ∃ before m after, text = before ++ m ++ after ∧ Match r before m after ∧
    so = before.length ∧ eo = before.length + m.length

theorem match_literal [DecidableEq α] {word before m after : List α} :
    Match (literal word) before m after ↔ m = word := by
  induction word generalizing before m with
  | nil => simp [literal, Match, List.eq_nil_iff_forall_not_mem]
  | cons c word ih =>
    simp only [literal, Match, decide_eq_true_eq, exists_eq_left, ih]
    constructor
    · rintro ⟨m₁, m₂, rfl, rfl, rfl⟩
      rfl
    · rintro rfl
      exact ⟨[c], word, rfl, rfl, rfl⟩

theorem mem_ends {r : Expr α} {before rest : List α} {n : Nat} :
    n ∈ ends r before rest ↔
      ∃ m after, rest = m ++ after ∧ m.length = n ∧ Match r before m after := by
  induction r generalizing before rest n with
  | bol =>
    simp only [ends, Match]
    constructor
    · intro h
      split at h
      · rename_i hb
        obtain rfl := List.mem_singleton.mp h
        exact ⟨[], rest, rfl, rfl, List.isEmpty_iff.mp hb, rfl⟩
      · cases h
    · rintro ⟨m, after, rfl, rfl, rfl, rfl⟩
      simp
  | eol =>
    simp only [ends, Match]
    constructor
    · intro h
      split at h
      · rename_i hr
        obtain rfl := List.mem_singleton.mp h
        exact ⟨[], rest, rfl, rfl, List.isEmpty_iff.mp hr, rfl⟩
      · cases h
    · rintro ⟨m, after, rfl, rfl, rfl, rfl⟩
      simp
  | one p =>
    simp only [ends, Match]
    constructor
    · intro h
      split at h
      · rename_i hp
        obtain rfl := List.mem_singleton.mp h
        cases rest with
        | nil => cases hp
        | cons c rest => exact ⟨[c], rest, rfl, rfl, c, hp, rfl⟩
      · cases h
    · rintro ⟨m, after, rfl, rfl, c, hp, rfl⟩
      simp [hp]
  | many p =>
    simp only [ends, Match, List.mem_range, Nat.lt_succ_iff]
    constructor
    · intro h
      have htake : rest.take n = (rest.takeWhile p).take n := by
        conv_lhs => rw [← List.takeWhile_append_dropWhile (p := p) (l := rest)]
        rw [List.take_append_of_le_length h]
      have hle := h.trans (List.takeWhile_prefix p).length_le
      refine ⟨rest.take n, rest.drop n, (List.take_append_drop n rest).symm, ?_, fun c hc => ?_⟩
      · rw [List.length_take, Nat.min_eq_left hle]
      · rw [htake] at hc
        exact List.mem_takeWhile_imp (List.mem_of_mem_take hc)
    · rintro ⟨m, after, rfl, rfl, hm⟩
      rw [List.takeWhile_append_of_pos hm, List.length_append]
      exact Nat.le_add_right _ _
  | cat r s ihr ihs =>
    simp only [ends, Match, List.mem_flatMap, List.mem_map]
    constructor
    · rintro ⟨n₁, hr, n₂, hs, rfl⟩
      obtain ⟨m₁, rest, rfl, rfl, hm₁⟩ := ihr.mp hr
      rw [List.take_left, List.drop_left] at hs
      obtain ⟨m₂, after, rfl, rfl, hm₂⟩ := ihs.mp hs
      exact ⟨m₁ ++ m₂, after, (List.append_assoc _ _ _).symm, List.length_append, m₁, m₂, rfl,
        hm₁, hm₂⟩
    · rintro ⟨m, after, rfl, rfl, m₁, m₂, rfl, hr, hs⟩
      rw [List.append_assoc]
      refine ⟨m₁.length, ihr.mpr ⟨m₁, m₂ ++ after, rfl, rfl, hr⟩, m₂.length, ihs.mpr ?_,
        List.length_append.symm⟩
      rw [List.take_left, List.drop_left]
      exact ⟨m₂, after, rfl, rfl, hs⟩
  | alt r s ihr ihs =>
    simp only [ends, Match, List.mem_append, ihr, ihs]
    constructor
    · rintro (⟨m, after, hrest, hlen, h⟩ | ⟨m, after, hrest, hlen, h⟩)
      · exact ⟨m, after, hrest, hlen, Or.inl h⟩
      · exact ⟨m, after, hrest, hlen, Or.inr h⟩
    · rintro ⟨m, after, hrest, hlen, h | h⟩
      · exact Or.inl ⟨m, after, hrest, hlen, h⟩
      · exact Or.inr ⟨m, after, hrest, hlen, h⟩

/-- The matches that start behind `before`. -/
theorem occurs_at {r : Expr α} {before rest : List α} {eo : Nat} :
    Occurs r (before ++ rest) before.length eo ↔
      ∃ n ∈ ends r before rest, eo = before.length + n := by
  constructor
  · rintro ⟨before', m, after, htext, hm, hlen, rfl⟩
    rw [List.append_assoc] at htext
    obtain ⟨rfl, rfl⟩ := List.append_inj htext hlen
    exact ⟨m.length, mem_ends.mpr ⟨m, after, rfl, rfl, hm⟩, rfl⟩
  · rintro ⟨n, hn, rfl⟩
    obtain ⟨m, after, rfl, rfl, hm⟩ := mem_ends.mp hn
    exact ⟨before, m, after, (List.append_assoc _ _ _).symm, hm, rfl, rfl⟩

theorem not_occurs_of_max?_eq_none {r : Expr α} {before rest : List α}
    (h : (ends r before rest).max? = none) (eo : Nat) :
    ¬ Occurs r (before ++ rest) before.length eo := by
  intro hocc
  obtain ⟨n, hn, -⟩ := occurs_at.mp hocc
  rw [List.max?_eq_none_iff.mp h] at hn
  cases hn

/-- No match starts further left, from `lo` on, and none there is longer. -/
def First (r : Expr α) (text : List α) (lo so eo : Nat) : Prop :=
  Occurs r text so eo ∧
    ∀ so' eo', lo ≤ so' → Occurs r text so' eo' → so ≤ so' ∧ (so' = so → eo' ≤ eo)

theorem first_of_max?_eq_some {r : Expr α} {before rest : List α} {n : Nat}
    (h : (ends r before rest).max? = some n) :
    First r (before ++ rest) before.length before.length (before.length + n) := by
  obtain ⟨hmem, hle⟩ := List.max?_eq_some_iff.mp h
  refine ⟨occurs_at.mpr ⟨n, hmem, rfl⟩, fun so' eo' hso hocc => ⟨hso, ?_⟩⟩
  rintro rfl
  obtain ⟨n', hn', rfl⟩ := occurs_at.mp hocc
  exact Nat.add_le_add_left (hle n' hn') _

/-- The search finds the leftmost match from its place on, and the longest one there. -/
theorem searchFrom_spec (r : Expr α) (before rest : List α) :
    match searchFrom r before rest with
    | none => ∀ so eo, before.length ≤ so → ¬ Occurs r (before ++ rest) so eo
    | some (so, eo) => First r (before ++ rest) before.length so eo := by
  induction rest generalizing before with
  | nil =>
    unfold searchFrom
    cases hmax : (ends r before []).max? with
    | some n => exact first_of_max?_eq_some hmax
    | none =>
      intro so eo hso hocc
      have hlen : so ≤ before.length := by
        obtain ⟨b, m, after, htext, -, rfl, -⟩ := hocc
        have hl := congrArg List.length htext
        rw [List.append_nil, List.append_assoc, List.length_append] at hl
        exact hl ▸ Nat.le_add_right _ _
      obtain rfl := Nat.le_antisymm hlen hso
      exact not_occurs_of_max?_eq_none hmax eo hocc
  | cons c rest ih =>
    unfold searchFrom
    cases hmax : (ends r before (c :: rest)).max? with
    | some n => exact first_of_max?_eq_some hmax
    | none =>
      -- no match starts here, so the search goes on behind `c`
      have hnext : ∀ {so eo}, before.length ≤ so → Occurs r (before ++ c :: rest) so eo →
          (before ++ [c]).length ≤ so := by
        intro so eo hso hocc
        rw [List.length_append, List.length_singleton]
        refine Nat.lt_of_le_of_ne hso ?_
        rintro rfl
        exact not_occurs_of_max?_eq_none hmax eo hocc
      have hrest := ih (before ++ [c])
      rw [List.append_assoc, List.singleton_append] at hrest
      show match searchFrom r (before ++ [c]) rest with
        | none => ∀ so eo, before.length ≤ so → ¬ Occurs r (before ++ c :: rest) so eo
        | some (so, eo) => First r (before ++ c :: rest) before.length so eo
      cases hfound : searchFrom r (before ++ [c]) rest with
      | none =>
        rw [hfound] at hrest
        exact fun so eo hso hocc => hrest so eo (hnext hso hocc) hocc
      | some found =>
        rw [hfound] at hrest
        exact ⟨hrest.1, fun so' eo' hso hocc => hrest.2 so' eo' (hnext hso hocc) hocc⟩

theorem regexec_eq_none {r : Expr α} {text : List α} (h : ∀ so eo, ¬ Occurs r text so eo) :
    regexec r text = none := by
  have hspec := searchFrom_spec r [] text
  unfold regexec
  cases hfound : searchFrom r [] text with
  | none => rfl
  | some found =>
    rw [hfound] at hspec
    exact absurd hspec.1 (h _ _)

theorem regexec_eq_some {r : Expr α} {text : List α} {so eo : Nat} (hocc : Occurs r text so eo)
    (hfirst : ∀ so' eo', Occurs r text so' eo' → so ≤ so' ∧ (so' = so → eo' ≤ eo)) :
    regexec r text = some (so, eo) := by
  have hspec := searchFrom_spec r [] text
  unfold regexec
  cases hfound : searchFrom r [] text with
  | none =>
    rw [hfound] at hspec
    exact absurd hocc (hspec so eo (Nat.zero_le so))
  | some found =>
    obtain ⟨so', eo'⟩ := found
    rw [hfound] at hspec
    obtain ⟨hocc', hfirst'⟩ := hspec
    obtain rfl := Nat.le_antisymm (hfirst' so eo (Nat.zero_le so) hocc).1 (hfirst so' eo' hocc').1
    obtain rfl := Nat.le_antisymm ((hfirst so' eo' hocc').2 rfl)
      ((hfirst' so' eo (Nat.zero_le _) hocc).2 rfl)
    rfl

end Regex

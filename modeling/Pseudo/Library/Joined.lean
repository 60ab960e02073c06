import Pseudo.Library.Cut

/-!
# Tokens with a separator between them

`[sep].intercalate ts` joins tokens that do not contain the separator. A token stands in the text
behind its `front` and in front of what is `behind` it.

* `intercalate_append_cons`: where a token stands.
* `exists_token`: what ends at a separator, or at the end, is the end of a token.
* `intercalate_injective`: a text comes from one list of tokens.
-/

namespace Joined

variable {α : Type} {sep : α}

/-- No token contains the separator. -/
def Tokens (sep : α) (ts : List (List α)) : Prop := ∀ t ∈ ts, sep ∉ t

instance instDecidableTokens [DecidableEq α] (ts : List (List α)) : Decidable (Tokens sep ts) :=
  inferInstanceAs (Decidable (∀ t ∈ ts, sep ∉ t))

theorem tokens_append {as bs : List (List α)} :
    Tokens sep (as ++ bs) ↔ Tokens sep as ∧ Tokens sep bs := List.forall_mem_append

theorem tokens_cons {t : List α} {ts : List (List α)} :
    Tokens sep (t :: ts) ↔ sep ∉ t ∧ Tokens sep ts := List.forall_mem_cons

/-- The text in front of a token. -/
def front (sep : α) (ts : List (List α)) : List α := ts.flatMap (· ++ [sep])

/-- The text behind a token. -/
def behind (sep : α) (ts : List (List α)) : List α := ts.flatMap (sep :: ·)

theorem intercalate_cons (t : List α) (ts : List (List α)) :
    [sep].intercalate (t :: ts) = t ++ behind sep ts := by
  induction ts generalizing t with
  | nil => simp [behind]
  | cons u ts ih =>
    rw [List.intercalate_cons_of_ne_nil (List.cons_ne_nil u ts), ih]
    simp [behind]

theorem intercalate_append_cons (as : List (List α)) (t : List α) (bs : List (List α)) :
    [sep].intercalate (as ++ t :: bs) = front sep as ++ (t ++ behind sep bs) := by
  induction as with
  | nil => exact intercalate_cons t bs
  | cons a as ih =>
    have hne : as ++ t :: bs ≠ [] := by simp
    rw [List.cons_append, List.intercalate_cons_of_ne_nil hne, ih]
    simp [front]

/-- The text behind a token that has another one behind it. -/
theorem behind_cons (t : List α) (ts : List (List α)) :
    behind sep (t :: ts) = sep :: [sep].intercalate (t :: ts) := by
  rw [intercalate_cons]
  rfl

theorem front_concat (as : List (List α)) (a : List α) :
    front sep (as ++ [a]) = front sep as ++ a ++ [sep] := by
  simp [front]

/-- A text up to the separator behind it. -/
theorem front_eq_intercalate {ts : List (List α)} (h : ts ≠ []) :
    front sep ts = [sep].intercalate ts ++ [sep] := by
  obtain ⟨as, a, rfl⟩ := (List.eq_nil_or_concat' ts).resolve_left h
  rw [front_concat, intercalate_append_cons]
  simp [behind]

theorem ends_behind (ts : List (List α)) : Cut.Ends sep (behind sep ts) := by
  cases ts with
  | nil => exact Or.inl rfl
  | cons t ts => exact Or.inr rfl

variable [DecidableEq α]

/-- What ends where a token ends is the end of that token. -/
theorem exists_token {ts : List (List α)} (hts : Tokens sep ts) (hne : ts ≠ [])
    {x tok y : List α} (htext : [sep].intercalate ts = x ++ (tok ++ y)) (htok : sep ∉ tok)
    (hy : Cut.Ends sep y) :
    ∃ as t bs, ts = as ++ (t ++ tok) :: bs ∧ x = front sep as ++ t ∧ y = behind sep bs := by
  induction ts generalizing x with
  | nil => exact absurd rfl hne
  | cons u ts ih =>
    have hu : sep ∉ u := hts u List.mem_cons_self
    -- a piece of `u` that is followed by the separator ends with `u`
    have hsame : ∀ z, sep ∉ z → z ++ behind sep ts = tok ++ y → z = tok ∧ y = behind sep ts := by
      intro z hz heq
      have hztok := Cut.str_append hz (ends_behind ts)
      rw [heq, Cut.str_append htok hy] at hztok
      subst hztok
      exact ⟨rfl, (List.append_cancel_left heq).symm⟩
    rw [intercalate_cons] at htext
    rcases List.append_eq_append_iff.mp htext with ⟨w, rfl, hw⟩ | ⟨z, rfl, hz⟩
    · cases w with
      | nil =>
        obtain ⟨rfl, hbehind⟩ := hsame [] List.not_mem_nil hw
        exact ⟨[], u, ts, by simp, by simp [front], hbehind⟩
      | cons c w =>
        cases ts with
        | nil => cases hw
        | cons v ts =>
          rw [behind_cons] at hw
          obtain ⟨rfl, hrest⟩ := List.cons.inj hw
          obtain ⟨as, t, bs, hts', rfl, rfl⟩ :=
            ih (fun t ht => hts t (List.mem_cons_of_mem u ht)) (List.cons_ne_nil v ts) hrest
          exact ⟨u :: as, t, bs, by rw [hts']; rfl, by simp [front], rfl⟩
    · have hznot : sep ∉ z := fun hc => hu (List.mem_append_right x hc)
      obtain ⟨rfl, rfl⟩ := hsame z hznot hz.symm
      exact ⟨[], x, ts, rfl, by simp [front], rfl⟩

/-- A text comes from one list of tokens only. -/
theorem intercalate_injective {ts us : List (List α)} (hts : Tokens sep ts) (hus : Tokens sep us)
    (htne : ts ≠ []) (hune : us ≠ []) (h : [sep].intercalate ts = [sep].intercalate us) :
    ts = us := by
  rw [← List.splitOn_intercalate sep hts htne, h, List.splitOn_intercalate sep hus hune]

end Joined

import Mathlib.Data.List.Basic
import Mathlib.Data.List.TakeWhile

/-!
# Cutting a text in place

A buffer holds a text that is terminated by `nul`, or by its end. Overwriting every separator
with `nul` cuts the text into pieces that are read from where they start, without a copy.

* `pieces_induction`: induction on the pieces of a text.
* `str_starts`: the pieces are read at their starts.
* `str_cut`: the cut buffer itself reads as the first piece only.
-/

namespace Cut

variable {α : Type} [DecidableEq α] {sep nul : α}

/-- The text at the start of a buffer. -/
def str (nul : α) (buf : List α) : List α := buf.takeWhile (· ≠ nul)

/-- Every separator overwritten. -/
def cut (sep nul : α) (text : List α) : List α := text.map fun c => if c = sep then nul else c

/-- Where pieces start that stand behind each other, the first at `first`, one byte between. -/
def starts (first : Nat) : List (List α) → List Nat
  | [] => []
  | p :: ps => first :: starts (first + p.length + 1) ps

/-- What follows a text in its buffer. -/
def Ends (nul : α) (rest : List α) : Prop := rest = [] ∨ rest.head? = some nul

variable (sep) in
theorem pieces_induction {motive : List α → Prop} (last : ∀ p, sep ∉ p → motive p)
    (piece : ∀ p text, sep ∉ p → motive text → motive (p ++ sep :: text)) (text : List α) :
    motive text := by
  induction hlen : text.length using Nat.strongRecOn generalizing text with
  | ind n ih =>
    by_cases hsep : sep ∈ text
    · obtain ⟨p, rest, rfl, hp⟩ := List.eq_append_cons_of_mem hsep
      refine piece p rest hp (ih rest.length ?_ rest rfl)
      rw [← hlen, List.length_append, List.length_cons]
      omega
    · exact last text hsep

theorem cut_of_not_mem {p : List α} (h : sep ∉ p) : cut sep nul p = p := by
  refine (List.map_congr_left fun c hc => if_neg ?_).trans (List.map_id' p)
  rintro rfl
  exact h hc

theorem cut_append_cons {p text : List α} (h : sep ∉ p) :
    cut sep nul (p ++ sep :: text) = p ++ nul :: cut sep nul text := by
  have hp := (cut_of_not_mem h : cut sep nul p = p)
  unfold cut at hp ⊢
  rw [List.map_append, List.map_cons, hp, if_pos rfl]

theorem str_append {p rest : List α} (h : nul ∉ p) (hrest : Ends nul rest) :
    str nul (p ++ rest) = p := by
  unfold str
  rw [List.takeWhile_append_of_pos fun c hc => by
    simpa using fun he : c = nul => h (he ▸ hc)]
  rcases hrest with rfl | hhead
  · simp
  · obtain ⟨tail, rfl⟩ := List.head?_eq_some_iff.mp hhead
    simp

/-- The cut buffer reads as the first piece only. -/
theorem str_cut (sep : α) {text rest : List α} (h : nul ∉ text) (hrest : Ends nul rest) :
    str nul (cut sep nul text ++ rest) =
      (text.splitOn sep).head (List.splitOn_ne_nil sep text) := by
  induction text using pieces_induction sep with
  | last p hp =>
    rw [cut_of_not_mem hp, str_append h hrest]
    simp only [List.splitOn_eq_singleton hp, List.head_cons]
  | piece p text hp ih =>
    have hnul : nul ∉ p := fun hc => h (List.mem_append_left _ hc)
    rw [cut_append_cons hp, List.append_assoc, str_append hnul (Or.inr rfl)]
    simp only [List.splitOn_append_cons_self_of_not_mem hp, List.head_cons]

/-- The cut buffer is its first piece, which has no separator, and what is behind its end. -/
theorem cut_eq_head (sep nul : α) (text : List α) : ∃ rest, Ends nul rest ∧
    cut sep nul text = (text.splitOn sep).head (List.splitOn_ne_nil sep text) ++ rest ∧
    sep ∉ (text.splitOn sep).head (List.splitOn_ne_nil sep text) ∧
    (text.splitOn sep).head (List.splitOn_ne_nil sep text) ⊆ text := by
  induction text using pieces_induction sep with
  | last p hp =>
    simp only [List.splitOn_eq_singleton hp, List.head_cons, cut_of_not_mem hp]
    exact ⟨[], Or.inl rfl, (List.append_nil p).symm, hp, List.Subset.refl p⟩
  | piece p text hp _ =>
    simp only [List.splitOn_append_cons_self_of_not_mem hp, List.head_cons, cut_append_cons hp]
    exact ⟨nul :: cut sep nul text, Or.inr rfl, rfl, hp, List.subset_append_left p _⟩

/-- There is one piece only without a separator. -/
theorem splitOn_eq_head_iff (sep : α) (text : List α) :
    text.splitOn sep = [(text.splitOn sep).head (List.splitOn_ne_nil sep text)] ↔ sep ∉ text := by
  induction text using pieces_induction sep with
  | last p hp => simp only [List.splitOn_eq_singleton hp, List.head_cons, hp, not_false_eq_true]
  | piece p text hp _ =>
    simp only [List.splitOn_append_cons_self_of_not_mem hp, List.head_cons, List.cons.injEq,
      true_and, List.splitOn_ne_nil, List.mem_append, List.mem_cons, true_or, or_true, not_true]

/-- The pieces are read at their starts. -/
theorem str_starts (sep : α) {text : List α} (before rest : List α) (h : nul ∉ text)
    (hrest : Ends nul rest) :
    ((starts before.length (text.splitOn sep)).map fun s =>
      str nul ((before ++ (cut sep nul text ++ rest)).drop s)) = text.splitOn sep := by
  induction text using pieces_induction sep generalizing before with
  | last p hp =>
    rw [List.splitOn_eq_singleton hp, cut_of_not_mem hp, starts, starts, List.map_singleton,
      List.drop_left, str_append h hrest]
  | piece p text hp ih =>
    have hnul : nul ∉ p := fun hc => h (List.mem_append_left _ hc)
    have htext : nul ∉ text := fun hc => h (List.mem_append_right _ (List.mem_cons_of_mem _ hc))
    have hbehind := ih (before ++ (p ++ [nul])) htext
    rw [List.splitOn_append_cons_self_of_not_mem hp, starts, List.map_cons, List.drop_left,
      cut_append_cons hp, List.append_assoc, str_append hnul (Or.inr rfl)]
    have hat : before.length + p.length + 1 = (before ++ (p ++ [nul])).length := by
      simp only [List.length_append, List.length_singleton]
      omega
    have hbuf : before ++ (p ++ (nul :: cut sep nul text ++ rest)) =
        before ++ (p ++ [nul]) ++ (cut sep nul text ++ rest) := by simp
    rw [hat, hbuf, hbehind]

end Cut

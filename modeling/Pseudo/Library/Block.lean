import Mathlib.Algebra.Order.Group.Nat
import Mathlib.Data.List.Basic

/-!
# The contents of a block of memory

Memory as the cells from the start of a block on, whatever lies behind its end included. Writes are
an offset and what is written there; code that fills a block is the list of its writes, so that the
contents it leaves and the bounds it keeps to can be read off the same list.

* `read_store_self`, `read_store_before`: what a write changes, and what it leaves.
* `read_add`: pieces that lie next to each other.
* `holds_append`, `holds_store_append`: a text is there when its parts are.
-/

namespace Block

/-- One write. -/
structure Write (α : Type) where
  offset : Nat
  cells : List α
  deriving DecidableEq, Repr

/-- The cell behind the last one that is written. -/
def Write.stop {α : Type} (w : Write α) : Nat := w.offset + w.cells.length

variable {α : Type} {m m' : Nat → α} {w : Write α} {ws ws' : List (Write α)} {s t : List α}
  {offset len n i : Nat}

/-- The cells from an offset on. -/
def read (m : Nat → α) (offset len : Nat) : List α := (List.range' offset len).map m

def store (m : Nat → α) (w : Write α) : Nat → α := fun i =>
  if w.offset ≤ i then (w.cells[i - w.offset]?).getD (m i) else m i

/-- The writes one after the other. -/
def stores (m : Nat → α) (ws : List (Write α)) : Nat → α := ws.foldl store m

/-- No write leaves the first `n` cells. -/
def Within (n : Nat) (ws : List (Write α)) : Prop := ∀ w ∈ ws, w.stop ≤ n

instance (n : Nat) (ws : List (Write α)) : Decidable (Within n ws) :=
  inferInstanceAs (Decidable (∀ w ∈ ws, w.stop ≤ n))

/-- The text lies at the offset. -/
def Holds (m : Nat → α) (offset : Nat) (s : List α) : Prop := read m offset s.length = s

instance [DecidableEq α] (m : Nat → α) (offset : Nat) (s : List α) :
    Decidable (Holds m offset s) := inferInstanceAs (Decidable (_ = _))

@[simp] theorem within_nil : Within n ([] : List (Write α)) := fun _ h => absurd h List.not_mem_nil

@[simp] theorem within_cons : Within n (w :: ws) ↔ w.stop ≤ n ∧ Within n ws :=
  List.forall_mem_cons

@[simp] theorem within_append : Within n (ws ++ ws') ↔ Within n ws ∧ Within n ws' :=
  List.forall_mem_append

@[simp] theorem stores_nil : stores m [] = m := rfl

@[simp] theorem stores_cons : stores m (w :: ws) = stores (store m w) ws := rfl

@[simp] theorem stores_append : stores m (ws ++ ws') = stores (stores m ws) ws' :=
  List.foldl_append

@[simp] theorem length_read (m : Nat → α) (offset len : Nat) : (read m offset len).length = len := by
  rw [read, List.length_map, List.length_range']

@[simp] theorem read_zero (m : Nat → α) (offset : Nat) : read m offset 0 = [] := rfl

theorem read_succ (m : Nat → α) (offset len : Nat) :
    read m offset (len + 1) = m offset :: read m (offset + 1) len := rfl

theorem read_add (m : Nat → α) (offset len n : Nat) :
    read m offset (len + n) = read m offset len ++ read m (offset + len) n := by
  rw [read, read, read, ← List.map_append, List.range'_append_1]

theorem getElem?_read (m : Nat → α) (offset : Nat) (h : i < len) :
    (read m offset len)[i]? = some (m (offset + i)) := by
  rw [read, List.getElem?_map, List.getElem?_range' h, Nat.one_mul]
  rfl

theorem take_read (m : Nat → α) (offset : Nat) (h : n ≤ len) :
    (read m offset len).take n = read m offset n := by
  obtain ⟨k, rfl⟩ := Nat.exists_eq_add_of_le h
  rw [read_add]
  exact List.take_left' (length_read m offset n)

theorem drop_read (m : Nat → α) (offset : Nat) (h : n ≤ len) :
    (read m offset len).drop n = read m (offset + n) (len - n) := by
  obtain ⟨k, rfl⟩ := Nat.exists_eq_add_of_le h
  rw [read_add, Nat.add_sub_cancel_left]
  exact List.drop_left' (length_read m offset n)

/-- Reading up to a cell, as a loop that stops there does. -/
theorem takeWhile_read {p : α → Bool} (hs : ∀ i < n, p (m (offset + i)) = true)
    (hstop : p (m (offset + n)) = false) (hn : n < len) :
    (read m offset len).takeWhile p = read m offset n := by
  obtain ⟨k, rfl⟩ := Nat.exists_eq_add_of_lt hn
  have hpre : ∀ a ∈ read m offset n, p a = true := by
    intro a ha
    obtain ⟨i, hi, rfl⟩ := List.mem_map.mp ha
    obtain ⟨hle, hlt⟩ := List.mem_range'_1.mp hi
    obtain ⟨j, rfl⟩ := Nat.exists_eq_add_of_le hle
    exact hs j (Nat.lt_of_add_lt_add_left hlt)
  rw [Nat.add_assoc, read_add, Nat.add_comm k 1, Nat.add_comm 1 k, read_succ,
    List.takeWhile_append_of_pos hpre, List.takeWhile_cons_of_neg (by rw [hstop]; decide),
    List.append_nil]

theorem read_congr (h : ∀ i, offset ≤ i → i < offset + len → m i = m' i) :
    read m offset len = read m' offset len := by
  refine List.map_congr_left fun i hi => ?_
  obtain ⟨hle, hlt⟩ := List.mem_range'_1.mp hi
  exact h i hle hlt

theorem store_of_lt (h : i < w.offset) : store m w i = m i := if_neg (Nat.not_le.mpr h)

/-- What is written is there. -/
theorem read_store_self (m : Nat → α) (offset : Nat) (s : List α) :
    read (store m ⟨offset, s⟩) offset s.length = s := by
  refine List.ext_getElem? fun i => ?_
  rcases Nat.lt_or_ge i s.length with hlt | hge
  · rw [getElem?_read _ _ hlt, store, if_pos (Nat.le_add_right _ _), Nat.add_sub_cancel_left,
      List.getElem?_eq_getElem hlt]
    rfl
  · rw [List.getElem?_eq_none (by rwa [length_read]), List.getElem?_eq_none hge]

theorem read_store_before (h : offset + len ≤ w.offset) :
    read (store m w) offset len = read m offset len :=
  read_congr fun _ _ hi => store_of_lt (Nat.lt_of_lt_of_le hi h)

/-- Writes that all lie behind some cells leave these alone. -/
theorem read_stores_before (h : ∀ w ∈ ws, offset + len ≤ w.offset) :
    read (stores m ws) offset len = read m offset len := by
  induction ws generalizing m with
  | nil => rfl
  | cons w ws ih =>
    obtain ⟨hw, hws⟩ := List.forall_mem_cons.mp h
    rw [stores_cons, ih hws, read_store_before hw]

theorem holds_append :
    Holds m offset (s ++ t) ↔ Holds m offset s ∧ Holds m (offset + s.length) t := by
  unfold Holds
  rw [List.length_append, read_add]
  constructor
  · intro h
    exact List.append_inj h (length_read m offset s.length)
  · rintro ⟨hs, ht⟩
    rw [hs, ht]

@[simp] theorem holds_singleton {a : α} : Holds m offset [a] ↔ m offset = a :=
  List.singleton_inj

/-- What is read begins with a text that is no longer than it. -/
theorem prefix_read_iff (h : s.length ≤ len) : s <+: read m offset len ↔ Holds m offset s := by
  rw [List.prefix_iff_eq_take, take_read m offset h]
  exact eq_comm

theorem holds_store_self (m : Nat → α) (offset : Nat) (s : List α) :
    Holds (store m ⟨offset, s⟩) offset s := read_store_self m offset s

/-- A write behind what is there. -/
theorem holds_store_append (m : Nat → α) (offset n : Nat) (s : List α) :
    Holds (store m ⟨offset + n, s⟩) offset (read m offset n ++ s) := by
  refine holds_append.mpr ⟨?_, ?_⟩
  · rw [Holds, length_read]
    exact read_store_before (Nat.le_refl _)
  · rw [length_read]
    exact holds_store_self ..

theorem Holds.store_before (h : Holds m offset s) (hw : offset + s.length ≤ w.offset) :
    Holds (store m w) offset s := (read_store_before hw).trans h

theorem Holds.stores_before (h : Holds m offset s)
    (hws : ∀ w ∈ ws, offset + s.length ≤ w.offset) : Holds (stores m ws) offset s :=
  (read_stores_before hws).trans h

end Block

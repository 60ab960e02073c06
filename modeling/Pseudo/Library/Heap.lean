import Mathlib.Algebra.Order.Group.Nat
import Pseudo.Library.Block

/-!
# Memory from an allocator

What code gets that asks for memory as it goes: chunks of a known size, which are read and written
with a check of the bounds. An allocator may fail, and what a new chunk holds is its own affair.
Sizes are computed modulo `2^64`, as `size_t` is, but no chunk has `2^63` bytes or more.

* `alloc_spec`, `realloc_spec`: if there is memory, then as much as was asked for.
* `Filled.store`, `Filled.load`, `Filled.get`, `Filled.print`: a chunk that begins with a text.
-/

namespace Heap

/-- Why an execution stops: an access out of bounds or another undefined step, an allocation that
fails, or a loop that does not end. -/
inductive Failure
  | undefined
  | noMemory
  | endless
  deriving DecidableEq, Repr

/-- Memory from the allocator: `size` elements of `width` bytes. -/
structure Chunk (α : Type) (width : Nat) where
  size : Nat
  cells : Nat → α
  size_lt : width * size < 2 ^ 63

/-- An allocator: for which numbers of bytes it has memory, and what is in it. -/
structure Malloc (α : Type) where
  gives : Nat → Bool
  fresh : Nat → Nat → α
  small : ∀ n, gives n = true → n < 2 ^ 63

@[simp] theorem ok_bind {α β : Type} (a : α) (f : α → Except Failure β) :
    (Except.ok a >>= f) = f a := rfl

@[simp] theorem error_bind {α β : Type} (e : Failure) (f : α → Except Failure β) :
    (Except.error e >>= f) = .error e := rfl

variable {α : Type} {width n i : Nat} {m : Malloc α} {c c' : Chunk α width} {s t : List α} {a : α}

/-! ## Definitions -/

/-- The allocator that has memory for every size that an object can have. -/
def Malloc.ample (a : α) : Malloc α where
  gives n := decide (n < 2 ^ 63)
  fresh _ _ := a
  small _ h := of_decide_eq_true h

/-- `malloc(width * n)` -/
def Malloc.alloc (m : Malloc α) (width n : Nat) : Except Failure (Chunk α width) :=
  let bytes := width * n % 2 ^ 64
  if h : m.gives bytes = true then
    .ok
      { size := bytes / width
        cells := m.fresh bytes
        size_lt := Nat.lt_of_le_of_lt (Nat.mul_div_le bytes width) (m.small bytes h) }
  else .error .noMemory

/-- `realloc(c, width * n)` -/
def Malloc.realloc (m : Malloc α) (c : Chunk α width) (n : Nat) :
    Except Failure (Chunk α width) :=
  match m.alloc width n with
  | .ok c' => .ok { c' with cells := fun i => if i < c.size then c.cells i else c'.cells i }
  | .error e => .error e

/-- An access through a pointer. -/
def deref : Option (Chunk α width) → Except Failure (Chunk α width)
  | some c => .ok c
  | none => .error .undefined

/-- `c[i]` -/
def Chunk.load (c : Chunk α width) (i : Nat) : Except Failure α :=
  if i < c.size then .ok (c.cells i) else .error .undefined

/-- `n` elements from `i` on, as `memcpy` reads them. -/
def Chunk.get (c : Chunk α width) (i n : Nat) : Except Failure (List α) :=
  if i + n ≤ c.size then .ok (Block.read c.cells i n) else .error .undefined

/-- The elements are written from `i` on. -/
def Chunk.store (c : Chunk α width) (i : Nat) (s : List α) : Except Failure (Chunk α width) :=
  if i + s.length ≤ c.size then .ok { c with cells := Block.store c.cells ⟨i, s⟩ }
  else .error .undefined

/-- What `snprintf` returns: the length of the whole text, or -1 if that is no `int`. -/
def printed (s : List α) : Int := if s.length < 2 ^ 31 then s.length else -1

/-- `snprintf` into `n` elements from `i` on: as much of the text as there is room for, and a
terminator. -/
def Chunk.print (nul : α) (c : Chunk α width) (i n : Nat) (s : List α) :
    Except Failure (Chunk α width × Int) := do
  let c ← if n = 0 then .ok c else c.store i (s.take (n - 1) ++ [nul])
  .ok (c, printed s)

/-- The chunk begins with the text. -/
structure Filled (c : Chunk α width) (s : List α) : Prop where
  room : s.length ≤ c.size
  holds : Block.Holds c.cells 0 s

/-! ## Allocation -/

theorem alloc_spec (m : Malloc α) (width n : Nat) (hw : 0 < width) (hn : width * n < 2 ^ 64) :
    m.alloc width n = .error .noMemory ∨ ∃ c, m.alloc width n = .ok c ∧ c.size = n := by
  rw [Malloc.alloc]
  split
  · refine .inr ⟨_, rfl, ?_⟩
    calc width * n % 2 ^ 64 / width = width * n / width := by rw [Nat.mod_eq_of_lt hn]
      _ = n := Nat.mul_div_cancel_left n hw
  · exact .inl rfl

/-- What is in the chunk is still there when it has grown. -/
theorem realloc_spec (hw : 0 < width) (hn : width * n < 2 ^ 64) (h : Filled c s)
    (hlen : s.length ≤ n) :
    m.realloc c n = .error .noMemory ∨
      ∃ c', m.realloc c n = .ok c' ∧ c'.size = n ∧ Filled c' s := by
  rw [Malloc.realloc]
  rcases alloc_spec m width n hw hn with heq | ⟨c', heq, hsize⟩
  · exact .inl (by rw [heq])
  · refine .inr ⟨{ c' with cells := fun i => if i < c.size then c.cells i else c'.cells i },
      by rw [heq], hsize, hsize ▸ hlen, ?_⟩
    refine (Block.read_congr fun i _ hi => ?_).trans h.holds
    exact if_pos (Nat.lt_of_lt_of_le (by rwa [Nat.zero_add] at hi) h.room)

/-! ## Accesses -/

theorem filled_nil (c : Chunk α width) : Filled c [] := ⟨Nat.zero_le _, rfl⟩

theorem Filled.left (h : Filled c (s ++ t)) : Filled c s :=
  ⟨Nat.le_trans (by rw [List.length_append]; exact Nat.le_add_right _ _) h.room,
    (Block.holds_append.mp h.holds).1⟩

/-- A text is written behind what is there. -/
theorem Filled.store (h : Filled c s) (hroom : s.length + t.length ≤ c.size) :
    ∃ c', c.store s.length t = .ok c' ∧ c'.size = c.size ∧ Filled c' (s ++ t) := by
  refine ⟨{ c with cells := Block.store c.cells ⟨s.length, t⟩ }, if_pos hroom, rfl,
    by rwa [List.length_append], ?_⟩
  have happ := Block.holds_store_append c.cells 0 s.length t
  rwa [Nat.zero_add, h.holds] at happ

/-- The element behind a text. -/
theorem Filled.load (h : Filled c (s ++ a :: t)) : c.load s.length = .ok a := by
  have hroom : s.length < c.size := by
    have hlen := h.room
    rw [List.length_append, List.length_cons] at hlen
    omega
  have ha := (Block.holds_append.mp h.holds).2
  rw [Nat.zero_add, Block.Holds, List.length_cons, Block.read_succ] at ha
  rw [Chunk.load, if_pos hroom, (List.cons.inj ha).1]

/-- What is printed behind a text, and is cut off where the room ends. -/
theorem Filled.print (h : Filled c s) (nul : α) (t : List α) (hn : 0 < n)
    (hroom : s.length + n ≤ c.size) :
    ∃ c', c.print nul s.length n t = .ok (c', printed t) ∧ c'.size = c.size ∧
      Filled c' (s ++ (t.take (n - 1) ++ [nul])) := by
  have hlen : (t.take (n - 1) ++ [nul]).length ≤ n := by
    rw [List.length_append, List.length_take, List.length_singleton]
    omega
  obtain ⟨c', hstore, hsize, hfilled⟩ := h.store (t := t.take (n - 1) ++ [nul]) (by omega)
  exact ⟨c', by rw [Chunk.print, if_neg (by omega), hstore, ok_bind], hsize, hfilled⟩

theorem Filled.get (h : Filled c s) : c.get 0 s.length = .ok s := by
  rw [Chunk.get, if_pos (by rw [Nat.zero_add]; exact h.room), h.holds]

end Heap

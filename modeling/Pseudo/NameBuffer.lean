import Pseudo.Database
import Pseudo.Library.Heap

/-!
# The buffer for the names of attributes

`pdb_list_xattr` collects the names that its query returns in one buffer. The first name decides
how large it is at first, and it is replaced by a larger one whenever the next name does not fit.

Results:
1. `roundUp_spec`: the room that `round_up` leaves.
2. `reserve_spec`, `copy_spec`: what holds before and after a name is copied.
3. `listXattrBuffer_spec`: every name has room, and what the function returns.
4. `listXattrBuffer_pdbListXattr`: it returns what the database model lists.
-/

namespace Pseudo

open Heap

/-! ## 1. The code -/

/-- `round_up`, in `size_t`. -/
def roundUp (n block : Nat) : Nat := block * ((n + block / 4) % 2 ^ 64 / block + 1) % 2 ^ 64

/-- A row of the query. `sqlite3_column_bytes` returns an `int`. -/
structure NameRow where
  name : Bytes
  length_lt : name.length < 2 ^ 31

/-- `allocated`, `used` and `buffer`. -/
structure NameBuffer where
  allocated : Nat
  used : Nat
  buffer : Option (Chunk Byte 1)

def NameBuffer.empty : NameBuffer := ⟨0, 0, none⟩

/-- `if (!buffer)` -/
def NameBuffer.first (m : Malloc Byte) (b : NameBuffer) (len : Nat) :
    Except Failure NameBuffer :=
  match b.buffer with
  | some _ => .ok b
  | none => do
    let allocated := roundUp len 256
    let buffer ← m.alloc 1 allocated
    .ok { b with allocated := allocated, buffer := some buffer }

/-- `if (used + len + 2 > allocated)` -/
def NameBuffer.enlarge (m : Malloc Byte) (b : NameBuffer) (len : Nat) :
    Except Failure NameBuffer :=
  if b.allocated < (b.used + len + 2) % 2 ^ 64 then do
    let newAllocated := roundUp ((b.used + len + 2) % 2 ^ 64) 256
    let newBuffer ← m.alloc 1 newAllocated
    let buffer ← deref b.buffer
    let names ← buffer.get 0 b.used
    let newBuffer ← newBuffer.store 0 names
    .ok { b with allocated := newAllocated, buffer := some newBuffer }
  else .ok b

/-- The body of the loop up to the first `memcpy` of the name. -/
def NameBuffer.reserve (m : Malloc Byte) (b : NameBuffer) (len : Nat) :
    Except Failure NameBuffer := do
  let b ← b.first m len
  b.enlarge m len

/-- The name and its NUL. -/
def NameBuffer.copy (b : NameBuffer) (name : Bytes) : Except Failure NameBuffer := do
  let buffer ← deref b.buffer
  let buffer ← buffer.store b.used name
  let buffer ← buffer.store (b.used + name.length) [0]
  .ok { b with used := b.used + name.length + 1, buffer := some buffer }

def NameBuffer.row (m : Malloc Byte) (b : NameBuffer) (row : NameRow) :
    Except Failure NameBuffer := do
  let b ← b.reserve m row.name.length
  b.copy row.name

/-- The loop while there are rows. -/
def rowLoop (m : Malloc Byte) (b : NameBuffer) : List NameRow → Except Failure NameBuffer
  | [] => .ok b
  | row :: rows => do
    let b ← b.row m row
    rowLoop m b rows

/-- `*value`, `*len` and what is returned. -/
structure ListedNames where
  value : Option (Chunk Byte 1)
  len : Nat
  rc : Int

/-- `pdb_list_xattr`; `done`: the rows end with `SQLITE_DONE`. -/
def listXattrBuffer (m : Malloc Byte) (rows : List NameRow) (done : Bool) :
    Except Failure ListedNames := do
  let b ← rowLoop m .empty rows
  if done then .ok { value := b.buffer, len := b.used, rc := 0 }
  else .ok { value := none, len := 0, rc := 1 }

/-! ## 2. One row -/

/-- Each name followed by a NUL. -/
def namesText (rows : List NameRow) : Bytes := rows.flatMap fun row => row.name ++ [0]

/-- `round_up(n, 256)` leaves room behind the first `n` bytes. -/
theorem roundUp_spec {n : Nat} (h : n < 2 ^ 63 + 2 ^ 32) :
    n + 64 < roundUp n 256 ∧ roundUp n 256 ≤ n + 320 := by
  have heq : roundUp n 256 = 256 * ((n + 64) / 256 + 1) := by
    rw [roundUp, Nat.mod_eq_of_lt (show n + 256 / 4 < 2 ^ 64 by omega)]
    exact Nat.mod_eq_of_lt (by omega)
  omega

/-- Between two rows: the buffer holds the text, in which there are no names before the first
allocation. -/
structure NameBuffer.Lists (b : NameBuffer) (text : Bytes) : Prop where
  used : b.used = text.length
  null : b.buffer = none → text = []
  chunk : ∀ c, b.buffer = some c → c.size = b.allocated ∧ Filled c text

/-- Before a name of `len` bytes is copied: the buffer holds the text, and there is room for the
name and its NUL. -/
structure NameBuffer.Ready (b : NameBuffer) (text : Bytes) (len : Nat) : Prop where
  lists : b.Lists text
  isSome : b.buffer.isSome = true
  room : b.used + len + 1 ≤ b.allocated

variable {m : Malloc Byte} {b : NameBuffer} {text : Bytes} {len : Nat}

theorem lists_empty : NameBuffer.empty.Lists [] where
  used := rfl
  null _ := rfl
  chunk _ h := nomatch h

namespace NameBufferLemmas

theorem used_lt {c : Chunk Byte 1} (h : b.Lists text) (hc : b.buffer = some c) :
    b.used < 2 ^ 63 := by
  have hroom := (h.chunk c hc).2.room
  have hsize := c.size_lt
  rw [h.used]
  omega

/-- The first buffer is large enough for the first name. -/
theorem first_spec (h : b.Lists text) (hlen : len < 2 ^ 31) :
    b.first m len = .error .noMemory ∨
      ∃ b', b.first m len = .ok b' ∧ b'.Lists text ∧ b'.buffer.isSome = true := by
  cases hb : b.buffer with
  | some c =>
    exact .inr ⟨b, by rw [NameBuffer.first, hb], h, by rw [hb]; rfl⟩
  | none =>
    obtain rfl := h.null hb
    have hround := roundUp_spec (n := len) (by omega)
    rcases alloc_spec m 1 (roundUp len 256) Nat.one_pos (by omega) with
      hno | ⟨c, halloc, hsize⟩
    · exact .inl (by simp only [NameBuffer.first, hb, hno, error_bind])
    · refine .inr ⟨{ b with allocated := roundUp len 256, buffer := some c },
        by simp only [NameBuffer.first, hb, halloc, ok_bind], ⟨h.used, nofun, ?_⟩, rfl⟩
      intro c' hc
      obtain rfl := Option.some.inj hc
      exact ⟨hsize, filled_nil c⟩

theorem enlarge_spec (h : b.Lists text) (hsome : b.buffer.isSome = true) (hlen : len < 2 ^ 31) :
    b.enlarge m len = .error .noMemory ∨ ∃ b', b.enlarge m len = .ok b' ∧ b'.Ready text len := by
  obtain ⟨c, hc⟩ := Option.isSome_iff_exists.mp hsome
  have hused := used_lt h hc
  have hmod : (b.used + len + 2) % 2 ^ 64 = b.used + len + 2 := Nat.mod_eq_of_lt (by omega)
  have hround := roundUp_spec (n := b.used + len + 2) (by omega)
  rw [NameBuffer.enlarge, hmod]
  split
  · rcases alloc_spec m 1 (roundUp (b.used + len + 2) 256) Nat.one_pos
      (by omega) with hno | ⟨c', halloc, hsize⟩
    · exact .inl (by simp only [hno, error_bind])
    · have hget : c.get 0 b.used = .ok text := by
        rw [h.used]
        exact (h.chunk c hc).2.get
      obtain ⟨new, hstore, hsize', hfilled⟩ :=
        (filled_nil c').store (t := text) (by rw [List.length_nil, hsize, ← h.used]; omega)
      refine .inr ⟨{ b with allocated := roundUp (b.used + len + 2) 256, buffer := some new },
        ?_, ⟨h.used, nofun, ?_⟩, rfl, ?_⟩
      · rw [List.length_nil] at hstore
        simp only [halloc, hc, deref, hget, hstore, ok_bind]
      · intro c'' hc''
        obtain rfl := Option.some.inj hc''
        exact ⟨hsize'.trans hsize, hfilled⟩
      · show b.used + len + 1 ≤ roundUp (b.used + len + 2) 256
        omega
  · next hfit => exact .inr ⟨b, rfl, h, hsome, by omega⟩

end NameBufferLemmas

open NameBufferLemmas

/-- Where the name is copied there is room for it. -/
theorem reserve_spec (h : b.Lists text) (hlen : len < 2 ^ 31) :
    b.reserve m len = .error .noMemory ∨ ∃ b', b.reserve m len = .ok b' ∧ b'.Ready text len := by
  rw [NameBuffer.reserve]
  rcases first_spec (m := m) h hlen with hno | ⟨b', hfirst, hlists, hsome⟩
  · exact .inl (by rw [hno, error_bind])
  · rw [hfirst, ok_bind]
    exact enlarge_spec hlists hsome hlen

/-- Then it is copied, and its NUL. -/
theorem copy_spec {name : Bytes} (h : b.Ready text name.length) :
    ∃ b', b.copy name = .ok b' ∧ b'.Lists (text ++ (name ++ [0])) := by
  obtain ⟨c, hc⟩ := Option.isSome_iff_exists.mp h.isSome
  obtain ⟨hsize, hfilled⟩ := h.lists.chunk c hc
  have hused := h.lists.used
  have hroom := h.room
  obtain ⟨c', hstore, hsize', hfilled'⟩ := hfilled.store (t := name) (by omega)
  have hlen : (text ++ name).length = b.used + name.length := by rw [List.length_append, hused]
  obtain ⟨c'', hstore', hsize'', hfilled''⟩ :=
    hfilled'.store (t := [0]) (by rw [hlen, List.length_singleton]; omega)
  rw [← hused] at hstore
  rw [hlen] at hstore'
  rw [List.append_assoc] at hfilled''
  refine ⟨{ b with used := b.used + name.length + 1, buffer := some c'' }, ?_, ?_, nofun, ?_⟩
  · rw [NameBuffer.copy, hc, deref, ok_bind, hstore, ok_bind, hstore', ok_bind]
  · simp only [hused, List.length_append, List.length_singleton]
    omega
  · intro c₁ hc₁
    obtain rfl := Option.some.inj hc₁
    exact ⟨hsize''.trans (hsize'.trans hsize), hfilled''⟩

theorem row_spec (h : b.Lists text) (row : NameRow) :
    b.row m row = .error .noMemory ∨
      ∃ b', b.row m row = .ok b' ∧ b'.Lists (text ++ (row.name ++ [0])) := by
  rw [NameBuffer.row]
  rcases reserve_spec (m := m) h row.length_lt with hno | ⟨b', hreserve, hready⟩
  · exact .inl (by rw [hno, error_bind])
  · rw [hreserve, ok_bind]
    exact .inr (copy_spec hready)

/-! ## 3. All of the rows -/

theorem rowLoop_spec (h : b.Lists text) (rows : List NameRow) :
    rowLoop m b rows = .error .noMemory ∨
      ∃ b', rowLoop m b rows = .ok b' ∧ b'.Lists (text ++ namesText rows) := by
  induction rows generalizing b text with
  | nil => exact .inr ⟨b, rfl, by rwa [namesText, List.flatMap_nil, List.append_nil]⟩
  | cons row rows ih =>
    rw [rowLoop, namesText, List.flatMap_cons, ← List.append_assoc]
    rcases row_spec (m := m) h row with hno | ⟨b', hrow, hlists⟩
    · exact .inl (by rw [hno, error_bind])
    · rw [hrow, ok_bind]
      exact ih hlists

/-- What the function stores: a list of names, or nothing. -/
def ListedNames.Reads (l : ListedNames) (text : Bytes) : Prop :=
  l.len = text.length ∧ (l.value = none → text = []) ∧ ∀ c, l.value = some c → Filled c text

/-- All of the names in order, each followed by a NUL, or nothing after an error. -/
theorem listXattrBuffer_result (m : Malloc Byte) (rows : List NameRow) (done : Bool) :
    listXattrBuffer m rows done = .error .noMemory ∨
      ∃ l, listXattrBuffer m rows done = .ok l ∧
        (done = true → l.rc = 0 ∧ l.Reads (namesText rows)) ∧
        (done = false → l.rc = 1 ∧ l.value = none ∧ l.len = 0) := by
  rw [listXattrBuffer]
  rcases rowLoop_spec (m := m) lists_empty rows with hno | ⟨b, hb, hlists⟩
  · exact .inl (by rw [hno, error_bind])
  · rw [hb, ok_bind]
    rw [List.nil_append] at hlists
    cases done with
    | false => exact .inr ⟨_, rfl, nofun, fun _ => ⟨rfl, rfl, rfl⟩⟩
    | true =>
      exact .inr ⟨_, rfl,
        fun _ => ⟨rfl, hlists.used, hlists.null, fun c hc => (hlists.chunk c hc).2⟩, nofun⟩

/-- The rows that have been read so far leave room for the next name and its NUL, wherever it is
copied; and the function returns all of the names, unless there is no memory. -/
theorem listXattrBuffer_spec (m : Malloc Byte) (rows : List NameRow) (done : Bool) :
    (∀ before row after b b', rows = before ++ row :: after →
      rowLoop m .empty before = .ok b → b.reserve m row.name.length = .ok b' →
      b'.used = (namesText before).length ∧ b'.used + row.name.length + 1 ≤ b'.allocated ∧
        ∃ c, b'.buffer = some c ∧ c.size = b'.allocated ∧ Filled c (namesText before)) ∧
    (listXattrBuffer m rows done = .error .noMemory ∨
      ∃ l, listXattrBuffer m rows done = .ok l ∧
        (done = true → l.rc = 0 ∧ l.Reads (namesText rows)) ∧
        (done = false → l.rc = 1 ∧ l.value = none ∧ l.len = 0)) := by
  refine ⟨?_, listXattrBuffer_result m rows done⟩
  intro before row after b b' _ hbefore hreserve
  rcases rowLoop_spec (m := m) lists_empty before with hno | ⟨b₁, hb₁, hlists⟩
  · cases hbefore.symm.trans hno
  · obtain rfl := Except.ok.inj (hbefore.symm.trans hb₁)
    rw [List.nil_append] at hlists
    rcases reserve_spec (m := m) hlists row.length_lt with hno | ⟨b₂, hb₂, hready⟩
    · cases hreserve.symm.trans hno
    · obtain rfl := Except.ok.inj (hreserve.symm.trans hb₂)
      obtain ⟨c, hc⟩ := Option.isSome_iff_exists.mp hready.isSome
      exact ⟨hready.lists.used, hready.room, c, hc, hready.lists.chunk c hc⟩

theorem listXattrBuffer_spec_two :
    ∃ l, listXattrBuffer (.ample 7) [⟨[97, 98], by decide⟩, ⟨[99], by decide⟩] true = .ok l ∧
      l.rc = 0 ∧ l.Reads [97, 98, 0, 99, 0] := by
  have hok : (listXattrBuffer (.ample 7) [⟨[97, 98], by decide⟩, ⟨[99], by decide⟩] true).isOk =
    true := by decide
  rcases (listXattrBuffer_spec (.ample 7) [⟨[97, 98], by decide⟩, ⟨[99], by decide⟩] true).2 with
    hno | ⟨l, hl, hdone, _⟩
  · rw [hno] at hok
    cases hok
  · exact ⟨l, hl, hdone rfl⟩

/-- For the rows of its query, the function returns what the database model lists. -/
theorem listXattrBuffer_pdbListXattr (m : Malloc Byte) {db : Db} {msg : MsgHeader}
    {rows : List NameRow}
    (hrows : rows.map (·.name) =
      ((db.xattrs.filter fun x => x.hasKey msg.key).map (·.name)).mergeSort
        fun a b => !decide (b < a)) :
    listXattrBuffer m rows true = .error .noMemory ∨
      ∃ l, listXattrBuffer m rows true = .ok l ∧ l.rc = 0 ∧ l.Reads (pdbListXattr db msg) := by
  have htext : namesText rows = pdbListXattr db msg := by
    rw [pdbListXattr, ← hrows, List.flatMap_map]
    rfl
  rcases listXattrBuffer_result m rows true with hno | ⟨l, hl, hdone, _⟩
  · exact .inl hno
  · obtain ⟨hrc, hreads⟩ := hdone rfl
    exact .inr ⟨l, hl, hrc, htext ▸ hreads⟩

end Pseudo

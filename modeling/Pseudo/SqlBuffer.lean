import Pseudo.Library.Heap
import Pseudo.Message

/-!
# The buffer for the text of a query

`frag` prints a piece of text behind what is already in the buffer. If the piece does not fit, it
doubles the size of the buffer as often as needed and prints the piece again.

Results:
1. `doubleLoop_ends`: the doubling ends, and there is room then.
2. `frag_spec`, `frag_long`: what one call does, and that it drops a piece that is too long.
3. `fragRun_accumulates`: what the buffer holds after any number of calls.
4. `frag_drops_long`: a piece that it does not hold.
-/

namespace Pseudo

open Heap

/-! ## 1. The code -/

/-- `buffer`; `tail` counts from `data`. -/
structure SqlBuffer where
  buflen : Nat
  data : Chunk Byte 1
  tail : Nat

/-- `while (newlen <= (rc + curlen)) newlen *= 2;` It has ended after 64 doublings, or else `newlen`
is 0 and stays it. -/
def doubleLoop (needed : Nat) : Nat → Nat → Except Failure Nat
  | 0, _ => .error .endless
  | fuel + 1, newlen =>
    if newlen ≤ needed then doubleLoop needed fuel (newlen * 2 % 2 ^ 64) else .ok newlen

/-- `(rc > 0) && ((size_t) rc >= room)` -/
def TooLong (rc : Int) (room : Nat) : Prop := 0 < rc ∧ room ≤ rc.toNat

instance (rc : Int) (room : Nat) : Decidable (TooLong rc room) :=
  inferInstanceAs (Decidable (_ ∧ _))

/-- `if (rc >= 0) b->tail += rc; return rc;` -/
def SqlBuffer.finish (b : SqlBuffer) (rc : Int) : SqlBuffer × Int :=
  (if 0 ≤ rc then { b with tail := b.tail + rc.toNat } else b, rc)

/-- `frag`; `piece`: what the format and the arguments yield. A `malloc` that fails, after which the
piece is left out and -1 returned, ends the execution. -/
def frag (m : Malloc Byte) (b : SqlBuffer) (piece : Bytes) : Except Failure (SqlBuffer × Int) := do
  let curlen := b.tail
  let (data, rc) ← b.data.print 0 b.tail (subSize b.buflen curlen) piece
  if TooLong rc (subSize b.buflen curlen) then
    let newlen ← doubleLoop ((rc.toNat + curlen) % 2 ^ 64) 65 b.buflen
    let newbuf ← m.alloc 1 newlen
    let text ← data.get 0 (curlen + 1)
    let newbuf ← newbuf.store 0 text
    -- try again
    let (newbuf, rc) ← newbuf.print 0 curlen (subSize newlen curlen) piece
    let b := { buflen := newlen, data := newbuf, tail := curlen }
    if TooLong rc (subSize newlen curlen) then .ok (b, -1) else .ok (b.finish rc)
  else .ok ({ b with data := data }.finish rc)

/-- Calls one after the other, whose return codes are not looked at. -/
def fragRun (m : Malloc Byte) (b : SqlBuffer) : List Bytes → Except Failure SqlBuffer
  | [] => .ok b
  | piece :: pieces => do
    let (b, _) ← frag m b piece
    fragRun m b pieces

/-! ## 2. The doubling -/

variable {m : Malloc Byte} {b : SqlBuffer} {text piece : Bytes} {needed fuel n : Nat}

namespace SqlBufferLemmas

/-- As long as what is needed is below `2^63`, nothing wraps. -/
theorem doubleLoop_small (hn : 0 < n) (hlt : n < 2 ^ 64) (hneeded : needed < 2 ^ 63)
    (hfuel : needed < n * 2 ^ fuel) :
    ∃ n', doubleLoop needed (fuel + 1) n = .ok n' ∧ needed < n' ∧ n' < 2 ^ 64 := by
  induction fuel generalizing n with
  | zero =>
    rw [Nat.pow_zero, Nat.mul_one] at hfuel
    exact ⟨n, if_neg (by omega), hfuel, hlt⟩
  | succ fuel ih =>
    rw [doubleLoop]
    split
    · rw [Nat.mod_eq_of_lt (by omega)]
      refine ih (by omega) (by omega) ?_
      calc needed < n * 2 ^ (fuel + 1) := hfuel
        _ = n * 2 * 2 ^ fuel := by rw [Nat.pow_succ, Nat.mul_comm (2 ^ fuel) 2, Nat.mul_assoc]
    · exact ⟨n, rfl, by omega, hlt⟩

end SqlBufferLemmas

open SqlBufferLemmas

/-- The doubling of a buffer that is longer than its text ends, for any piece that was measured. -/
theorem doubleLoop_ends {curlen rc : Nat} (hlen : curlen < n) (hn : n < 2 ^ 63)
    (hrc : rc < 2 ^ 31) :
    ∃ n', doubleLoop ((rc + curlen) % 2 ^ 64) 65 n = .ok n' ∧ rc + curlen < n' ∧ n' < 2 ^ 64 := by
  rw [Nat.mod_eq_of_lt (by omega)]
  rcases Nat.lt_or_ge (rc + curlen) (2 ^ 63) with hlt | hge
  · exact doubleLoop_small (by omega) (by omega) hlt (by omega)
  · -- a buffer of this size is doubled once
    refine ⟨n * 2, ?_, by omega, by omega⟩
    rw [doubleLoop, if_pos (by omega), Nat.mod_eq_of_lt (by omega), doubleLoop, if_neg (by omega)]

/-! ## 3. One call -/

/-- The buffer holds the text, with room behind it. -/
structure SqlBuffer.Holds (b : SqlBuffer) (text : Bytes) : Prop where
  size : b.data.size = b.buflen
  tail : b.tail = text.length
  room : text.length < b.buflen
  filled : Filled b.data text

/-- And the text is terminated. -/
structure SqlBuffer.Accumulates (b : SqlBuffer) (text : Bytes) : Prop extends b.Holds text where
  terminated : Filled b.data (text ++ [0])

namespace SqlBufferLemmas

theorem buflen_lt (h : b.Holds text) : b.buflen < 2 ^ 63 := by
  have hsize := b.data.size_lt
  rwa [h.size, Nat.one_mul] at hsize

/-- The room behind the text. -/
theorem subSize_tail (h : b.Holds text) : subSize b.buflen b.tail = b.buflen - b.tail := by
  have hroom := h.room
  have hlt := buflen_lt h
  rw [h.tail]
  exact subSize_of_le (by omega) (by omega)

/-- To print a piece behind the text. -/
theorem print_piece (h : b.Holds text) (piece : Bytes) :
    ∃ data, b.data.print 0 b.tail (b.buflen - b.tail) piece = .ok (data, printed piece) ∧
      data.size = b.buflen ∧ Filled data (text ++ (piece.take (b.buflen - b.tail - 1) ++ [0])) := by
  have hroom := h.room
  have hsize := h.size
  rw [h.tail]
  obtain ⟨data, hprint, hsize', hfilled⟩ :=
    h.filled.print 0 piece (n := b.buflen - text.length) (by omega) (by omega)
  exact ⟨data, hprint, hsize'.trans hsize, hfilled⟩

theorem printed_of_lt (h : piece.length < 2 ^ 31) : printed piece = piece.length := if_pos h

theorem tooLong_iff {room : Nat} : TooLong (n : Int) room ↔ 0 < n ∧ room ≤ n := by
  rw [TooLong, Int.toNat_natCast, Int.natCast_pos]

/-- The text and its NUL fit in the buffer that it has been printed to completely. -/
theorem accumulates_finish {buflen tail : Nat} {data : Chunk Byte 1} (hsize : data.size = buflen)
    (htail : tail = text.length) (hfit : piece.length < buflen - tail)
    (hfilled : Filled data (text ++ (piece.take (buflen - tail - 1) ++ [0]))) :
    (SqlBuffer.finish ⟨buflen, data, tail⟩ (piece.length : Int)).1.Accumulates (text ++ piece) := by
  rw [List.take_of_length_le (by omega), ← List.append_assoc] at hfilled
  rw [SqlBuffer.finish, if_pos (Int.natCast_nonneg _)]
  refine ⟨⟨hsize, ?_, ?_, hfilled.left⟩, hfilled⟩
  · simp [htail]
  · simp only [List.length_append]
    omega

/-- A larger buffer holds the text as well. -/
theorem enlarged {newlen : Nat} {data newbuf : Chunk Byte 1} {rest : Bytes}
    (hdata : Filled data (text ++ rest)) (hrest : rest ≠ []) (hnew : newbuf.size = newlen)
    (hroom : text.length + 1 ≤ newlen) :
    ∃ old newbuf', data.get 0 (text.length + 1) = .ok old ∧ newbuf.store 0 old = .ok newbuf' ∧
      newbuf'.size = newlen ∧ Filled newbuf' text := by
  obtain ⟨c, rest, rfl⟩ := List.exists_cons_of_ne_nil hrest
  have hlen : (text ++ [c]).length = text.length + 1 := by simp
  rw [List.append_cons] at hdata
  have hget := hdata.left.get
  rw [hlen] at hget
  obtain ⟨newbuf', hstore, hsize, hfilled⟩ :=
    (filled_nil newbuf).store (t := text ++ [c]) (by rw [hlen, List.length_nil, hnew]; omega)
  rw [List.nil_append] at hfilled
  exact ⟨text ++ [c], newbuf', hget, hstore, hsize.trans hnew, hfilled.left⟩

end SqlBufferLemmas

/-- One call adds a piece that can be measured. -/
theorem frag_spec (h : b.Holds text) (hlen : piece.length < 2 ^ 31) :
    frag m b piece = .error .noMemory ∨
      ∃ b', frag m b piece = .ok (b', (piece.length : Int)) ∧ b'.Accumulates (text ++ piece) := by
  have htail := h.tail
  have hroom := h.room
  obtain ⟨data, hprint, hsize, hdata⟩ := print_piece h piece
  rw [printed_of_lt hlen] at hprint
  simp only [frag, subSize_tail h, hprint, ok_bind, tooLong_iff, Int.toNat_natCast]
  split
  · next hlong =>
    obtain ⟨newlen, hloop, hneeded, hlt⟩ :=
      doubleLoop_ends (show b.tail < b.buflen by omega) (buflen_lt h) hlen
    rw [hloop, ok_bind]
    rcases alloc_spec m 1 newlen Nat.one_pos (by omega) with
      hno | ⟨newbuf, halloc, hnew⟩
    · exact .inl (by rw [hno, error_bind])
    · obtain ⟨old, newbuf', hget, hstore, hnew', hold⟩ :=
        enlarged hdata (by simp) hnew (by omega)
      have hnewlen : newlen < 2 ^ 63 := by
        have hbytes := newbuf.size_lt
        omega
      have hsub : subSize newlen b.tail = newlen - b.tail := subSize_of_le (by omega) (by omega)
      obtain ⟨newbuf'', hagain, hnew'', hfilled⟩ :=
        hold.print 0 piece (n := newlen - b.tail) (by omega) (by omega)
      rw [printed_of_lt hlen, ← htail] at hagain
      rw [← htail] at hget
      rw [halloc, ok_bind, hget, ok_bind, hstore, ok_bind, hsub, hagain, ok_bind,
        if_neg (by rw [tooLong_iff]; omega)]
      exact .inr ⟨_, rfl,
        accumulates_finish (hnew''.trans hnew') htail (by omega) hfilled⟩
  · next hfit =>
    exact .inr ⟨_, rfl, accumulates_finish hsize htail (by omega) hdata⟩

/-- One call drops a piece that is too long for an `int`. -/
theorem frag_long (m : Malloc Byte) (h : b.Holds text) (hlen : 2 ^ 31 ≤ piece.length) :
    ∃ b', frag m b piece = .ok (b', -1) ∧ b'.Holds text := by
  obtain ⟨data, hprint, hsize, hdata⟩ := print_piece h piece
  rw [printed, if_neg (Nat.not_lt.mpr hlen)] at hprint
  refine ⟨{ b with data := data }, ?_, hsize, h.tail, h.room, hdata.left⟩
  simp only [frag, subSize_tail h, hprint, ok_bind]
  rw [if_neg (by rw [TooLong]; omega), SqlBuffer.finish, if_neg (by decide)]

/-! ## 4. Any number of calls -/

theorem fragRun_spec {pieces : List Bytes} (h : b.Holds text)
    (hlen : ∀ piece ∈ pieces, piece.length < 2 ^ 31) :
    fragRun m b pieces = .error .noMemory ∨
      ∃ b', fragRun m b pieces = .ok b' ∧ b'.Holds (text ++ pieces.flatten) ∧
        (pieces ≠ [] → b'.Accumulates (text ++ pieces.flatten)) := by
  induction pieces generalizing b text with
  | nil =>
    rw [List.flatten_nil, List.append_nil]
    exact .inr ⟨b, rfl, h, fun hne => absurd rfl hne⟩
  | cons piece pieces ih =>
    obtain ⟨hpiece, hpieces⟩ := List.forall_mem_cons.mp hlen
    rw [fragRun, List.flatten_cons, ← List.append_assoc]
    rcases frag_spec (m := m) h hpiece with hno | ⟨b', hfrag, hacc⟩
    · exact .inl (by rw [hno, error_bind])
    · rw [hfrag, ok_bind]
      rcases ih hacc.toHolds hpieces with hno | ⟨b'', hrun, hholds, hall⟩
      · exact .inl hno
      · refine .inr ⟨b'', hrun, hholds, fun _ => ?_⟩
        cases pieces with
        | nil =>
          obtain rfl := Except.ok.inj hrun
          rwa [List.flatten_nil, List.append_nil]
        | cons => exact hall (List.cons_ne_nil _ _)

/-- A buffer of any positive size whose tail equals its data, as before each query. -/
structure SqlBuffer.Start (b : SqlBuffer) : Prop where
  size : b.data.size = b.buflen
  positive : 0 < b.buflen
  tail : b.tail = 0

theorem SqlBuffer.Start.holds (h : b.Start) : b.Holds [] :=
  ⟨h.size, h.tail, h.positive, filled_nil b.data⟩

/-- `sql->tail = sql->data`: the buffer of one query is used for the next one. -/
theorem SqlBuffer.Holds.start (h : b.Holds text) : { b with tail := 0 }.Start :=
  ⟨h.size, Nat.zero_lt_of_lt h.room, rfl⟩

/-- If there is memory, the buffer holds all pieces that have been added so far, its tail is where
they end, strictly below `buflen`, and after the first call there is a NUL. -/
theorem fragRun_accumulates {pieces : List Bytes} (h : b.Start)
    (hlen : ∀ piece ∈ pieces, piece.length < 2 ^ 31)
    (hmem : fragRun m b pieces ≠ .error .noMemory) :
    ∃ b', fragRun m b pieces = .ok b' ∧ b'.Holds pieces.flatten ∧
      (pieces ≠ [] → b'.Accumulates pieces.flatten) := by
  have hrun := fragRun_spec (m := m) h.holds hlen
  rw [List.nil_append] at hrun
  exact hrun.resolve_left hmem

/-- A buffer of one byte. -/
def smallBuffer : SqlBuffer := ⟨1, ⟨1, fun _ => 0, by decide⟩, 0⟩

theorem smallBuffer_start : smallBuffer.Start := ⟨rfl, Nat.one_pos, rfl⟩

theorem fragRun_accumulates_two :
    ∃ b', fragRun (.ample 0) smallBuffer [[65, 66], [67]] = .ok b' ∧ b'.Holds [65, 66, 67] ∧
      (([[65, 66], [67]] : List Bytes) ≠ [] → b'.Accumulates [65, 66, 67]) := by
  have hok : (fragRun (.ample 0) smallBuffer [[65, 66], [67]]).isOk = true := by decide
  refine fragRun_accumulates smallBuffer_start (by decide) fun hno => ?_
  rw [hno] at hok
  cases hok

/-- `vsnprintf` cannot measure a text of `2^31` bytes, and the piece is left out. -/
theorem frag_drops_long :
    smallBuffer.Start ∧
      fragRun (.ample 0) smallBuffer [List.replicate (2 ^ 31) 65] ≠ .error .noMemory ∧
      ¬ ∃ b', fragRun (.ample 0) smallBuffer [List.replicate (2 ^ 31) 65] = .ok b' ∧
        b'.Holds [List.replicate (2 ^ 31) 65].flatten := by
  obtain ⟨b', hfrag, hholds⟩ := frag_long (.ample 0) smallBuffer_start.holds
    (Nat.le_of_eq (List.length_replicate (n := 2 ^ 31) (a := 65)).symm)
  have hrun : fragRun (.ample 0) smallBuffer [List.replicate (2 ^ 31) 65] = .ok b' := by
    rw [fragRun, hfrag]
    rfl
  refine ⟨smallBuffer_start, by rw [hrun]; exact nofun, ?_⟩
  rintro ⟨b'', hrun', hholds'⟩
  obtain rfl := Except.ok.inj (hrun.symm.trans hrun')
  have htail := hholds'.tail
  rw [hholds.tail, List.flatten_singleton, List.length_replicate] at htail
  cases htail

end Pseudo

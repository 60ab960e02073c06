import Pseudo.Framing
import Pseudo.Library.Memory

/-!
# The size of the receive buffer

`pseudo_msg_receive` once more, as far as sizes go, and with everything that can fail: the reads
and the allocation. The sum `header.pathlen + 128` is one of two `unsigned int`s.

Results:
1. `receive_bounded_iff`: for which sequences of headers every path fits its buffer.
2. `receive_sizes`: the byte-by-byte model stays in bounds exactly when this one does.
-/

namespace Pseudo

open Memory

/-- `sizeof(pseudo_msg_t)`: the structure is padded behind `path`. -/
def sizeofMsg : Nat := 80

/-- `incoming`, of which only the bytes that were asked for behind the structure are kept, and
`incoming_pathlen`. -/
structure ReceiveSizes where
  incoming : Option Nat
  incomingPathlen : Nat
  deriving DecidableEq, Repr

def ReceiveSizes.start : ReceiveSizes := ⟨none, 0⟩

/-- What a call meets: the length in the header, unless the first `read` fails or is short,
whether `malloc` succeeds, and what the second `read` returns. -/
structure Arrival where
  header : Option (BitVec 32)
  malloc : Bool
  body : Int
  body_low : -1 ≤ body
  body_high : body < 2 ^ 31
  body_le : ∀ pathlen, header = some pathlen → body ≤ pathlen.toNat

/-- What a call does: the buffer it leaves, the length of the path if it goes on to read one, and
its accesses to the buffer in use. -/
structure Receiving where
  buffer : ReceiveSizes
  reads : Option Nat
  accesses : List Access
  deriving DecidableEq, Repr

/-- The buffer in use is none, or too small for the path and a NUL. -/
def ReceiveSizes.Short (b : ReceiveSizes) (pathlen : BitVec 32) : Prop :=
  b.incoming = none ∨ b.incomingPathlen ≤ pathlen.toNat

instance (b : ReceiveSizes) (pathlen : BitVec 32) : Decidable (b.Short pathlen) :=
  inferInstanceAs (Decidable (_ ∨ _))

/-- `pseudo_msg_new(pathlen, 0)` writes the length and a last NUL. -/
def newAccesses (pathlen : Nat) : List Access :=
  .copy offsetofPathlen 4 4 ::
    if pathlen ≠ 0 then [.store (offsetofPath + (pathlen - 1))] else []

/-- The buffer for the path, unless `malloc` fails. -/
def ReceiveSizes.grow (b : ReceiveSizes) (pathlen : BitVec 32) (malloc : Bool) :
    Option (ReceiveSizes × List Access) :=
  if b.Short pathlen then
    let size := (pathlen + 128).toNat
    if malloc then some (⟨some size, size⟩, newAccesses size) else none
  else some (b, [])

/-- The accesses of the second `read` and of the NUL behind what was read. -/
def pathAccesses (pathlen : BitVec 32) (r : Int) : List Access :=
  .copy offsetofPath r.toNat r.toNat ::
    -- "short read on path"
    if r < pathlen.toInt then [] else [.store (offsetofPath + r).toNat]

def ReceiveSizes.receive (b : ReceiveSizes) (a : Arrival) : Receiving :=
  match a.header with
  | none => ⟨b, none, []⟩
  | some pathlen =>
    match b.grow pathlen a.malloc with
    | none => ⟨b, none, []⟩
    | some (b, new) =>
      let header := .copy 0 sizeofMsg sizeofMsg
      if pathlen ≠ 0 then
        ⟨b, some pathlen.toNat, new ++ header :: pathAccesses pathlen a.body⟩
      else ⟨b, none, new ++ [header]⟩

def ReceiveSizes.after (b : ReceiveSizes) (a : Arrival) : ReceiveSizes := (b.receive a).buffer

/-- The bytes behind the structure. -/
def ReceiveSizes.allocated (b : ReceiveSizes) : Nat := b.incoming.getD 0

/-- A path that is read is shorter than its buffer, every access stays in the buffer, and no more
room is remembered than there is. -/
structure Receiving.Bounded (out : Receiving) : Prop where
  path : ∀ pathlen, out.reads = some pathlen → pathlen < out.buffer.allocated
  accesses : Fit (sizeofMsg + out.buffer.allocated) out.accesses
  remembered : out.buffer.incomingPathlen ≤ out.buffer.allocated

/-- A buffer is needed, and the sum for its size runs over. -/
def ReceiveSizes.Wraps (b : ReceiveSizes) (a : Arrival) : Prop :=
  ∃ pathlen, a.header = some pathlen ∧ b.Short pathlen ∧ a.malloc = true ∧
    2 ^ 32 ≤ pathlen.toNat + 128

namespace ReceiveLemmas

/-- What is remembered is what was asked for. -/
def Remembers (b : ReceiveSizes) : Prop := b.incomingPathlen = b.allocated

variable {b b' : ReceiveSizes} {a : Arrival} {pathlen : BitVec 32} {malloc : Bool}
  {new : List Access}

theorem remembers_start : Remembers .start := rfl

/-- The two ways to a buffer. -/
theorem grow_cases (h : b.grow pathlen malloc = some (b', new)) :
    (b.Short pathlen ∧ malloc = true ∧
        b' = ⟨some (pathlen + 128).toNat, (pathlen + 128).toNat⟩ ∧
        new = newAccesses (pathlen + 128).toNat) ∨
      (¬ b.Short pathlen ∧ b' = b ∧ new = []) := by
  unfold ReceiveSizes.grow at h
  split at h
  · next hshort =>
    cases malloc with
    | true =>
      obtain ⟨rfl, rfl⟩ := Prod.mk.inj (Option.some.inj h)
      exact Or.inl ⟨hshort, rfl, rfl, rfl⟩
    | false => cases h
  · next hshort =>
    obtain ⟨rfl, rfl⟩ := Prod.mk.inj (Option.some.inj h)
    exact Or.inr ⟨hshort, rfl, rfl⟩

theorem grow_remembers (hb : Remembers b) (h : b.grow pathlen malloc = some (b', new)) :
    Remembers b' := by
  rcases grow_cases h with ⟨_, _, rfl, _⟩ | ⟨_, rfl, _⟩
  · rfl
  · exact hb

theorem after_remembers (a : Arrival) (hb : Remembers b) : Remembers (b.after a) := by
  unfold ReceiveSizes.after ReceiveSizes.receive
  split
  · exact hb
  · split
    · exact hb
    · next hgrow =>
      have hb' := grow_remembers hb hgrow
      split <;> exact hb'

theorem fit_newAccesses (n : Nat) : Fit (sizeofMsg + n) (newAccesses n) := by
  have hsize : sizeofMsg = 80 := rfl
  have hpath : offsetofPath = 76 := rfl
  have hpathlen : offsetofPathlen = 64 := rfl
  unfold newAccesses
  rw [fit_cons, fits_copy]
  refine ⟨by omega, ?_⟩
  split
  · simp only [fit_cons, fits_store, fit_nil, and_true]
    omega
  · exact fit_nil

/-- What the allocation writes is in the buffer it leaves. -/
theorem grow_fit (h : b.grow pathlen malloc = some (b', new)) :
    Fit (sizeofMsg + b'.allocated) new := by
  rcases grow_cases h with ⟨_, _, rfl, rfl⟩ | ⟨_, _, rfl⟩
  · exact fit_newAccesses _
  · exact fit_nil

/-- The buffer holds the path and a NUL, unless the sum ran over. -/
theorem grow_room (hb : Remembers b) (h : b.grow pathlen malloc = some (b', new)) :
    pathlen.toNat < b'.allocated ↔ (b.Short pathlen → pathlen.toNat + 128 < 2 ^ 32) := by
  rcases grow_cases h with ⟨hshort, _, rfl, _⟩ | ⟨hshort, rfl, _⟩
  · have hsum : (pathlen + 128).toNat = (pathlen.toNat + 128) % 2 ^ 32 := by
      simp [BitVec.toNat_add]
    have hlt := pathlen.isLt
    simp only [ReceiveSizes.allocated, Option.getD_some, hsum]
    constructor
    · intro h _
      omega
    · intro h
      have := h hshort
      omega
  · refine ⟨fun _ hs => absurd hs hshort, fun _ => ?_⟩
    obtain ⟨_, hle⟩ := not_or.mp hshort
    have hsame : b'.incomingPathlen = b'.allocated := hb
    omega

theorem fit_pathAccesses (ha : a.header = some pathlen) {n : Nat} (h : pathlen.toNat < n) :
    Fit (sizeofMsg + n) (pathAccesses pathlen a.body) := by
  have hsize : sizeofMsg = 80 := rfl
  have hpath : offsetofPath = 76 := rfl
  have hle := a.body_le pathlen ha
  have hlow := a.body_low
  unfold pathAccesses
  rw [fit_cons, fits_copy]
  refine ⟨by omega, ?_⟩
  split
  · exact fit_nil
  · simp only [fit_cons, fits_store, fit_nil, and_true]
    omega

/-- A call that reads no path. -/
theorem bounded_idle (hb : Remembers b) : (Receiving.mk b none []).Bounded :=
  ⟨fun _ h => (nomatch h), fit_nil, Nat.le_of_eq hb⟩

/-- A call with a header and a buffer. -/
theorem bounded_grown (hb : Remembers b) (ha : a.header = some pathlen)
    (hgrow : b.grow pathlen a.malloc = some (b', new)) :
    (b.receive a).Bounded ↔ (b.Short pathlen → pathlen.toNat + 128 < 2 ^ 32) := by
  have hremembers := grow_remembers hb hgrow
  have hheader : (Access.copy 0 sizeofMsg sizeofMsg).Fits (sizeofMsg + b'.allocated) :=
    ⟨by omega, Nat.le_refl _⟩
  have hnew := grow_fit hgrow
  have hreceive : b.receive a = if pathlen ≠ 0 then
        ⟨b', some pathlen.toNat,
          new ++ .copy 0 sizeofMsg sizeofMsg :: pathAccesses pathlen a.body⟩
      else ⟨b', none, new ++ [.copy 0 sizeofMsg sizeofMsg]⟩ := by
    simp only [ReceiveSizes.receive, ha, hgrow]
  rw [hreceive]
  split
  · rw [← grow_room hb hgrow]
    refine ⟨fun h => h.path _ rfl, fun h => ⟨?_, ?_, Nat.le_of_eq hremembers⟩⟩
    · rintro _ ⟨⟩
      exact h
    · rw [fit_append, fit_cons]
      exact ⟨hnew, hheader, fit_pathAccesses ha h⟩
  · next hzero =>
    obtain rfl : pathlen = 0 := not_not.mp hzero
    refine iff_of_true ⟨fun _ h => (nomatch h), ?_, Nat.le_of_eq hremembers⟩ fun _ => by decide
    rw [fit_append, fit_cons]
    exact ⟨hnew, hheader, fit_nil⟩

/-- One call. -/
theorem bounded_iff (hb : Remembers b) : (b.receive a).Bounded ↔ ¬ b.Wraps a := by
  cases ha : a.header with
  | none =>
    have hidle : b.receive a = ⟨b, none, []⟩ := by simp only [ReceiveSizes.receive, ha]
    rw [hidle]
    refine iff_of_true (bounded_idle hb) ?_
    rintro ⟨_, hsome, _⟩
    rw [ha] at hsome
    cases hsome
  | some pathlen =>
    cases hgrow : b.grow pathlen a.malloc with
    | none =>
      have hidle : b.receive a = ⟨b, none, []⟩ := by simp only [ReceiveSizes.receive, ha, hgrow]
      rw [hidle]
      refine iff_of_true (bounded_idle hb) ?_
      rintro ⟨_, hsome, hshort, hmalloc, _⟩
      obtain rfl := Option.some.inj (ha.symm.trans hsome)
      simp [ReceiveSizes.grow, hshort, hmalloc] at hgrow
    | some grown =>
      have hmalloc : b.Short pathlen → a.malloc = true := fun hshort => by
        rcases grow_cases hgrow with ⟨_, hmalloc, _⟩ | ⟨hnot, _⟩
        · exact hmalloc
        · exact absurd hshort hnot
      rw [bounded_grown hb ha hgrow]
      constructor
      · rintro h ⟨_, hsome, hshort, _, hsum⟩
        obtain rfl := Option.some.inj (ha.symm.trans hsome)
        exact Nat.not_le.mpr (h hshort) hsum
      · intro h hshort
        exact Nat.not_le.mp fun hsum => h ⟨pathlen, ha, hshort, hmalloc hshort, hsum⟩

end ReceiveLemmas

open ReceiveLemmas

/-- Along any sequence of calls, every path fits the buffer it is read into exactly when no new
buffer is made for a path so long that the sum for its size runs over. -/
theorem receive_bounded_iff (calls : List Arrival) :
    Run.Guarded ReceiveSizes.after (fun b a => (b.receive a).Bounded) .start calls ↔
      Run.Guarded ReceiveSizes.after (fun b a => ¬ b.Wraps a) .start calls :=
  Run.guarded_congr (fun _ a => after_remembers a) (fun _ _ => bounded_iff) remembers_start

/-- A header with the length `2^32 - 100`, of whose path a single byte arrives. -/
def exHuge : Arrival where
  header := some (BitVec.ofNat 32 (2 ^ 32 - 100))
  malloc := true
  body := 1
  body_low := by decide
  body_high := by decide
  body_le := by
    rintro _ ⟨⟩
    decide

/-- The first buffer is made with 28 bytes for a path of almost 4 GB. -/
theorem receive_small_buffer :
    ¬ Run.Guarded ReceiveSizes.after (fun b a => (b.receive a).Bounded) .start [exHuge] := by
  rintro ⟨h, -⟩
  exact absurd (h.path _ rfl) (by decide)

/-! ## The same sizes byte by byte -/

/-- The sizes of a buffer whose memory is known. -/
def ReceiveBuffer.sizes (b : ReceiveBuffer) : ReceiveSizes :=
  ⟨b.incoming.map fun mem => mem.length - 4, b.incomingPathlen⟩

/-- The length in the header at the start of a stream. -/
def streamPathlen (stream : Bytes) : Nat := (headerCodec.decode (stream.take offsetofPath)).pathlen

theorem streamPathlen_lt (stream : Bytes) : streamPathlen stream < 2 ^ 32 := Codec.value_lt 4 _

/-- What a call meets on a stream, when no allocation fails. -/
def arrivalOf (stream : Bytes) (h : stream.length < 2 ^ 31) : Arrival where
  header :=
    if (stream.take offsetofPath).length < offsetofPath then none
    else some (BitVec.ofNat 32 (streamPathlen stream))
  malloc := true
  body := ((stream.drop offsetofPath).take (streamPathlen stream)).length
  body_low := by omega
  body_high := by
    rw [List.length_take, List.length_drop]
    omega
  body_le := by
    intro pathlen hpathlen
    have hlt := streamPathlen_lt stream
    split at hpathlen
    · cases hpathlen
    · rw [← Option.some.inj hpathlen, BitVec.toNat_ofNat, Nat.mod_eq_of_lt hlt, List.length_take]
      omega

namespace ReceiveLemmas

theorem overwrite_isSome (mem : Bytes) (at_ : Nat) (bytes : Bytes) :
    (overwrite mem at_ bytes).isSome ↔ at_ + bytes.length ≤ mem.length := by
  unfold overwrite
  split <;> simp_all

theorem length_overwrite {mem mem' : Bytes} {at_ : Nat} {bytes : Bytes}
    (h : overwrite mem at_ bytes = some mem') : mem'.length = mem.length := by
  obtain ⟨mem'', he, hlen, _⟩ := FramingLemmas.overwrite_fits mem at_ bytes
    ((overwrite_isSome mem at_ bytes).mp (by rw [h]; rfl))
  rw [he] at h
  rw [← Option.some.inj h, hlen]

/-- Both models make the same room. -/
theorem grow_makeRoom (u : Undetermined) {b : ReceiveBuffer} (hb : b.Good) {pathlen : Nat}
    (h : pathlen < 2 ^ 32) :
    (makeRoom u b pathlen).1.length = 4 + (makeRoom u b pathlen).2 ∧
      ∃ new, b.sizes.grow (BitVec.ofNat 32 pathlen) true =
        some (⟨some (makeRoom u b pathlen).2, (makeRoom u b pathlen).2⟩, new) := by
  have hpathlen : (BitVec.ofNat 32 pathlen).toNat = pathlen := by
    rw [BitVec.toNat_ofNat, Nat.mod_eq_of_lt h]
  have hsize : (BitVec.ofNat 32 pathlen + 128).toNat = (pathlen + 128) % 2 ^ 32 := by
    simp [BitVec.toNat_add]
  have hshort : b.sizes.Short (BitVec.ofNat 32 pathlen) ↔
      b.incoming = none ∨ b.incomingPathlen ≤ pathlen := by
    rw [ReceiveSizes.Short, hpathlen]
    simp [ReceiveBuffer.sizes]
  unfold ReceiveSizes.grow makeRoom
  rw [hsize]
  rcases hin : b.incoming with _ | mem
  · rw [if_pos (hshort.mpr (Or.inl hin))]
    exact ⟨FramingLemmas.length_pseudoMsgNew u _, _, rfl⟩
  · by_cases hle : b.incomingPathlen ≤ pathlen
    · rw [if_pos (hshort.mpr (Or.inr hle))]
      simp only [if_pos hle, if_true]
      exact ⟨FramingLemmas.length_pseudoMsgNew u _, _, rfl⟩
    · have hnot : ¬ b.sizes.Short (BitVec.ofNat 32 pathlen) := by
        rw [hshort, hin]
        simpa using hle
      have hmem := hb mem hin
      rw [if_neg hnot]
      simp only [if_neg hle]
      refine ⟨hmem, [], ?_⟩
      simp [ReceiveBuffer.sizes, hin, hmem]

variable {u : Undetermined} {rb : ReceiveBuffer} {stream : Bytes}

/-- What `pseudo_msg_receive` does once the header is in the buffer. -/
def readPath (mem : Bytes) (size : Nat) (header : MsgHeader) (stream : Bytes) : Option Receipt :=
  if header.pathlen ≠ 0 then
    let body := stream.take header.pathlen
    let stream := stream.drop header.pathlen
    (overwrite mem 0 body).bind fun mem =>
      if (body.length : Int) < (BitVec.ofNat 32 header.pathlen).toInt then
        some ⟨⟨some mem, size⟩, none, stream⟩
      else
        (overwrite mem body.length [0]).map fun mem =>
          ⟨⟨some mem, size⟩, some ⟨header, mem⟩, stream⟩
  else some ⟨⟨some mem, size⟩, some ⟨header, mem⟩, stream⟩

theorem pseudoMsgReceive_eq (h : ¬ (stream.take offsetofPath).length < offsetofPath) :
    pseudoMsgReceive u rb stream =
      (overwrite (makeRoom u rb (streamPathlen stream)).1 0 u.padding).bind fun mem =>
        readPath mem (makeRoom u rb (streamPathlen stream)).2
          (headerCodec.decode (stream.take offsetofPath)) (stream.drop offsetofPath) := by
  unfold pseudoMsgReceive
  rw [if_neg h]
  rfl

theorem sizes_mk {mem : Bytes} {size : Nat} (h : mem.length = 4 + size) :
    ReceiveBuffer.sizes ⟨some mem, size⟩ = ⟨some size, size⟩ := by
  simp [ReceiveBuffer.sizes, h]

/-- Reading the path stays in a buffer of a known size exactly when its accesses do. -/
theorem readPath_isSome {mem : Bytes} {size : Nat} (hmem : mem.length = 4 + size)
    {header : MsgHeader} (hlen : header.pathlen ≠ 0) :
    (readPath mem size header stream).isSome ↔
      Fit (sizeofMsg + size) (pathAccesses (BitVec.ofNat 32 header.pathlen)
        (stream.take header.pathlen).length) := by
  have hsize : sizeofMsg = 80 := rfl
  have hpath : offsetofPath = 76 := rfl
  unfold readPath pathAccesses
  rw [if_pos hlen, fit_cons, fits_copy]
  generalize stream.take header.pathlen = body
  simp only [Int.toNat_natCast]
  cases hw : overwrite mem 0 body with
  | none =>
    have hno : ¬ 0 + body.length ≤ mem.length := by
      rw [← overwrite_isSome, hw]
      simp
    refine iff_of_false (by simp) fun hfit => hno ?_
    have := hfit.1.1
    omega
  | some mem' =>
    have hyes : 0 + body.length ≤ mem.length := by
      rw [← overwrite_isSome, hw]
      rfl
    rw [Option.bind_some, and_iff_right ⟨by omega, Nat.le_refl _⟩]
    split
    · simp
    · rw [Option.isSome_map, overwrite_isSome, length_overwrite hw, fit_cons, fits_store]
      simp only [fit_nil, and_true, List.length_singleton]
      omega

/-- The buffer stays as large as it is. -/
theorem readPath_sizes {mem : Bytes} {size : Nat} (hmem : mem.length = 4 + size)
    {header : MsgHeader} {r : Receipt} (h : readPath mem size header stream = some r) :
    r.buffer.sizes = ⟨some size, size⟩ := by
  unfold readPath at h
  split at h
  · obtain ⟨mem', hw, h⟩ := Option.bind_eq_some_iff.mp h
    have hlen := length_overwrite hw
    split at h
    · rw [← Option.some.inj h]
      exact sizes_mk (hlen.trans hmem)
    · obtain ⟨mem'', hnul, rfl⟩ := Option.map_eq_some_iff.mp h
      exact sizes_mk ((length_overwrite hnul).trans (hlen.trans hmem))
  · rw [← Option.some.inj h]
    exact sizes_mk hmem

end ReceiveLemmas

/-- The byte-by-byte model has a result exactly when every access stays in the buffer, and the
buffer it leaves has the sizes of this model. -/
theorem receive_sizes (u : Undetermined) (b : ReceiveBuffer) (hb : b.Good) (stream : Bytes)
    (h : stream.length < 2 ^ 31) :
    ((pseudoMsgReceive u b stream).isSome ↔
      Fit (sizeofMsg + (b.sizes.receive (arrivalOf stream h)).buffer.allocated)
        (b.sizes.receive (arrivalOf stream h)).accesses) ∧
    ∀ r, pseudoMsgReceive u b stream = some r →
      r.buffer.sizes = (b.sizes.receive (arrivalOf stream h)).buffer := by
  by_cases hhead : (stream.take offsetofPath).length < offsetofPath
  · have hreceive : b.sizes.receive (arrivalOf stream h) = ⟨b.sizes, none, []⟩ := by
      simp only [ReceiveSizes.receive, arrivalOf, if_pos hhead]
    rw [hreceive, pseudoMsgReceive]
    simp only [if_pos hhead]
    exact ⟨by simp, fun r hr => by rw [← Option.some.inj hr]⟩
  · have hlt := streamPathlen_lt stream
    obtain ⟨hroom, new, hgrow⟩ := grow_makeRoom u hb hlt
    rw [pseudoMsgReceive_eq hhead]
    generalize makeRoom u b (streamPathlen stream) = room at hroom hgrow
    obtain ⟨mem₁, hpad, hlen₁, -⟩ := FramingLemmas.overwrite_fits room.1 0 u.padding
      (by rw [u.padding_length]; omega)
    have hmem : mem₁.length = 4 + room.2 := hlen₁.trans hroom
    have hnew : Fit (sizeofMsg + room.2) new := grow_fit hgrow
    have hheader : (Access.copy 0 sizeofMsg sizeofMsg).Fits (sizeofMsg + room.2) :=
      ⟨by omega, Nat.le_refl _⟩
    have hzero : BitVec.ofNat 32 (streamPathlen stream) ≠ 0 ↔ streamPathlen stream ≠ 0 := by
      rw [not_iff_not, ← BitVec.toNat_inj, BitVec.toNat_ofNat, Nat.mod_eq_of_lt hlt]
      rfl
    have hreceive : b.sizes.receive (arrivalOf stream h) =
        if streamPathlen stream ≠ 0 then
          ⟨⟨some room.2, room.2⟩, some (BitVec.ofNat 32 (streamPathlen stream)).toNat,
            new ++ .copy 0 sizeofMsg sizeofMsg ::
              pathAccesses (BitVec.ofNat 32 (streamPathlen stream)) (arrivalOf stream h).body⟩
        else ⟨⟨some room.2, room.2⟩, none, new ++ [.copy 0 sizeofMsg sizeofMsg]⟩ := by
      simp only [ReceiveSizes.receive, arrivalOf, if_neg hhead, hgrow, hzero]
    rw [hreceive, hpad, Option.bind_some]
    refine ⟨?_, fun r hr => ?_⟩
    · split
      · next hlen =>
        rw [readPath_isSome hmem hlen, fit_append, fit_cons]
        exact ⟨fun hfit => ⟨hnew, hheader, hfit⟩, fun hfit => hfit.2.2⟩
      · next hlen =>
        have hlen : ¬ (headerCodec.decode (stream.take offsetofPath)).pathlen ≠ 0 := hlen
        rw [readPath, if_neg hlen, fit_append, fit_cons]
        exact iff_of_true rfl ⟨hnew, hheader, fit_nil⟩
    · rw [readPath_sizes hmem hr]
      split <;> rfl

end Pseudo

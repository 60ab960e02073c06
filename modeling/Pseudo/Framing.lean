import Pseudo.Client
import Pseudo.Database
import Pseudo.Library.Codec

/-!
# Messages on a stream: `pseudo_ipc.c`

`pseudo_msg_send`, `pseudo_msg_receive` and `pseudo_msg_new`, byte by byte. A message is the
header as it lies in memory and `pathlen` bytes behind it. The receiver keeps one buffer, which
it replaces when a path does not fit. Reads and writes deliver full amounts, and both ends run on
one machine, so they agree on the layout of the header.

What C leaves undetermined is an argument: the memory that `malloc` returns, and the padding at
the end of `pseudo_msg_t`, which overlaps the first bytes of the path. A write beyond the end of
the buffer has no result.

Results:
1. `headerCodec`: a header is read back as it was sent.
2. `receive_send`: one message is received as it was sent, whatever the buffer went through.
3. `framing_roundtrip`: so is a sequence of messages.
4. `received_of_request`: what the server receives of a client's request.
-/

namespace Pseudo

/-! ## The header in memory -/

def MsgType.number : MsgType → Nat
  | .none => 0 | .ping => 1 | .shutdown => 2 | .op => 3 | .ack => 4 | .nak => 5 | .fastop => 6

def MsgType.ofNumber : Nat → MsgType
  | 1 => .ping | 2 => .shutdown | 3 => .op | 4 => .ack | 5 => .nak | 6 => .fastop | _ => .none

def Res.number : Res → Nat
  | .none => 0 | .succeed => 1 | .fail => 2 | .error => 3 | .abort => 4

def Res.ofNumber : Nat → Res
  | 1 => .succeed | 2 => .fail | 3 => .error | 4 => .abort | _ => .none

/-- The operations in the order of `enums/op.in`. -/
def Op.table : List Op :=
  [.none, .chdir, .chmod, .chown, .chroot, .close, .creat, .dup, .fchmod, .fchown, .fstat, .link,
    .mkdir, .mknod, .open, .rename, .stat, .unlink, .symlink, .exec, .mayUnlink, .didUnlink,
    .cancelUnlink, .getXattr, .listXattr, .removeXattr, .setXattr, .createXattr, .replaceXattr,
    .closefrom]

def Op.number : Op → Int
  | .other n => n
  | op => Op.table.idxOf op

def Op.ofNumber (n : Int) : Op :=
  if 0 ≤ n then Op.table[n.toNat]?.getD (.other n) else .other n

/-- A number that is no operation's name is one that an `int` holds and that no name has. -/
def Op.IsCode : Op → Prop
  | .other n => -2 ^ 31 ≤ n ∧ n < 2 ^ 31 ∧ Op.ofNumber n = .other n
  | _ => True

instance (op : Op) : Decidable op.IsCode := by
  cases op
  case other n => exact inferInstanceAs (Decidable (_ ∧ _ ∧ _))
  all_goals exact inferInstanceAs (Decidable True)

theorem Op.ofNumber_number {op : Op} (h : op.IsCode) :
    (BitVec.ofInt 32 op.number).toInt = op.number ∧ Op.ofNumber op.number = op := by
  cases op
  case other n =>
    obtain ⟨hlow, hhigh, hname⟩ := h
    refine ⟨?_, hname⟩
    show (BitVec.ofInt 32 n).toInt = n
    rw [BitVec.toInt_ofInt]
    exact Int.bmod_eq_of_le_mul_two (by omega) (by omega)
  all_goals decide

def typeCodec : Codec MsgType :=
  (Codec.nat 4).via MsgType.number MsgType.ofNumber (fun _ => True) fun t _ => by
    cases t <;> exact ⟨by decide, rfl⟩

def resCodec : Codec Res :=
  (Codec.nat 4).via Res.number Res.ofNumber (fun _ => True) fun r _ => by
    cases r <;> exact ⟨by decide, rfl⟩

/-- `int`, `uid_t` and `gid_t`. -/
def intCodec : Codec (BitVec 32) := Codec.bitVec 32 4 (by decide)

/-- `dev_t` and `unsigned long long`. -/
def longCodec : Codec (BitVec 64) := Codec.bitVec 64 8 (by decide)

def opCodec : Codec Op :=
  intCodec.via (fun op => BitVec.ofInt 32 op.number) (fun v => Op.ofNumber v.toInt) Op.IsCode
    fun _ h => ⟨trivial, by
      obtain ⟨hint, hop⟩ := Op.ofNumber_number h
      rw [hint, hop]⟩

/-- Every field holds a value of its C type. -/
structure MsgHeader.Fits (h : MsgHeader) : Prop where
  op : h.op.IsCode
  pathlen : h.pathlen < 2 ^ 32

/-- `pseudo_msg_t` up to its `path`, field by field; there is no padding between them. -/
def headerCodec : Codec MsgHeader :=
  (typeCodec.pair <| opCodec.pair <| resCodec.pair <| intCodec.pair <| intCodec.pair <|
    intCodec.pair <| longCodec.pair <| longCodec.pair <| intCodec.pair <| intCodec.pair <|
    longCodec.pair <| longCodec.pair <| (Codec.nat 4).pair <| intCodec.pair intCodec).via
    (fun h => (h.type, h.op, h.result, h.access, h.client, h.fd, h.dev, h.ino, h.uid, h.gid,
      h.mode, h.rdev, h.pathlen, h.nlink, h.deleting))
    (fun (type, op, result, access, client, fd, dev, ino, uid, gid, mode, rdev, pathlen, nlink,
      deleting) => ⟨type, op, result, access, client, fd, dev, ino, uid, gid, mode, rdev, pathlen,
        nlink, deleting⟩)
    MsgHeader.Fits fun _ h => ⟨⟨trivial, h.op, trivial, trivial, trivial, trivial, trivial,
      trivial, trivial, trivial, trivial, trivial, h.pathlen, trivial, trivial⟩, rfl⟩

/-- `PSEUDO_HEADER_SIZE`. -/
theorem headerCodec_width : headerCodec.width = offsetofPath := rfl

/-! ## Sending -/

/-- A message in memory: its header, and the bytes from `path` on. -/
structure MsgMemory where
  hdr : MsgHeader
  mem : Bytes
  deriving DecidableEq, Repr

/-- `(size_t) -1`. -/
def sizeMax : Nat := 2 ^ 64 - 1

/-- What `pseudo_msg_send` leaves in the header, what it writes, and what it returns. -/
structure Sent where
  hdr : MsgHeader
  bytes : Bytes
  status : Int
  deriving DecidableEq, Repr

/-- The bytes written are counted in an `int`. -/
def sent (hdr : MsgHeader) (bytes : Bytes) : Sent where
  hdr := hdr
  bytes := bytes
  status :=
    if (BitVec.ofNat 32 bytes.length).signExtend 64 ≠ BitVec.ofNat 64 (offsetofPath + hdr.pathlen)
    then 1 else 0

/-- `path` is the memory that the argument points at, if it is not null. -/
def pseudoMsgSend (msg : MsgMemory) (len : Nat) (path : Option Bytes) : Sent :=
  match path with
  | some path =>
    let len := if len = sizeMax then (cstr path).length + 1 else len
    let hdr := { msg.hdr with pathlen := len % 2 ^ 32 }
    sent hdr (headerCodec.encode hdr ++ path.take len)
  | none => sent msg.hdr (headerCodec.encode msg.hdr ++ msg.mem.take msg.hdr.pathlen)

/-- The three ways in which a message is sent. -/
inductive Sending
  | external (msg : MsgMemory) (path : Bytes) (len : Nat)
  | terminated (msg : MsgMemory) (path : Bytes)
  | embedded (msg : MsgMemory)

def Sending.send : Sending → Sent
  | .external msg path len => pseudoMsgSend msg len (some path)
  | .terminated msg path => pseudoMsgSend msg sizeMax (some path)
  | .embedded msg => pseudoMsgSend msg 0 none

/-- The path that is meant. -/
def Sending.path : Sending → Bytes
  | .external _ path len => path.take len
  | .terminated _ path => cstr path ++ [0]
  | .embedded msg => msg.mem.take msg.hdr.pathlen

def Sending.msg : Sending → MsgMemory
  | .external msg _ _ | .terminated msg _ | .embedded msg => msg

/-- The memory that is read is there. -/
def Sending.InBounds : Sending → Prop
  | .external _ path len => len ≤ path.length
  | .terminated _ path => 0 ∈ path
  | .embedded msg => msg.hdr.pathlen ≤ msg.mem.length

structure Sending.Valid (s : Sending) : Prop where
  op : s.msg.hdr.op.IsCode
  memory : s.InBounds
  short : s.path.length < 2 ^ 31 - 256

/-! ## Receiving -/

/-- What C leaves undetermined in a call: the memory that `malloc` returns, and the four bytes of
padding that `*incoming = header` may put over the start of the path. -/
structure Undetermined where
  malloc : Nat → Bytes
  padding : Bytes
  malloc_length : ∀ n, (malloc n).length = n
  padding_length : padding.length = 4

/-- `incoming` and `incoming_pathlen`; of the buffer only the memory behind the header is kept. -/
structure ReceiveBuffer where
  incoming : Option Bytes
  incomingPathlen : Nat
  deriving DecidableEq, Repr

/-- Before the first message. -/
def ReceiveBuffer.start : ReceiveBuffer := ⟨none, 0⟩

/-- `pseudo_msg_new(pathlen, 0)`. The structure ends four bytes behind the start of its path. -/
def pseudoMsgNew (u : Undetermined) (pathlen : Nat) : Bytes :=
  let mem := u.malloc (4 + pathlen)
  if pathlen ≠ 0 then mem.set (pathlen - 1) 0 else mem

/-- Bytes written into memory. -/
def overwrite (mem : Bytes) (at_ : Nat) (bytes : Bytes) : Option Bytes :=
  if at_ + bytes.length ≤ mem.length then
    some (mem.take at_ ++ bytes ++ mem.drop (at_ + bytes.length))
  else none

/-- What a call leaves: the buffer, the message returned, if any, and what is left to read. -/
structure Receipt where
  buffer : ReceiveBuffer
  msg : Option MsgMemory
  stream : Bytes
  deriving DecidableEq, Repr

/-- The buffer for a path of the length in the header. -/
def makeRoom (u : Undetermined) (b : ReceiveBuffer) (pathlen : Nat) : Bytes × Nat :=
  let size := (pathlen + 128) % 2 ^ 32
  match b.incoming with
  | some mem =>
    if b.incomingPathlen ≤ pathlen then (pseudoMsgNew u size, size) else (mem, b.incomingPathlen)
  | none => (pseudoMsgNew u size, size)

def pseudoMsgReceive (u : Undetermined) (b : ReceiveBuffer) (stream : Bytes) : Option Receipt :=
  let head := stream.take offsetofPath
  let stream := stream.drop offsetofPath
  if head.length < offsetofPath then some ⟨b, none, stream⟩
  else
    let header := headerCodec.decode head
    let (mem, size) := makeRoom u b header.pathlen
    (overwrite mem 0 u.padding).bind fun mem =>
      if header.pathlen ≠ 0 then
        let body := stream.take header.pathlen
        let stream := stream.drop header.pathlen
        (overwrite mem 0 body).bind fun mem =>
          if (body.length : Int) < (BitVec.ofNat 32 header.pathlen).toInt then
            some ⟨⟨some mem, size⟩, none, stream⟩
          else
            -- ensure null termination
            (overwrite mem body.length [0]).map fun mem =>
              ⟨⟨some mem, size⟩, some ⟨header, mem⟩, stream⟩
      else some ⟨⟨some mem, size⟩, some ⟨header, mem⟩, stream⟩

/-- One call for each message. -/
def receiveAll : List Undetermined → ReceiveBuffer → Bytes →
    Option (List (Option MsgMemory) × ReceiveBuffer × Bytes)
  | [], b, stream => some ([], b, stream)
  | u :: us, b, stream =>
    (pseudoMsgReceive u b stream).bind fun r =>
      (receiveAll us r.buffer r.stream).map fun (msgs, b, stream) => (r.msg :: msgs, b, stream)

/-- The stream that the messages make. -/
def sendAll (msgs : List Sending) : Bytes := msgs.flatMap fun s => s.send.bytes

/-! ## One message -/

/-- The header is the one that was sent, with the length of the path, and the path is followed
by a NUL. -/
structure Delivers (s : Sending) (m : MsgMemory) : Prop where
  hdr : m.hdr = { s.msg.hdr with pathlen := s.path.length }
  path : s.path ≠ [] → m.mem.take (s.path.length + 1) = s.path ++ [0]

/-- The capacity that is remembered is that of the buffer. -/
def ReceiveBuffer.Good (b : ReceiveBuffer) : Prop :=
  ∀ mem, b.incoming = some mem → mem.length = 4 + b.incomingPathlen

theorem good_start : ReceiveBuffer.start.Good := fun _ h => nomatch h

namespace FramingLemmas

theorem length_pseudoMsgNew (u : Undetermined) (pathlen : Nat) :
    (pseudoMsgNew u pathlen).length = 4 + pathlen := by
  unfold pseudoMsgNew
  split
  · rw [List.length_set, u.malloc_length]
  · exact u.malloc_length _

/-- A buffer that holds a NUL is a C string, the NUL, and what is behind it. -/
theorem eq_cstr_append {b : Bytes} (h : 0 ∈ b) : ∃ tail, b = cstr b ++ 0 :: tail := by
  induction b with
  | nil => exact absurd h List.not_mem_nil
  | cons c b ih =>
    rcases Decidable.em (c = 0) with rfl | hc
    · exact ⟨b, rfl⟩
    · obtain ⟨tail, htail⟩ := ih ((List.mem_cons.mp h).resolve_left (Ne.symm hc))
      refine ⟨tail, ?_⟩
      have hcons : cstr (c :: b) = c :: cstr b := List.takeWhile_cons_of_pos (by simpa using hc)
      rw [hcons, List.cons_append, ← htail]

theorem overwrite_fits (mem : Bytes) (at_ : Nat) (bytes : Bytes)
    (h : at_ + bytes.length ≤ mem.length) :
    ∃ mem', overwrite mem at_ bytes = some mem' ∧ mem'.length = mem.length ∧
      mem'.take (at_ + bytes.length) = mem.take at_ ++ bytes := by
  have htake : (mem.take at_).length = at_ := by
    rw [List.length_take]
    omega
  refine ⟨_, if_pos h, ?_, ?_⟩
  · rw [List.length_append, List.length_append, htake, List.length_drop]
    omega
  · rw [List.take_left' (by rw [List.length_append, htake])]

/-- The buffer has room for the path and a NUL, and for the padding of the header. -/
theorem makeRoom_room (u : Undetermined) {b : ReceiveBuffer} {pathlen : Nat} (hb : b.Good)
    (h : pathlen < 2 ^ 31 - 256) :
    (makeRoom u b pathlen).1.length = 4 + (makeRoom u b pathlen).2 ∧
      pathlen < (makeRoom u b pathlen).2 := by
  have hsize : (pathlen + 128) % 2 ^ 32 = pathlen + 128 := Nat.mod_eq_of_lt (by omega)
  have hnew : (pseudoMsgNew u (pathlen + 128)).length = 4 + (pathlen + 128) ∧
      pathlen < pathlen + 128 := ⟨length_pseudoMsgNew u _, by omega⟩
  unfold makeRoom
  rw [hsize]
  rcases hin : b.incoming with _ | mem
  · exact hnew
  · by_cases hle : b.incomingPathlen ≤ pathlen
    · simpa [hle] using hnew
    · simpa [hle] using ⟨hb mem hin, by omega⟩

theorem signExtend_ofNat {n : Nat} (h : n < 2 ^ 31) :
    (BitVec.ofNat 32 n).signExtend 64 = BitVec.ofNat 64 n := by
  have hmod : n % 2 ^ 32 = n := Nat.mod_eq_of_lt (by omega)
  have hmsb : (BitVec.ofNat 32 n).msb = false := by
    rw [BitVec.msb_eq_false_iff_two_mul_lt, BitVec.toNat_ofNat, hmod]
    omega
  rw [BitVec.signExtend_eq_setWidth_of_msb_false hmsb]
  apply BitVec.eq_of_toNat_eq
  rw [BitVec.toNat_setWidth, BitVec.toNat_ofNat, BitVec.toNat_ofNat, hmod]

theorem send_eq {s : Sending} (h : s.Valid) :
    s.send = sent { s.msg.hdr with pathlen := s.path.length }
      (headerCodec.encode { s.msg.hdr with pathlen := s.path.length } ++ s.path) := by
  have hmemory := h.memory
  cases s with
  | external msg path len =>
    have hlen : (path.take len).length = len := List.length_take_of_le hmemory
    have hshort : len < 2 ^ 31 - 256 := hlen ▸ h.short
    have hmax : len ≠ sizeMax := by
      unfold sizeMax
      omega
    show pseudoMsgSend msg len (some path) = _
    simp only [Sending.msg, Sending.path, pseudoMsgSend, if_neg hmax, hlen,
      Nat.mod_eq_of_lt (show len < 2 ^ 32 by omega)]
  | terminated msg path =>
    have hlen : (cstr path ++ [0]).length = (cstr path).length + 1 := by
      rw [List.length_append, List.length_singleton]
    have hshort : (cstr path).length + 1 < 2 ^ 31 - 256 := hlen ▸ h.short
    have htake : path.take ((cstr path).length + 1) = cstr path ++ [0] := by
      obtain ⟨tail, htail⟩ := eq_cstr_append hmemory
      calc path.take ((cstr path).length + 1)
          = (cstr path ++ 0 :: tail).take ((cstr path).length + 1) := congrArg _ htail
        _ = (cstr path ++ [0] ++ tail).take (cstr path ++ [0]).length := by
            rw [hlen, List.append_assoc, List.singleton_append]
        _ = cstr path ++ [0] := List.take_left
    show pseudoMsgSend msg sizeMax (some path) = _
    simp only [Sending.msg, Sending.path, pseudoMsgSend, if_pos, hlen, htake,
      Nat.mod_eq_of_lt (show (cstr path).length + 1 < 2 ^ 32 by omega)]
  | embedded msg =>
    have hlen : (msg.mem.take msg.hdr.pathlen).length = msg.hdr.pathlen :=
      List.length_take_of_le hmemory
    show pseudoMsgSend msg 0 none = _
    simp only [Sending.msg, Sending.path, pseudoMsgSend, hlen]

end FramingLemmas

open FramingLemmas

theorem Sending.Valid.fits {s : Sending} (h : s.Valid) :
    MsgHeader.Fits { s.msg.hdr with pathlen := s.path.length } :=
  ⟨h.op, Nat.lt_trans h.short (by decide)⟩

/-- The sender sees that everything went out. -/
theorem send_status {s : Sending} (h : s.Valid) : s.send.status = 0 := by
  have hshort := h.short
  have hoffset : offsetofPath = 76 := rfl
  rw [send_eq h]
  simp only [sent]
  refine if_neg (not_not_intro ?_)
  rw [List.length_append, headerCodec.length_encode, headerCodec_width]
  exact signExtend_ofNat (by omega)

/-- A message is received as it was sent, into any buffer that earlier messages left. -/
theorem receive_send (u : Undetermined) {b : ReceiveBuffer} {s : Sending} (rest : Bytes)
    (hb : b.Good) (h : s.Valid) :
    ∃ b' m, pseudoMsgReceive u b (s.send.bytes ++ rest) = some ⟨b', some m, rest⟩ ∧ b'.Good ∧
      Delivers s m := by
  let header : MsgHeader := { s.msg.hdr with pathlen := s.path.length }
  have hbytes : s.send.bytes = headerCodec.encode header ++ s.path := by rw [send_eq h]; rfl
  have hlen : (headerCodec.encode header).length = offsetofPath := headerCodec.length_encode _
  have hhead : (s.send.bytes ++ rest).take offsetofPath = headerCodec.encode header := by
    rw [hbytes, List.append_assoc, List.take_left' hlen]
  have htail : (s.send.bytes ++ rest).drop offsetofPath = s.path ++ rest := by
    rw [hbytes, List.append_assoc, List.drop_left' hlen]
  have hdecode : headerCodec.decode (headerCodec.encode header) = header := by
    have := headerCodec.decode_encode header [] h.fits
    rwa [List.append_nil] at this
  obtain ⟨hroom, hfits⟩ := makeRoom_room u hb h.short
  rcases hmake : makeRoom u b s.path.length with ⟨mem, size⟩
  rw [hmake] at hroom hfits
  have hroom : mem.length = 4 + size := hroom
  have hfits : s.path.length < size := hfits
  -- `*incoming = header`
  obtain ⟨mem₁, hpad, hlen₁, -⟩ := overwrite_fits mem 0 u.padding
    (by rw [u.padding_length]; omega)
  unfold pseudoMsgReceive
  simp only [hhead, htail, hdecode, hlen, Nat.lt_irrefl, if_false]
  show ∃ b' m, ((let (mem, size) := makeRoom u b s.path.length; _) : Option Receipt) = _ ∧ _
  rw [hmake]
  simp only [hpad, Option.bind_some]
  rcases Decidable.em (s.path = []) with hnil | hne
  · have hzero : header.pathlen = 0 := congrArg List.length hnil
    refine ⟨⟨some mem₁, size⟩, ⟨header, mem₁⟩, ?_, ?_, ⟨rfl, fun hne => absurd hnil hne⟩⟩
    · rw [if_neg (not_not_intro hzero), hnil, List.nil_append]
    · rintro _ ⟨⟩
      exact hlen₁.trans hroom
  · have hpos : header.pathlen ≠ 0 := fun hzero => hne (List.length_eq_zero_iff.mp hzero)
    have hbody : (s.path ++ rest).take header.pathlen = s.path := List.take_left
    have hrest : (s.path ++ rest).drop header.pathlen = rest := List.drop_left
    obtain ⟨mem₂, hpath, hlen₂, htake₂⟩ := overwrite_fits mem₁ 0 s.path
      (by omega)
    obtain ⟨mem₃, hnul, hlen₃, htake₃⟩ := overwrite_fits mem₂ s.path.length [0]
      (by rw [List.length_singleton]; omega)
    have hread : ¬ (s.path.length : Int) < (BitVec.ofNat 32 header.pathlen).toInt := by
      have hshort : s.path.length < 2 ^ 31 - 256 := h.short
      have hmod : s.path.length % 2 ^ 32 = s.path.length := Nat.mod_eq_of_lt (by omega)
      rw [BitVec.toInt_eq_toNat_of_lt (by rw [BitVec.toNat_ofNat, hmod]; omega),
        BitVec.toNat_ofNat, hmod]
      exact Int.lt_irrefl _
    refine ⟨⟨some mem₃, size⟩, ⟨header, mem₃⟩, ?_, ?_, ⟨rfl, fun _ => ?_⟩⟩
    · rw [if_pos hpos]
      simp only [hbody, hrest, hpath, Option.bind_some, if_neg hread, hnul, Option.map_some]
    · rintro _ ⟨⟩
      exact hlen₃.trans (hlen₂.trans (hlen₁.trans hroom))
    · show mem₃.take (s.path.length + 1) = s.path ++ [0]
      rw [Nat.zero_add, List.take_zero, List.nil_append] at htake₂
      rw [htake₂] at htake₃
      exact htake₃

/-! ## Any number of messages -/

theorem receiveAll_sendAll (msgs : List (Sending × Undetermined)) {b : ReceiveBuffer}
    (rest : Bytes) (hb : b.Good) (h : ∀ m ∈ msgs, m.1.Valid) :
    ∃ received b', receiveAll (msgs.map Prod.snd) b (sendAll (msgs.map Prod.fst) ++ rest) =
      some (received.map some, b', rest) ∧
      List.Forall₂ Delivers (msgs.map Prod.fst) received := by
  induction msgs generalizing b with
  | nil => exact ⟨[], b, rfl, .nil⟩
  | cons m msgs ih =>
    obtain ⟨b₁, received, hone, hb₁, hdelivers⟩ :=
      receive_send m.2 (sendAll (msgs.map Prod.fst) ++ rest) hb (h m List.mem_cons_self)
    obtain ⟨tail, b₂, hrest, hall⟩ := ih hb₁ fun m' hm' => h m' (List.mem_cons_of_mem m hm')
    refine ⟨received :: tail, b₂, ?_, .cons hdelivers hall⟩
    have hstream : sendAll ((m :: msgs).map Prod.fst) ++ rest =
        m.1.send.bytes ++ (sendAll (msgs.map Prod.fst) ++ rest) := by
      rw [← List.append_assoc]
      rfl
    rw [hstream]
    simp only [List.map_cons, receiveAll, hone, Option.bind_some, hrest, Option.map_some]

/-- Whatever is sent is received, in order, each path with a NUL behind it, and nothing of what
follows is read. -/
theorem framing_roundtrip (msgs : List (Sending × Undetermined)) (rest : Bytes)
    (h : ∀ m ∈ msgs, m.1.Valid) :
    (∀ m ∈ msgs, m.1.send.status = 0) ∧
    ∃ received b, receiveAll (msgs.map Prod.snd) .start (sendAll (msgs.map Prod.fst) ++ rest) =
      some (received.map some, b, rest) ∧
      List.Forall₂ Delivers (msgs.map Prod.fst) received :=
  ⟨fun m hm => send_status (h m hm), receiveAll_sendAll msgs rest good_start h⟩

/-- Memory that was used before. -/
def usedMemory : Undetermined where
  malloc := fun n => List.replicate n 170
  padding := [1, 2, 3, 4]
  malloc_length := fun _ => List.length_replicate
  padding_length := rfl

/-- A path of 300 bytes, a ping without a path, a C string, and the answer behind them. -/
theorem framing_roundtrip_mixed :
    ∃ msgs : List (Sending × Undetermined), msgs.length = 4 ∧
      ∃ received b,
        receiveAll (msgs.map Prod.snd) .start (sendAll (msgs.map Prod.fst) ++ [9, 9]) =
          some (received.map some, b, [9, 9]) ∧
        List.Forall₂ Delivers (msgs.map Prod.fst) received := by
  let msgs : List (Sending × Undetermined) :=
    [(.external ⟨{ MsgHeader.zero with op := .stat }, []⟩ (List.replicate 301 65) 300, usedMemory),
      (.embedded ⟨{ MsgHeader.zero with type := .ping }, []⟩, usedMemory),
      (.terminated ⟨MsgHeader.zero, []⟩ [47, 97, 0, 98], usedMemory),
      (.embedded ⟨{ MsgHeader.zero with type := .ack, pathlen := 2 }, [7, 8, 9]⟩, usedMemory)]
  refine ⟨msgs, rfl, (framing_roundtrip msgs [9, 9] ?_).2⟩
  intro m hm
  simp only [msgs, List.mem_cons, List.not_mem_nil, or_false] at hm
  rcases hm with rfl | rfl | rfl | rfl
  · refine ⟨by decide, ?_, ?_⟩
    · show 300 ≤ (List.replicate 301 65).length
      rw [List.length_replicate]
      decide
    · show ((List.replicate 301 65).take 300).length < _
      rw [List.length_take, List.length_replicate]
      decide
  all_goals exact ⟨by decide, by unfold Sending.InBounds; decide, by decide⟩

/-! ## A client's request -/

/-- What `pseudo_client_request` sends. -/
def ClientRequest.sending (r : ClientRequest) : Sending :=
  .external ⟨r.hdr, []⟩ r.path r.path.length

/-- The server reads the request as `ClientRequest.received` has it; what is left over is what is
in the buffer behind it. -/
theorem received_of_request (u : Undetermined) {b : ReceiveBuffer} (r : ClientRequest)
    (rest : Bytes) (hb : b.Good) (hop : r.hdr.op.IsCode) (h : r.path.length < 2 ^ 31 - 256) :
    ∃ b' leftover, pseudoMsgReceive u b (r.sending.send.bytes ++ rest) =
      some ⟨b', some ⟨r.hdr, (r.received leftover).buffer⟩, rest⟩ ∧ b'.Good := by
  have hpath : r.sending.path = r.path := List.take_length
  obtain ⟨b', m, hreceive, hb', hdelivers⟩ :=
    receive_send u rest hb (⟨hop, Nat.le_refl _, hpath ▸ h⟩ : r.sending.Valid)
  have hhdr : m.hdr = r.hdr := by
    rw [hdelivers.hdr, hpath]
    show { r.hdr with pathlen := r.path.length } = r.hdr
    rw [r.path_length]
  rcases Decidable.em (r.path = []) with hnil | hne
  · refine ⟨b', m.mem, ?_, hb'⟩
    have hbuffer : (r.received m.mem).buffer = m.mem := if_pos hnil
    rw [hreceive, hbuffer, ← hhdr]
  · have htake := hdelivers.path (hpath ▸ hne)
    rw [hpath] at htake
    refine ⟨b', m.mem.drop (r.path.length + 1), ?_, hb'⟩
    have hbuffer : (r.received (m.mem.drop (r.path.length + 1))).buffer = m.mem := by
      refine (if_neg hne).trans ?_
      show r.path ++ 0 :: m.mem.drop (r.path.length + 1) = m.mem
      rw [← List.singleton_append, ← List.append_assoc, ← htake, List.take_append_drop]
    rw [hreceive, hbuffer, ← hhdr]

end Pseudo

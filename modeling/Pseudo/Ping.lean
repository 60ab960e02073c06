import Pseudo.Library.Heap
import Pseudo.ServeClient

/-!
# The ping of a new client

`client_ping` prints the name of the program and `PSEUDO_TAG`, with a NUL between them, into a
buffer of `pseudo_path_max` bytes, and sends as many bytes as `snprintf` would have liked to write.
The server takes both texts out of the first ping of a connection.

Results:
1. `clientPing_eq`: what is sent, and how long it is said to be.
2. `registerClient_ping`: what the server makes of two texts with a NUL between them.
3. `pingDelivers_iff`: for which names and tags both arrive.
4. `ping_long_tag`: a tag for which the client sends a byte from behind its buffer.
-/

namespace Pseudo

open Heap

/-! ## 1. The code -/

/-- `pseudo_path_max`; `pathconf`: what `pathconf("/", _PC_PATH_MAX)` returns. -/
def pseudoPathMax (pathconf : Int) : Nat :=
  if pathconf < 0 then 256
  else if pathconf ≤ 16384 then pathconf.toNat
  else 16384

theorem pseudoPathMax_le (pathconf : Int) : pseudoPathMax pathconf ≤ 16384 := by
  unfold pseudoPathMax
  split
  · decide
  · split <;> omega

/-- `tagbuf`, with what happens to be on the stack. -/
def tagBuffer (pathconf : Int) (stack : Nat → Byte) : Chunk Byte 1 where
  size := pseudoPathMax pathconf
  cells := stack
  size_lt := by
    have hle := pseudoPathMax_le pathconf
    omega

/-- `program_invocation_name`, or else a text that stands for it. -/
def pingProgram (program : Option Bytes) : Bytes := program.getD (ascii "<unknown>".toList)

/-- `"%s%c%s"` -/
def pingText (program tag : Option Bytes) : Bytes := pingProgram program ++ 0 :: tag.getD []

/-- `client_ping` up to its call of `pseudo_msg_send`. `ping.pathlen` is an `unsigned int`. -/
def clientPing (tagbuf : Chunk Byte 1) (program tag : Option Bytes) (pid : BitVec 32) :
    Except Failure Sending := do
  let (tagbuf, rc) ← tagbuf.print 0 0 tagbuf.size (pingText program tag)
  let pathlen := (BitVec.ofInt 32 rc).toNat
  let ping := { MsgHeader.zero with type := .ping, op := .none, pathlen := pathlen, client := pid }
  .ok (.external ⟨ping, []⟩ (Block.read tagbuf.cells 0 tagbuf.size) pathlen)

/-! ## 2. What it is for -/

/-- What is sent lies in the buffer, the server receives it, whatever its receive buffer went
through, and enters the name and the tag in an entry that has no pid yet, as far as they fit in the
client's buffer with their NUL. -/
def PingDelivers (pathconf : Int) (stack : Nat → Byte) (program tag : Option Bytes)
    (pid : BitVec 32) : Prop :=
  ∃ s, clientPing (tagBuffer pathconf stack) program tag pid = .ok s ∧ s.InBounds ∧
    ∀ (u : Undetermined) (b : ReceiveBuffer) (rest : Bytes), b.Good →
      ∃ b' msg, pseudoMsgReceive u b (s.send.bytes ++ rest) =
          some ⟨b', some ⟨ServerMsg.hdr msg, msg.buffer⟩, rest⟩ ∧
        ∀ (sq : Sqlite) (server : ServerState) (i : Nat),
          i < server.table.clients.length → (server.table.client i).pid = 0 →
          let client := (serveClient sq server i (some msg)).1.table.client i
          client.program = some ((pingProgram program).take (pseudoPathMax pathconf - 1)) ∧
            client.tag = some ((tag.getD []).take
              (pseudoPathMax pathconf - 2 - (pingProgram program).length))

variable {pathconf : Int} {stack : Nat → Byte} {program tag : Option Bytes} {pid : BitVec 32}

namespace PingLemmas

/-! ## 3. The client -/

/-- The header of a ping whose text has the length. -/
def pingHeader (pathlen : Nat) (pid : BitVec 32) : MsgHeader :=
  { MsgHeader.zero with type := .ping, op := .none, pathlen := pathlen, client := pid }

theorem toNat_printed {s : Bytes} (h : s.length < 2 ^ 31) :
    (BitVec.ofInt 32 (printed s)).toNat = s.length := by
  rw [printed, if_pos h, BitVec.ofInt_natCast, BitVec.toNat_ofNat]
  exact Nat.mod_eq_of_lt (by omega)

theorem le_toNat_printed {s : Bytes} {n : Nat} (hn : n ≤ 16384) (h : n < s.length) :
    n < (BitVec.ofInt 32 (printed s)).toNat := by
  rcases Nat.lt_or_ge s.length (2 ^ 31) with hlt | hge
  · rwa [toNat_printed hlt]
  · rw [printed, if_neg (Nat.not_lt.mpr hge)]
    exact Nat.lt_of_le_of_lt hn (by decide)

end PingLemmas

open PingLemmas

/-- The buffer is filled as far as it goes, but the length that is sent is that of the text. -/
theorem clientPing_eq (pathconf : Int) (stack : Nat → Byte) (program tag : Option Bytes)
    (pid : BitVec 32) :
    ∃ path, clientPing (tagBuffer pathconf stack) program tag pid =
        .ok (.external ⟨pingHeader (BitVec.ofInt 32 (printed (pingText program tag))).toNat pid, []⟩
          path (BitVec.ofInt 32 (printed (pingText program tag))).toNat) ∧
      path.length = pseudoPathMax pathconf ∧
      (0 < pseudoPathMax pathconf →
        (pingText program tag).take (pseudoPathMax pathconf - 1) ++ [0] <+: path) := by
  have hzero := filled_nil (tagBuffer pathconf stack)
  rcases Nat.eq_zero_or_pos (pseudoPathMax pathconf) with hmax | hmax
  · have hsize : (tagBuffer pathconf stack).size = 0 := hmax
    refine ⟨Block.read stack 0 (pseudoPathMax pathconf), ?_, Block.length_read .., by omega⟩
    rw [clientPing, Chunk.print, if_pos hsize]
    rfl
  · obtain ⟨c, hprint, hsize, hfilled⟩ := hzero.print 0 (pingText program tag)
      (n := pseudoPathMax pathconf) hmax (Nat.le_of_eq (Nat.zero_add _))
    have hlen : c.size = pseudoPathMax pathconf := hsize
    refine ⟨Block.read c.cells 0 c.size, ?_, by rw [Block.length_read, hlen], fun _ => ?_⟩
    · rw [List.length_nil] at hprint
      rw [clientPing]
      show (Chunk.print 0 (tagBuffer pathconf stack) 0 (pseudoPathMax pathconf) _ >>= _) = _
      rw [hprint]
      rfl
    · rw [List.nil_append] at hfilled
      exact (Block.prefix_read_iff hfilled.room).mpr hfilled.holds

namespace PingLemmas

theorem take_past (prog s : Bytes) (m : Nat) :
    (prog ++ 0 :: s).take (prog.length + 1 + m) = prog ++ 0 :: s.take m := by
  rw [Nat.add_assoc, Nat.add_comm 1 m, List.take_length_add_append, List.take_succ_cons]

/-- The bytes that are sent when the length is no more than the buffer: the tag loses its last
character if there is no room for the NUL behind it. -/
theorem sent_text {prog tag : Bytes} {n : Nat} (h : prog.length + 1 + tag.length ≤ n) :
    ((prog ++ 0 :: tag).take (n - 1) ++ [0]).take (prog.length + 1 + tag.length) =
      prog ++ 0 :: (tag.take (n - 2 - prog.length) ++ [0]).take tag.length := by
  rcases Nat.lt_or_ge (prog.length + 1) n with hlt | hge
  · have hcut : n - 1 = prog.length + 1 + (n - 2 - prog.length) := by omega
    rw [hcut, take_past, List.append_assoc, List.cons_append, take_past]
  · -- there is no tag, and the NUL between the texts is the last byte of the buffer
    obtain rfl : tag = [] := List.eq_nil_of_length_eq_zero (by omega)
    have hcut : n - 1 = prog.length := by
      rw [List.length_nil] at h
      omega
    rw [hcut, List.take_left]
    exact take_past prog [] 0

/-- The receiver sees the tag up to the first NUL. -/
theorem cstr_cut {tag : Bytes} (htag : IsCString tag) (n : Nat) :
    cstr ((tag.take n ++ [0]).take tag.length) = tag.take n := by
  have hcut : IsCString (tag.take n) := fun hmem => htag (List.mem_of_mem_take hmem)
  rcases Nat.lt_or_ge n tag.length with hlt | hge
  · rw [List.take_of_length_le (by simp; omega)]
    exact cstr_append_nul hcut []
  · rw [List.take_of_length_le hge, List.take_left]
    exact List.takeWhile_eq_self_iff.mpr fun c hc => by
      simpa using fun h : c = 0 => htag (h ▸ hc)

theorem cstr_append_zero (t rest : Bytes) : cstr (t ++ 0 :: rest) = cstr t := by
  induction t with
  | nil => rfl
  | cons c t ih =>
    unfold cstr at ih ⊢
    rw [List.cons_append, List.takeWhile_cons, List.takeWhile_cons, ih]

end PingLemmas

/-! ## 4. The server -/

/-- A ping with a text, a NUL and some bytes enters the text as the program, and the bytes up to
their first NUL as the tag. -/
theorem registerClient_ping {c : PseudoClient} {m : ServerMsg} {prog t : Bytes}
    (htype : m.hdr.type = .ping) (hpid : c.pid = 0) (hprog : IsCString prog)
    (hpath : m.path = prog ++ 0 :: t) :
    (registerClient c m).program = some prog ∧ (registerClient c m).tag = some (cstr t) := by
  have hlen : m.hdr.pathlen = prog.length + 1 + t.length := by
    rw [← m.path_length, hpath, List.length_append, List.length_cons]
    omega
  have hbuffer : m.buffer = prog ++ 0 :: (t ++ 0 :: m.leftover) := by
    rw [ServerMsg.buffer, if_neg (by rw [hpath]; simp), hpath, List.append_assoc, List.cons_append]
  have hprogram : cstr m.buffer = prog := by rw [hbuffer, cstr_append_nul hprog]
  have hdrop : m.buffer.drop (prog.length + 1) = t ++ 0 :: m.leftover := by
    rw [hbuffer, ← List.drop_drop, List.drop_left, List.drop_one, List.tail_cons]
  have htag : (cstr t).take (m.hdr.pathlen - prog.length - 1) = cstr t := by
    refine List.take_of_length_le (Nat.le_trans (List.takeWhile_prefix _).length_le ?_)
    omega
  rw [registerClient, if_pos ⟨htype, hpid⟩, if_pos (by omega)]
  simp only [hprogram, hdrop, cstr_append_zero, htag]
  rw [if_pos (by omega)]
  exact ⟨rfl, rfl⟩

namespace PingLemmas

/-- The server's entry after a message. -/
theorem client_serveClient {sq : Sqlite} {server : ServerState} {i : Nat} {m : ServerMsg}
    (hi : i < server.table.clients.length) :
    (serveClient sq server i (some m)).1.table.client i =
      registerClient (server.table.client i) m := by
  rw [serveClient_table, ClientTable.client]
  simp [hi]

/-- A ping that is sent from inside the buffer is received, and the server's buffer holds it. -/
theorem ping_received (pid : BitVec 32) (u : Undetermined) {b : ReceiveBuffer} {path : Bytes}
    {n : Nat} (rest : Bytes) (hb : b.Good) (hpos : 0 < n) (hn : n ≤ path.length)
    (hshort : n ≤ 16384) :
    ∃ b' msg, pseudoMsgReceive u b
        ((Sending.external ⟨pingHeader n pid, []⟩ path n).send.bytes ++ rest) =
          some ⟨b', some ⟨ServerMsg.hdr msg, msg.buffer⟩, rest⟩ ∧
      msg.hdr.type = .ping ∧ msg.path = path.take n := by
  have hlen : (path.take n).length = n := List.length_take_of_le hn
  have hne : path.take n ≠ [] := fun hnil => by rw [hnil, List.length_nil] at hlen; omega
  obtain ⟨b', ⟨hdr, mem⟩, hreceive, _, hdelivers⟩ := receive_send u
    (s := .external ⟨pingHeader n pid, []⟩ path n) rest hb
    ⟨trivial, hn, by
      show (path.take n).length < 2 ^ 31 - 256
      omega⟩
  obtain rfl : hdr = pingHeader n pid := by
    refine hdelivers.hdr.trans ?_
    show { pingHeader n pid with pathlen := (path.take n).length } = _
    rw [hlen]
    rfl
  have htake : mem.take ((path.take n).length + 1) = path.take n ++ [0] := hdelivers.path hne
  have hmem : path.take n ++ 0 :: mem.drop ((path.take n).length + 1) = mem := by
    rw [List.append_cons, ← htake, List.take_append_drop]
  let msg : ServerMsg :=
    ⟨pingHeader n pid, path.take n, mem.drop ((path.take n).length + 1), hlen,
      fun hping => absurd rfl hping⟩
  have hbuffer : msg.buffer = mem := (if_neg hne).trans hmem
  exact ⟨b', msg, by rw [hreceive, hbuffer], rfl, rfl⟩

end PingLemmas

/-! ## 5. Both sides -/

namespace PingLemmas

theorem length_pingText (program tag : Option Bytes) : (pingText program tag).length =
    (pingProgram program).length + 1 + (tag.getD []).length := by
  rw [pingText, List.length_append, List.length_cons]
  omega

/-- Of texts that are too long, more is sent than there is in the buffer. -/
theorem not_pingDelivers (h : pseudoPathMax pathconf < (pingText program tag).length) :
    ¬ PingDelivers pathconf stack program tag pid := by
  rintro ⟨s, hs, hinBounds, _⟩
  obtain ⟨path, hping, hpath, _⟩ := clientPing_eq pathconf stack program tag pid
  obtain rfl := Except.ok.inj (hping.symm.trans hs)
  have hle : (BitVec.ofInt 32 (printed (pingText program tag))).toNat ≤ path.length := hinBounds
  have hlt := le_toNat_printed (pseudoPathMax_le pathconf) h
  omega

theorem pingDelivers_of_le (hprogram : IsCString (pingProgram program))
    (htag : IsCString (tag.getD []))
    (hfit : (pingProgram program).length + 1 + (tag.getD []).length ≤ pseudoPathMax pathconf) :
    PingDelivers pathconf stack program tag pid := by
  have hmax := pseudoPathMax_le pathconf
  obtain ⟨path, hping, hpath, hprefix⟩ := clientPing_eq pathconf stack program tag pid
  have hpathlen : (BitVec.ofInt 32 (printed (pingText program tag))).toNat =
      (pingProgram program).length + 1 + (tag.getD []).length := by
    rw [toNat_printed (by rw [length_pingText]; omega), length_pingText]
  rw [hpathlen] at hping
  refine ⟨_, hping, by rw [Sending.InBounds, hpath]; exact hfit, ?_⟩
  intro u b rest hb
  obtain ⟨b', msg, hreceive, htype, hmsg⟩ := ping_received pid u rest hb
    (by omega) (hpath ▸ hfit) (Nat.le_trans hfit hmax)
  refine ⟨b', msg, hreceive, fun sq server i hi hpid => ?_⟩
  have hsent : msg.path = pingProgram program ++
      0 :: ((tag.getD []).take (pseudoPathMax pathconf - 2 - (pingProgram program).length) ++
        [0]).take (tag.getD []).length := by
    have hroom := length_pingText program tag
    obtain ⟨tail, htail⟩ := hprefix (by omega)
    rw [hmsg, ← htail, List.take_append_of_le_length (by
      rw [List.length_append, List.length_take, List.length_singleton]
      omega)]
    exact sent_text hfit
  obtain ⟨hprog, ht⟩ := registerClient_ping htype hpid hprogram hsent
  rw [client_serveClient hi]
  refine ⟨?_, ht.trans (congrArg some (cstr_cut htag _))⟩
  rw [hprog, List.take_of_length_le (by omega)]

end PingLemmas

/-- The ping delivers its texts exactly when both, and the NUL between them, are no longer than the
client's buffer. -/
theorem pingDelivers_iff (hprogram : IsCString (pingProgram program))
    (htag : IsCString (tag.getD [])) :
    PingDelivers pathconf stack program tag pid ↔
      (pingProgram program).length + 1 + (tag.getD []).length ≤ pseudoPathMax pathconf := by
  refine ⟨fun h => ?_, pingDelivers_of_le hprogram htag⟩
  rcases Nat.lt_or_ge (pseudoPathMax pathconf) (pingText program tag).length with hlong | hfit
  · exact absurd h (not_pingDelivers hlong)
  · rwa [length_pingText] at hfit

theorem pingDelivers_iff_ls : PingDelivers 4096 (fun _ => 7) (some [108, 115]) (some [116]) 12 :=
  (pingDelivers_iff (by decide) (by decide)).mpr (by decide)

/-- A tag that the buffer has no room for: the client sends a byte from behind it. -/
theorem ping_long_tag :
    ¬ PingDelivers 4096 (fun _ => 7) (some [108, 115]) (some (List.replicate 4094 116)) 12 := by
  refine not_pingDelivers ?_
  rw [length_pingText, Option.getD_some, List.length_replicate]
  decide

end Pseudo

import Pseudo.ClientTable
import Pseudo.Framing
import Pseudo.Library.Decimal
import Pseudo.Server

/-!
# Serving a client

`serve_client` of `pseudo_server.c` with `pseudo_server_response`. What the server writes while it
handles a message is the list of its calls of `pseudo_msg_send`, each with the descriptor it
writes to.

Results:
1. `serveClient_replies`: every message is answered once, on the connection that it came from.
2. `serveClient_session`: only the client's own names change.
3. `serveClient_dies`: a shutdown is accepted from the only client.
-/

namespace Pseudo

open ClientTableLemmas

/-! ## What the server receives -/

/-- Like `PseudoMsg`; the NUL behind the second string of a ping is not counted in its path. -/
structure ServerMsg where
  hdr : MsgHeader
  path : Bytes
  leftover : Bytes
  path_length : path.length = hdr.pathlen
  path_nul : hdr.type ≠ .ping → path ≠ [] → path.getLast? = some 0

/-- The receive buffer from `msg->path` on. -/
def ServerMsg.buffer (m : ServerMsg) : Bytes :=
  if m.path = [] then m.leftover else m.path ++ 0 :: m.leftover

/-- The message as `pseudo_op` gets it. -/
def ServerMsg.request (m : ServerMsg) (h : m.hdr.type ≠ .ping) : PseudoMsg :=
  ⟨m.hdr, m.path, m.leftover, m.path_length, m.path_nul h⟩

/-! ## The answer -/

/-- What `pseudo_server_response` leaves and returns. -/
structure Response where
  db : Db
  hdr : MsgHeader
  path : Option Bytes
  status : Int

/-- `logging` is `opt_l`. -/
def pseudoServerResponse (sq : Sqlite) (logging : Bool) (db : Db) (m : ServerMsg) : Response :=
  if hping : m.hdr.type = .ping then
    ⟨db, { m.hdr with result := if logging then .succeed else .fail }, none, 0⟩
  else if m.hdr.type = .op ∨ m.hdr.type = .fastop then
    let out := pseudoOp sq db (m.request hping)
    ⟨out.db, out.msg, out.response, 0⟩
  -- "invalid message"
  else ⟨db, m.hdr, none, 1⟩

/-- A call of `pseudo_msg_send` with `response_path`. -/
structure Reply where
  hdr : MsgHeader
  path : Option Bytes
  deriving DecidableEq, Repr

/-- Without a `response_path`, `pathlen` is 0 and nothing of the buffer is sent. -/
def Reply.sending (r : Reply) : Sending :=
  match r.path with
  | some path => .external ⟨r.hdr, []⟩ path r.hdr.pathlen
  | none => .embedded ⟨r.hdr, []⟩

/-- What `serve_client` reads and changes. -/
structure ServerState where
  table : ClientTable
  db : Db
  timeout : Int
  diePeacefully : Bool
  dieForcefully : Bool
  listenFd : Int
  logging : Bool

/-- `clients[i]`. -/
def ClientTable.client (t : ClientTable) (i : Nat) : PseudoClient := t.clients[i]?.getD .unused

/-- "handle incoming ping". -/
def registerClient (c : PseudoClient) (m : ServerMsg) : PseudoClient :=
  if m.hdr.type = .ping ∧ c.pid = 0 then
    let c := { c with pid := m.hdr.client }
    if m.hdr.pathlen ≠ 0 then
      let program := cstr m.buffer
      let c := { c with program := some program }
      if program.length < m.hdr.pathlen then
        let tag := cstr (m.buffer.drop (program.length + 1))
        { c with tag := some (tag.take (m.hdr.pathlen - program.length - 1)) }
      else c
    else c
  else c

/-- `snprintf(s, 8, "%d ", pid)`: no more than seven characters are written, but `s` advances by
the length of the whole text. -/
def listPid (pid : BitVec 32) : Bytes :=
  let text := Decimal.printInt pid.toInt ++ [32]
  text.take 7 ++ List.replicate (text.length - 7) 0

/-- The process ids of the other clients. -/
def listClients (t : ClientTable) (i : Nat) : Bytes :=
  (List.range' 1 t.highestClient).flatMap fun j =>
    if (t.client j).active ∧ j ≠ i then listPid (t.client j).pid else []

/-- More than two clients, of which the listening socket is one, imply some other active client. -/
def serveShutdown (s : ServerState) (i : Nat) (hdr : MsgHeader) : ServerState × Reply :=
  if 2 < s.table.activeClients then
    let pids := listClients s.table i ++ [0]
    -- exit quickly once clients go away, though
    ({ s with timeout := 3 },
      ⟨{ hdr with type := .nak, fd := BitVec.ofInt 32 (s.table.activeClients - 2),
                  pathlen := pids.length }, some pids⟩)
  else
    ({ s with diePeacefully := true },
      ⟨{ hdr with type := .ack, pathlen := 0, client := BitVec.ofNat 32 i }, none⟩)

/-- The requests that `pseudo_server_response` processes. -/
def serveRequest (sq : Sqlite) (s : ServerState) (i : Nat) (m : ServerMsg) :
    ServerState × Reply :=
  let r := pseudoServerResponse sq s.logging s.db m
  let hdr : MsgHeader :=
    { r.hdr with
      type := if r.status ≠ 0 then .nak else .ack
      client := BitVec.ofNat 32 i
      pathlen := match r.path with
        | some path => path.length % 2 ^ 32
        | none => 0 }
  -- "respond instantly"; the type is no longer that of the request
  if hdr.type = .fastop then
    ({ s with db := r.db }, ⟨{ hdr with type := .ack, pathlen := 0 }, r.path⟩)
  else ({ s with db := r.db }, ⟨hdr, r.path⟩)

/-- `received` is what `pseudo_msg_receive` returns. -/
def serveClient (sq : Sqlite) (s : ServerState) (i : Nat) (received : Option ServerMsg) :
    ServerState × List (Int × Reply) :=
  match received with
  | some m =>
    let c := registerClient (s.table.client i) m
    let s := { s with table := { s.table with clients := s.table.clients.set i c } }
    if m.hdr.type ≠ .shutdown then
      let (s, reply) := serveRequest sq s i m
      (s, [(c.fd, reply)])
    else
      let hdr := if c.pid = 0 then { m.hdr with client := c.pid } else m.hdr
      let (s, reply) := serveShutdown s i hdr
      (s, [(c.fd, reply)])
  | none => ({ s with table := closeClient s.table i }, [])

/-! ## What it does -/

section Serve
variable {sq : Sqlite} {s : ServerState} {i : Nat} {m : ServerMsg} {c : PseudoClient}

@[simp] theorem registerClient_fd (c : PseudoClient) (m : ServerMsg) :
    (registerClient c m).fd = c.fd := by
  unfold registerClient
  split
  · split
    · dsimp only
      split <;> rfl
    · rfl
  · rfl

/-- The branch for `PSEUDO_MSG_FASTOP` is never taken: the type is that of the answer by then. -/
theorem serveRequest_type : (serveRequest sq s i m).2.hdr.type =
    if (pseudoServerResponse sq s.logging s.db m).status ≠ 0 then .nak else .ack := by
  unfold serveRequest
  dsimp only
  split <;> rfl

theorem serveShutdown_type {hdr : MsgHeader} : (serveShutdown s i hdr).2.hdr.type = .ack ∨
    (serveShutdown s i hdr).2.hdr.type = .nak := by
  unfold serveShutdown
  split
  · exact Or.inr rfl
  · exact Or.inl rfl

/-- What is sent of the response is there. -/
theorem serveRequest_inBounds : (serveRequest sq s i m).2.sending.InBounds := by
  unfold serveRequest
  dsimp only
  cases (pseudoServerResponse sq s.logging s.db m).path with
  | none => split <;> exact Nat.le_refl 0
  | some path => split <;> exact Nat.mod_le _ _

theorem serveShutdown_inBounds {hdr : MsgHeader} :
    (serveShutdown s i hdr).2.sending.InBounds := by
  unfold serveShutdown
  split
  · exact Nat.le_refl _
  · exact Nat.le_refl 0

/-- Every message is answered once, on the connection that it came from. -/
theorem serveClient_replies (sq : Sqlite) (s : ServerState) (i : Nat) (m : ServerMsg) :
    ∃ reply, (serveClient sq s i (some m)).2 = [((s.table.client i).fd, reply)] ∧
      (reply.hdr.type = .ack ∨ reply.hdr.type = .nak) ∧ reply.sending.InBounds := by
  unfold serveClient
  dsimp only
  rw [registerClient_fd]
  split
  · refine ⟨_, rfl, ?_, serveRequest_inBounds⟩
    rw [serveRequest_type]
    split
    · exact Or.inr rfl
    · exact Or.inl rfl
  · exact ⟨_, rfl, serveShutdown_type, serveShutdown_inBounds⟩

/-- The table after a message: the client's entry may have got its names. -/
theorem serveClient_table (sq : Sqlite) (s : ServerState) (i : Nat) (m : ServerMsg) :
    (serveClient sq s i (some m)).1.table =
      { s.table with clients := s.table.clients.set i (registerClient (s.table.client i) m) } := by
  unfold serveClient serveRequest serveShutdown
  dsimp only
  split
  · split <;> rfl
  · split <;> rfl

theorem client_of_session (h : s.table.session i = some c) : s.table.client i = c := by
  unfold ClientTable.client
  rw [(session_some.mp h).1]
  rfl

variable (m) in
theorem registerClient_active (h : c.active = true) : (registerClient c m).active = true := by
  unfold PseudoClient.active
  rw [registerClient_fd]
  exact h

variable (sq m) in
/-- No other entry changes, and the client keeps its descriptor. -/
theorem serveClient_session (h : s.table.session i = some c) :
    (serveClient sq s i (some m)).1.table.session =
      Function.update s.table.session i (some (registerClient c m)) := by
  obtain ⟨hc, hactive⟩ := session_some.mp h
  rw [serveClient_table, client_of_session h, session_set (List.getElem?_eq_some_iff.mp hc).1,
    if_pos (registerClient_active m hactive)]

theorem serveClient_consistent (ht : s.table.Consistent) (h : s.table.session i = some c) :
    (serveClient sq s i (some m)).1.table.Consistent := by
  have hsession := serveClient_session sq m h
  obtain ⟨hc, hactive⟩ := session_some.mp h
  rw [serveClient_table, client_of_session h] at hsession ⊢
  refine ⟨List.length_set.trans ht.length, ?_, fun j c' hj => ?_, ht.bound⟩
  · have hlt := (List.getElem?_eq_some_iff.mp hc).1
    have hget : s.table.clients[i] = c := (List.getElem?_eq_some_iff.mp hc).2
    have hpos : 0 < s.table.clients.countP PseudoClient.active :=
      List.countP_pos_iff.mpr ⟨_, List.getElem_mem hlt, hget ▸ hactive⟩
    show s.table.activeClients = _
    rw [ht.active, List.countP_set hlt, hget, if_pos hactive,
      if_pos (registerClient_active m hactive), Nat.sub_add_cancel hpos]
  · rw [hsession] at hj
    rcases Decidable.em (j = i) with rfl | hne
    · exact ht.highest j c h
    · rw [Function.update_of_ne hne] at hj
      exact ht.highest j c' hj

/-- The flag is set when a shutdown is accepted, which it is when the counter leaves no room for
another client. -/
theorem serveClient_dies (h : (serveClient sq s i (some m)).1.diePeacefully = true) :
    s.diePeacefully = true ∨ m.hdr.type = .shutdown ∧ s.table.activeClients ≤ 2 ∧
      ∃ reply, (serveClient sq s i (some m)).2 = [((s.table.client i).fd, reply)] ∧
        reply.hdr.type = .ack := by
  unfold serveClient at h ⊢
  dsimp only at h ⊢
  rw [registerClient_fd]
  split
  · rename_i htype
    rw [if_pos htype] at h
    left
    unfold serveRequest at h
    dsimp only at h
    split at h <;> exact h
  · rename_i htype
    rw [if_neg htype] at h
    unfold serveShutdown at h ⊢
    dsimp only at h ⊢
    split
    · rename_i hmany
      rw [if_pos hmany] at h
      exact Or.inl h
    · rename_i hfew
      exact Or.inr ⟨not_not.mp htype, Int.not_lt.mp hfew, _, rfl, rfl⟩

@[simp] theorem serveClient_listenFd (received : Option ServerMsg) :
    (serveClient sq s i received).1.listenFd = s.listenFd := by
  unfold serveClient serveRequest serveShutdown
  cases received with
  | none => rfl
  | some m =>
    dsimp only
    split
    · split <;> rfl
    · split <;> rfl

end Serve

end Pseudo

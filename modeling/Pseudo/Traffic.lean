import Mathlib.Logic.Function.Basic
import Pseudo.Library.Lockstep
import Pseudo.Library.Run
import Pseudo.ServeClient

/-!
# Clients and server in step

Any number of clients talk to the server, each over a connection of its own, which is a pair of
queues. A client is inside `pseudo_client_request` or idle; the server takes a message from any
connection and runs `serve_client` on it. Sends and receives do not fail.

Results:
1. `stage_next`: where a client is inside `pseudo_client_request`.
2. `conn_inStep_step`: every event keeps every connection in step.
3. `replies_in_step`: the `k`-th reply that a client reads answers its `k`-th request.
-/

namespace Pseudo

/-! ## The sender -/

/-- A function of the client by its calls: what it does next, for each value that a call returns. -/
inductive Sender
  | send (next : Int → Sender)
  | setup (next : Bool → Sender)
  | receive (next : Option Reply → Sender)
  | done (response : Option Reply)
  | abort

/-- The loop of `pseudo_client_request` with `n` tries left. -/
def requestTries : Nat → Sender
  | 0 => .abort
  | n + 1 =>
    .send fun rc =>
      if rc ≠ 0 then .setup fun _ => requestTries n
      else .receive fun response =>
        match response with
        -- "expected response did not occur; retrying"
        | none => requestTries n
        | some response => .done (if response.hdr.type ≠ .ack then none else some response)

/-- `PSEUDO_RETRIES`. -/
def pseudoRetries : Nat := 250

def pseudoClientRequest : Sender := requestTries pseudoRetries

/-! ## Connections -/

/-- A message as a client sends it. -/
structure ClientMsg where
  hdr : MsgHeader
  path : Bytes
  path_length : path.length = hdr.pathlen
  path_nul : hdr.type ≠ .ping → path ≠ [] → path.getLast? = some 0

/-- The request of an operation, `PSEUDO_MSG_OP` or `PSEUDO_MSG_FASTOP`. -/
def ClientRequest.message (r : ClientRequest) : ClientMsg :=
  ⟨r.hdr, r.path, r.path_length, fun _ => r.path_nul⟩

def ClientMsg.received (m : ClientMsg) (leftover : Bytes) : ServerMsg :=
  ⟨m.hdr, m.path, leftover, m.path_length, m.path_nul⟩

/-- The two queues, and what the client is doing with which message. -/
structure Conn where
  line : Line ClientMsg Reply
  sender : Option (ClientMsg × Sender)

/-- The server, and the connection on each descriptor. -/
structure Network where
  server : ServerState
  conns : Int → Option Conn

/-- Before the first client. -/
def Network.start (server : ServerState) : Network := ⟨server, fun _ => none⟩

inductive NetworkEvent
  /-- A program connects and is accepted with this descriptor. -/
  | connect (fd : Int)
  /-- An idle client calls `pseudo_client_request`. -/
  | request (fd : Int) (m : ClientMsg)
  /-- A client gets on to its next call. -/
  | sender (fd : Int)
  /-- The server serves the client in this slot. -/
  | serve (i : Nat) (sq : Sqlite) (leftover : Bytes)
  /-- An idle client closes its end. -/
  | leave (fd : Int)
  /-- The server finds the end of a connection. -/
  | close (i : Nat)

/-- One call of the client; it waits where there is nothing to receive. -/
def Conn.senderStep (c : Conn) : Conn :=
  match c.sender with
  | some (m, .send next) => ⟨c.line.send m, some (m, next 0)⟩
  | some (m, .receive next) =>
    match c.line.receive with
    | some (response, line) => ⟨line, some (m, next (some response))⟩
    | none => c
  | some (_, .done _) => { c with sender := none }
  | _ => c

def Network.setConn (w : Network) (fd : Int) (c : Option Conn) : Network :=
  { w with conns := Function.update w.conns fd c }

/-- A reply to `m` is written. -/
def Network.write (m : ClientMsg) (w : Network) (sent : Int × Reply) : Network :=
  w.setConn sent.1 ((w.conns sent.1).map fun c => { c with line := c.line.write m sent.2 })

/-- An event that cannot happen changes nothing. -/
def Network.step (w : Network) : NetworkEvent → Network
  | .connect fd =>
    if 0 ≤ fd ∧ ∀ c ∈ w.server.table.clients, c.fd ≠ fd then
      let server := { w.server with table := (openClient w.server.table fd).1 }
      Network.setConn ⟨server, w.conns⟩ fd (some ⟨.start, none⟩)
    else w
  | .request fd m =>
    match w.conns fd with
    | some ⟨line, none⟩ => w.setConn fd (some ⟨line, some (m, pseudoClientRequest)⟩)
    | _ => w
  | .sender fd => w.setConn fd ((w.conns fd).map Conn.senderStep)
  | .serve i sq leftover =>
    let fd := (w.server.table.client i).fd
    match w.conns fd with
    | some c =>
      match c.line.take with
      | some (m, line) =>
        let (server, replies) := serveClient sq w.server i (some (m.received leftover))
        replies.foldl (Network.write m)
          (Network.setConn ⟨server, w.conns⟩ fd (some { c with line := line }))
      | none => w
    | none => w
  | .leave fd =>
    match w.conns fd with
    | some ⟨_, none⟩ => w.setConn fd none
    | _ => w
  | .close i =>
    match w.conns (w.server.table.client i).fd with
    | some _ => w
    | none => { w with server := { w.server with table := closeClient w.server.table i } }

def Network.run (server : ServerState) (events : List NetworkEvent) : Network :=
  Run.run Network.step (.start server) events

/-! ## In step -/

/-- The client waits for a reply. -/
def Conn.waiting (c : Conn) : Bool :=
  match c.sender with
  | some (_, .receive _) => true
  | _ => false

/-- Where a client can be inside `pseudo_client_request` when nothing fails. -/
inductive Stage : Option (ClientMsg × Sender) → Prop
  | idle : Stage none
  | sending (m : ClientMsg) (n : Nat) : Stage (some (m, requestTries (n + 1)))
  | receiving (m : ClientMsg) (next : Option Reply → Sender)
      (h : ∀ response, ∃ r, next (some response) = .done r) : Stage (some (m, .receive next))
  | done (m : ClientMsg) (response : Option Reply) : Stage (some (m, .done response))

structure Conn.InStep (c : Conn) : Prop where
  line : c.line.InStep c.waiting
  stage : Stage c.sender

section Conn
variable {c : Conn} {w : Network} {fd : Int}

theorem conn_start : Conn.InStep ⟨.start, none⟩ := ⟨Line.inStep_start, .idle⟩

/-- A send comes first, then one receive, and then the call returns. -/
theorem senderStep_inStep (h : c.InStep) : c.senderStep.InStep := by
  obtain ⟨line, sender⟩ := c
  obtain ⟨hline, hstage⟩ := h
  dsimp only at hstage
  cases hstage with
  | idle => exact ⟨hline, .idle⟩
  | sending m n =>
    refine ⟨hline.send m, .receiving m _ fun response => ?_⟩
    exact ⟨_, rfl⟩
  | receiving m next hnext =>
    unfold Conn.senderStep
    dsimp only
    cases hreceive : line.receive with
    | none => exact ⟨hline, .receiving m next hnext⟩
    | some received =>
      obtain ⟨response, line'⟩ := received
      obtain ⟨r, hr⟩ := hnext response
      dsimp only
      rw [hr]
      exact ⟨(hline.receive hreceive).2, .done m r⟩
  | done m response => exact ⟨hline, .idle⟩

/-- Every connection of the network is in step. -/
def Network.InStep (w : Network) : Prop := ∀ fd c, w.conns fd = some c → c.InStep

theorem inStep_setConn {server : ServerState} {new : Option Conn} (h : w.InStep)
    (hnew : ∀ c, new = some c → c.InStep) :
    (Network.setConn ⟨server, w.conns⟩ fd new).InStep := by
  intro fd' c hc
  unfold Network.setConn at hc
  dsimp only at hc
  rcases Decidable.em (fd' = fd) with rfl | hne
  · rw [Function.update_self] at hc
    exact hnew c hc
  · rw [Function.update_of_ne hne] at hc
    exact h fd' c hc

/-- The connection that a message is taken from gets the one reply to it. -/
theorem serve_inStep (h : w.InStep) (i : Nat) (sq : Sqlite) (leftover : Bytes) :
    (w.step (.serve i sq leftover)).InStep := by
  dsimp only [Network.step]
  cases hconn : w.conns (w.server.table.client i).fd with
  | none => exact h
  | some c =>
    dsimp only
    cases htake : c.line.take with
    | none => exact h
    | some taken =>
      obtain ⟨m, line⟩ := taken
      obtain ⟨reply, hreplies, -, -⟩ := serveClient_replies sq w.server i (m.received leftover)
      obtain ⟨hline, hstage⟩ := h _ c hconn
      dsimp only
      rw [hreplies, List.foldl_cons, List.foldl_nil]
      unfold Network.write Network.setConn
      dsimp only
      rw [Function.update_self, Function.update_idem]
      refine inStep_setConn h fun c' hc' => ?_
      obtain rfl := Option.some.inj hc'
      exact ⟨hline.serve htake reply, hstage⟩

/-- The step lemma. -/
theorem network_inStep_step (h : w.InStep) (e : NetworkEvent) : (w.step e).InStep := by
  cases e with
  | connect fd =>
    dsimp only [Network.step]
    split
    · refine inStep_setConn h fun c hc => ?_
      obtain rfl := Option.some.inj hc
      exact conn_start
    · exact h
  | request fd m =>
    dsimp only [Network.step]
    split
    · rename_i line hconn
      refine inStep_setConn h fun c hc => ?_
      obtain rfl := Option.some.inj hc
      exact ⟨(h fd _ hconn).line, .sending m 249⟩
    · exact h
  | sender fd =>
    refine inStep_setConn h fun c hc => ?_
    obtain ⟨c', hc', rfl⟩ := Option.map_eq_some_iff.mp hc
    exact senderStep_inStep (h fd c' hc')
  | serve i sq leftover => exact serve_inStep h i sq leftover
  | leave fd =>
    dsimp only [Network.step]
    split
    · exact inStep_setConn h fun c hc => nomatch hc
    · exact h
  | close i =>
    dsimp only [Network.step]
    split
    · exact h
    · exact h

end Conn

/-- After any events, a message that the server handles is answered once, with an `ACK` or a
`NAK`, on its connection; a client has read one reply for each request that it sent, up to the
one it waits for; and its `k`-th reply answers its `k`-th request. -/
theorem replies_in_step (server : ServerState) (events : List NetworkEvent) :
    let w := Network.run server events
    (∀ sq i (m : ServerMsg), ∃ reply, (serveClient sq w.server i (some m)).2 =
        [((w.server.table.client i).fd, reply)] ∧
      (reply.hdr.type = .ack ∨ reply.hdr.type = .nak) ∧ reply.sending.InBounds) ∧
    ∀ fd c, w.conns fd = some c →
      c.line.sent.length = c.line.read.length + c.waiting.toNat ∧
      ∀ (k : Nat) reply, c.line.read[k]? = some reply →
        ∃ m, c.line.sent[k]? = some m ∧ c.line.written[k]? = some (m, reply) := by
  intro w
  have h : w.InStep := by
    refine List.foldlRecOn events Network.step (motive := Network.InStep) ?_ ?_
    · exact fun _ _ hc => nomatch hc
    · exact fun w hw e _ => network_inStep_step hw e
  refine ⟨fun sq i m => serveClient_replies sq w.server i m, fun fd c hc => ?_⟩
  exact ⟨(h fd c hc).line.length, fun k reply hk => (h fd c hc).line.nth hk⟩

/-- A client connects and pings, and reads the answer. -/
example :
    let server : ServerState :=
      { table := .start 3 7 none none, db := .empty ⟨0, []⟩, timeout := 30, diePeacefully := false,
        dieForcefully := false, listenFd := 3, logging := false }
    let ping : ClientMsg := ⟨{ MsgHeader.zero with type := .ping, client := 9 }, [], rfl, nofun⟩
    let events : List NetworkEvent :=
      [.connect 4, .request 4 ping, .sender 4, .serve 1 .inOrder [], .sender 4, .sender 4]
    ((Network.run server events).conns 4).map (fun c => c.line.read.map (·.hdr.type)) =
      some [.ack] := by
  decide

end Pseudo

import Pseudo.Library.Run
import Pseudo.ServeClient

/-!
# The server loop

`pseudo_server_loop_epoll` and `pseudo_server_loop` wait for something to happen, handle a batch
of events, and exit when `die_peacefully` is set at the end of a pass. What the system returns to
a pass is its input: that the wait timed out, or which descriptors are ready, and for each of
these what `accept`, `FIONREAD` and `pseudo_msg_receive` give. Signals do not arrive.

Results:
1. `sound_accept`, `sound_read`: a new connection cancels a shutdown, and one that is accepted
   leaves room for nobody but the client who asked for it.
2. `sound_epollBatch`, `sound_selectBatch`: so it is after a batch, in either version.
3. `server_leaves_no_client`: the loop never exits with another client connected.
-/

namespace Pseudo

open ClientTableLemmas

/-! ## What the system returns -/

/-- The result of `accept`, with that of `fcntl(fd, F_DUPFD, 3)` for a connection on
descriptor 2. -/
inductive Accepted
  | connection (fd newfd : Int)
  | maxFiles
  | failed

/-- "Don't allow clients to end up on fd 2". -/
def acceptedFd (fd newfd : Int) : Int := if fd = 2 then newfd else fd

def Accepted.Valid : Accepted → Prop
  | .connection fd newfd => 0 ≤ acceptedFd fd newfd
  | _ => True

instance (a : Accepted) : Decidable a.Valid := by
  cases a with
  | connection fd newfd => exact inferInstanceAs (Decidable (0 ≤ acceptedFd fd newfd))
  | maxFiles | failed => exact inferInstanceAs (Decidable True)

/-- What there is to read from a client: `FIONREAD`, and what `pseudo_msg_receive` returns. -/
structure Incoming where
  sq : Sqlite
  pending : Nat
  received : Option ServerMsg

/-! ## A pass -/

/-- A call of `serve_client`, for the record. -/
structure Served where
  slot : Nat
  received : Option ServerMsg
  replies : List (Int × Reply)

/-- A shutdown request was acknowledged. -/
def Served.Shutdown (n : Served) : Prop :=
  ∃ m fd reply, n.received = some m ∧ m.hdr.type = .shutdown ∧ n.replies = [(fd, reply)] ∧
    reply.hdr.type = .ack

/-- The server with the variables of the loop, and what was served in this pass. -/
structure LoopState where
  server : ServerState
  loopTimeout : Int
  hitMaxFiles : Bool
  served : List Served

/-- `LOOP_DELAY` and `DEFAULT_PSEUDO_SERVER_TIMEOUT`. -/
def loopDelay : Int := 2
def defaultServerTimeout : Int := 30

/-- The loop starts with the listening socket alone. -/
def LoopState.start (server : ServerState) (pid : BitVec 32) (tag program : Option Bytes) :
    LoopState where
  server := { server with table := .start server.listenFd pid tag program }
  loopTimeout := server.timeout
  hitMaxFiles := false
  served := []

/-- "If there's no clients, start timing out. If there are active clients, never time out." -/
def idle (st : LoopState) : LoopState :=
  if st.server.table.activeClients = 1 then
    let loopTimeout := st.loopTimeout - loopDelay
    let server :=
      if loopTimeout ≤ 0 then { st.server with diePeacefully := true } else st.server
    { st with server := server, loopTimeout := loopTimeout }
  else st

/-- "A new client implicitly cancels any previous shutdown request, or a shutdown for lack of
clients." -/
def acceptClient (st : LoopState) (fd : Int) : LoopState :=
  { st with
    server :=
      { st.server with
        table := (openClient st.server.table fd).1
        timeout := defaultServerTimeout
        diePeacefully := false } }

/-- A client that is ready has left, or has sent a message. -/
def readClient (st : LoopState) (i : Nat) (incoming : Incoming) : LoopState :=
  if incoming.pending = 0 then
    { st with server := { st.server with table := closeClient st.server.table i } }
  else
    let (server, replies) := serveClient incoming.sq st.server i incoming.received
    { st with server := server, served := st.served ++ [⟨i, incoming.received, replies⟩] }

/-- An entry of `events`, and what comes of it. -/
structure EpollEvent where
  slot : Nat
  accepted : Accepted
  incoming : Incoming

def epollEvent (st : LoopState) (e : EpollEvent) : LoopState :=
  if (st.server.table.client e.slot).fd = st.server.listenFd then
    if st.server.dieForcefully then st
    else match e.accepted with
      | .connection fd newfd => acceptClient st (acceptedFd fd newfd)
      -- "select() loop would drop a client here, we do nothing (for now)"
      | .maxFiles | .failed => st
  else readClient st e.slot e.incoming

def epollBatch (st : LoopState) : List EpollEvent → LoopState
  | [] => st
  | e :: es =>
    let st := epollEvent st e
    if st.server.dieForcefully then st else epollBatch st es

/-- The sets that `select` returns, and what comes of them. -/
structure SelectSets where
  reads : Int → Bool
  events : Int → Bool
  incoming : Nat → Incoming
  accepted : Accepted

/-- A slot that is in use. -/
def selectSlot (sets : SelectSets) (st : LoopState) (i : Nat) : LoopState :=
  if sets.reads (st.server.table.client i).fd then readClient st i (sets.incoming i)
  -- "Only close one per loop iteration in the interests of caution"
  else if st.hitMaxFiles then
    let server := { st.server with table := closeClient st.server.table i }
    { st with server := server, hitMaxFiles := false }
  else st

/-- The loop over the slots from 1 to `highest_client`. -/
def selectSlots (sets : SelectSets) (st : LoopState) : List Nat → LoopState
  | [] => st
  | i :: is =>
    if st.server.table.highestClient < i then st
    else if ¬ (st.server.table.client i).active then selectSlots sets st is
    else
      let st := selectSlot sets st i
      if st.server.dieForcefully then st else selectSlots sets st is

def selectBatch (st : LoopState) (sets : SelectSets) : LoopState :=
  let st := selectSlots sets st (List.range' 1 st.server.table.highestClient)
  let st := { st with hitMaxFiles := false }
  let fd := (st.server.table.client 0).fd
  if ¬ st.server.dieForcefully ∧ (sets.events fd ∨ sets.reads fd) then
    match sets.accepted with
    | .connection fd newfd => acceptClient st (acceptedFd fd newfd)
    | .maxFiles => { st with hitMaxFiles := true }
    | .failed => st
  else st

/-! ## The two versions -/

inductive LoopVersion
  | epoll | select

/-- What is returned when descriptors are ready. -/
def LoopVersion.Ready : LoopVersion → Type
  | .epoll => List EpollEvent
  | .select => SelectSets

def LoopVersion.batch : (v : LoopVersion) → LoopState → v.Ready → LoopState
  | .epoll => epollBatch
  | .select => selectBatch

/-- `epoll_wait` returns each slot at most once, and only slots that are in use; new descriptors
are valid. -/
def LoopVersion.Allows : (v : LoopVersion) → LoopState → v.Ready → Prop
  | .epoll => fun st (es : List EpollEvent) =>
    (es.map EpollEvent.slot).Nodup ∧
      ∀ e ∈ es, (st.server.table.session e.slot).isSome ∧ e.accepted.Valid
  | .select => fun _ (sets : SelectSets) => sets.accepted.Valid

/-- What a wait ends with. -/
inductive Wakeup (α : Type)
  | timeout
  | ready (a : α)

section Version
variable (v : LoopVersion)

def loopPass (st : LoopState) : Wakeup v.Ready → LoopState
  | .timeout => idle { st with served := [] }
  | .ready r => v.batch { st with loopTimeout := st.server.timeout, served := [] } r

def PassAllows (st : LoopState) : Wakeup v.Ready → Prop
  | .timeout => True
  | .ready r => v.Allows st r

/-- The loop goes on. -/
def LoopState.goesOn (st : LoopState) : Prop :=
  st.server.diePeacefully = false ∧ st.server.dieForcefully = false

/-- The passes of a loop that has not exited. -/
def LoopRuns : LoopState → List (Wakeup v.Ready) → Prop :=
  Run.Guarded (loopPass v) fun st w => PassAllows v st w ∧ (loopPass v st w).goesOn

end Version

/-! ## Nobody is left behind -/

/-- The flag is set only after a shutdown was acknowledged in this pass, and then no other client
than the one who asked for it is connected. -/
structure LoopState.Sound (st : LoopState) : Prop where
  table : st.server.table.Consistent
  listen : ∃ c, st.server.table.session 0 = some c ∧ c.fd = st.server.listenFd
  dies : st.server.diePeacefully = true → ∃ j, (∃ n ∈ st.served, n.slot = j ∧ n.Shutdown) ∧
    ∀ k, k ≠ 0 → (st.server.table.session k).isSome → k = j

section Sound
variable {st : LoopState} {i : Nat} {incoming : Incoming} {fd : Int}

theorem sound_accept (h : st.Sound) (hfd : 0 ≤ fd) : (acceptClient st fd).Sound := by
  obtain ⟨c, hc, hlisten⟩ := h.listen
  refine ⟨consistent_openClient h.table hfd, ⟨c, ?_, hlisten⟩, fun hdie => nomatch hdie⟩
  show (openClient st.server.table fd).1.session 0 = some c
  have hne : 0 ≠ (openClient st.server.table fd).2 := by
    intro heq
    have hslot := session_slot h.table.length fd
    rw [← heq, hc] at hslot
    cases hslot
  rw [session_openClient h.table.length hfd, Function.update_of_ne hne, hc]

/-- Whoever is connected stays so. -/
theorem session_accept (h : st.Sound) (hfd : 0 ≤ fd) {k : Nat}
    (hk : (st.server.table.session k).isSome) :
    ((acceptClient st fd).server.table.session k).isSome := by
  show ((openClient st.server.table fd).1.session k).isSome
  have hne : k ≠ (openClient st.server.table fd).2 := by
    rintro rfl
    rw [session_slot h.table.length fd] at hk
    cases hk
  rw [session_openClient h.table.length hfd, Function.update_of_ne hne]
  exact hk

/-- A client that leaves. -/
theorem sound_close (h : st.Sound) (hi : i ≠ 0) (hs : (st.server.table.session i).isSome) :
    LoopState.Sound
      { st with server := { st.server with table := closeClient st.server.table i } } := by
  obtain ⟨c, hc⟩ := Option.isSome_iff_exists.mp hs
  have hsession := session_closeClient h.table hi hc
  obtain ⟨c₀, hc₀, hlisten⟩ := h.listen
  refine ⟨consistent_closeClient h.table hi hc, ⟨c₀, ?_, hlisten⟩, fun hdie => ?_⟩
  · show (closeClient st.server.table i).session 0 = some c₀
    rw [hsession, Function.update_of_ne (Ne.symm hi), hc₀]
  · obtain ⟨j, hserved, honly⟩ := h.dies hdie
    refine ⟨j, hserved, fun k hk hks => honly k hk ?_⟩
    have hks : ((closeClient st.server.table i).session k).isSome := hks
    rw [hsession] at hks
    rcases Decidable.em (k = i) with rfl | hne
    · exact hs
    · rwa [Function.update_of_ne hne] at hks

/-- Three different slots are not in use while the counter is at most 2. -/
theorem only_client {t : ClientTable} (ht : t.Consistent) (hfew : t.activeClients ≤ 2)
    (h0 : (t.session 0).isSome) (hi : i ≠ 0) (his : (t.session i).isSome) {k : Nat} (hk : k ≠ 0)
    (hks : (t.session k).isSome) : k = i := by
  by_contra hne
  have hnodup : [0, i, k].Nodup := by
    simp [Ne.symm hi, Ne.symm hk, Ne.symm hne]
  have hle := ht.length_le hnodup (by simp [h0, his, hks])
  have hthree : (3 : Int) ≤ t.activeClients := hle
  omega

/-- A client that has sent a message. -/
theorem sound_serve (h : st.Sound) (hi : i ≠ 0) (hs : (st.server.table.session i).isSome)
    (sq : Sqlite) (m : ServerMsg) :
    LoopState.Sound
      { st with
        server := (serveClient sq st.server i (some m)).1
        served := st.served ++ [⟨i, some m, (serveClient sq st.server i (some m)).2⟩] } := by
  obtain ⟨c, hc⟩ := Option.isSome_iff_exists.mp hs
  have hsession := serveClient_session sq m hc
  obtain ⟨c₀, hc₀, hlisten⟩ := h.listen
  refine ⟨serveClient_consistent h.table hc, ⟨c₀, ?_, ?_⟩, fun hdie => ?_⟩
  · rw [hsession, Function.update_of_ne (Ne.symm hi), hc₀]
  · rw [serveClient_listenFd, hlisten]
  · have hactive : ∀ k, ((serveClient sq st.server i (some m)).1.table.session k).isSome →
        (st.server.table.session k).isSome := by
      intro k hk
      rw [hsession] at hk
      rcases Decidable.em (k = i) with rfl | hne
      · exact hs
      · rwa [Function.update_of_ne hne] at hk
    rcases serveClient_dies hdie with hbefore | ⟨htype, hfew, reply, hreplies, hack⟩
    · obtain ⟨j, ⟨n, hn, hslot, hshutdown⟩, honly⟩ := h.dies hbefore
      exact ⟨j, ⟨n, List.mem_append_left _ hn, hslot, hshutdown⟩,
        fun k hk hks => honly k hk (hactive k hks)⟩
    · refine ⟨i, ⟨_, List.mem_append_right _ List.mem_cons_self, rfl, m, _, reply, rfl, htype,
        hreplies, hack⟩, fun k hk hks => ?_⟩
      exact only_client h.table hfew (by rw [hc₀]; rfl) hi hs hk (hactive k hks)

theorem sound_read (h : st.Sound) (hi : i ≠ 0) (hs : (st.server.table.session i).isSome) :
    (readClient st i incoming).Sound := by
  unfold readClient
  split
  · exact sound_close h hi hs
  · cases hreceived : incoming.received with
    | none =>
      have hclosed := sound_close h hi hs
      refine ⟨hclosed.table, hclosed.listen, fun hdie => ?_⟩
      obtain ⟨j, ⟨n, hn, hn'⟩, honly⟩ := hclosed.dies hdie
      exact ⟨j, ⟨n, List.mem_append_left _ hn, hn'⟩, honly⟩
    | some m => exact sound_serve h hi hs incoming.sq m

/-- Reading from a client leaves every other one where it is. -/
theorem session_read (h : st.Sound) (hi : i ≠ 0) (hs : (st.server.table.session i).isSome) {k : Nat}
    (hk : k ≠ i) :
    (readClient st i incoming).server.table.session k = st.server.table.session k := by
  obtain ⟨c, hc⟩ := Option.isSome_iff_exists.mp hs
  have hclose : (closeClient st.server.table i).session k = st.server.table.session k := by
    rw [session_closeClient h.table hi hc, Function.update_of_ne hk]
  unfold readClient
  split
  · exact hclose
  · cases hreceived : incoming.received with
    | none => exact hclose
    | some m =>
      show (serveClient _ st.server i (some m)).1.table.session k = _
      rw [serveClient_session _ _ hc, Function.update_of_ne hk]

/-- An entry of `events`: what it is about stays sound, and whoever else is connected stays so. -/
theorem epollEvent_step {e : EpollEvent} (h : st.Sound)
    (hs : (st.server.table.session e.slot).isSome) (hvalid : e.accepted.Valid) :
    (epollEvent st e).Sound ∧ ∀ k, k ≠ e.slot → (st.server.table.session k).isSome →
      ((epollEvent st e).server.table.session k).isSome := by
  unfold epollEvent
  split
  · split
    · exact ⟨h, fun _ _ hk => hk⟩
    · split
      · rename_i hconn
        rw [hconn] at hvalid
        exact ⟨sound_accept h hvalid, fun k _ hk => session_accept h hvalid hk⟩
      · exact ⟨h, fun _ _ hk => hk⟩
      · exact ⟨h, fun _ _ hk => hk⟩
  · rename_i hclient
    have hne : e.slot ≠ 0 := by
      intro hzero
      obtain ⟨c, hc, hlisten⟩ := h.listen
      rw [hzero, client_of_session hc] at hclient
      exact hclient hlisten
    refine ⟨sound_read h hne hs, fun k hk hks => ?_⟩
    rw [session_read h hne hs hk]
    exact hks

theorem sound_epollBatch {es : List EpollEvent} (h : st.Sound)
    (hnodup : (es.map EpollEvent.slot).Nodup)
    (hes : ∀ e ∈ es, (st.server.table.session e.slot).isSome ∧ e.accepted.Valid) :
    (epollBatch st es).Sound := by
  induction es generalizing st with
  | nil => exact h
  | cons e es ih =>
    obtain ⟨hs, hvalid⟩ := hes e List.mem_cons_self
    obtain ⟨hsound, hothers⟩ := epollEvent_step h hs hvalid
    obtain ⟨hfresh, hnodup⟩ := List.nodup_cons.mp hnodup
    unfold epollBatch
    dsimp only
    split
    · exact hsound
    · refine ih hsound hnodup fun e' he' => ?_
      obtain ⟨hs', hvalid'⟩ := hes e' (List.mem_cons_of_mem e he')
      have hne : e'.slot ≠ e.slot := fun heq => hfresh (heq ▸ List.mem_map_of_mem he')
      exact ⟨hothers e'.slot hne hs', hvalid'⟩

theorem session_isSome_of_active (h : (st.server.table.client i).active = true) :
    (st.server.table.session i).isSome := by
  unfold ClientTable.client at h
  unfold ClientTable.session
  cases hc : st.server.table.clients[i]? with
  | none =>
    rw [hc] at h
    cases h
  | some c =>
    rw [hc] at h
    have hactive : c.active = true := h
    rw [Option.filter_some, if_pos hactive]
    rfl

theorem sound_selectSlot (sets : SelectSets) (h : st.Sound) (hi : i ≠ 0)
    (hs : (st.server.table.session i).isSome) : (selectSlot sets st i).Sound := by
  unfold selectSlot
  split
  · exact sound_read h hi hs
  · split
    · obtain ⟨htable, hlisten, hdies⟩ := sound_close h hi hs
      exact ⟨htable, hlisten, hdies⟩
    · exact h

theorem sound_selectSlots (sets : SelectSets) {is : List Nat} (h : st.Sound)
    (his : ∀ i ∈ is, i ≠ 0) : (selectSlots sets st is).Sound := by
  induction is generalizing st with
  | nil => exact h
  | cons i is ih =>
    have hi := his i List.mem_cons_self
    have his' : ∀ j ∈ is, j ≠ 0 := fun j hj => his j (List.mem_cons_of_mem i hj)
    unfold selectSlots
    split
    · exact h
    · split
      · exact ih h his'
      · rename_i hactive
        have hnext := sound_selectSlot sets h hi (session_isSome_of_active
          (not_not.mp hactive))
        dsimp only
        split
        · exact hnext
        · exact ih hnext his'

theorem sound_selectBatch {sets : SelectSets} (h : st.Sound) (hvalid : sets.accepted.Valid) :
    (selectBatch st sets).Sound := by
  have hslots : ∀ i ∈ List.range' 1 st.server.table.highestClient, i ≠ 0 := by
    intro i hi
    have hlow := (List.mem_range'_1.mp hi).1
    omega
  have hsound := sound_selectSlots sets h hslots
  unfold selectBatch
  dsimp only
  split
  · split
    · rename_i hconn
      rw [hconn] at hvalid
      exact sound_accept ⟨hsound.table, hsound.listen, hsound.dies⟩ hvalid
    · exact ⟨hsound.table, hsound.listen, hsound.dies⟩
    · exact ⟨hsound.table, hsound.listen, hsound.dies⟩
  · exact ⟨hsound.table, hsound.listen, hsound.dies⟩

@[simp] theorem idle_table (st : LoopState) : (idle st).server.table = st.server.table := by
  unfold idle
  split
  · dsimp only
    split <;> rfl
  · rfl

/-- Nobody is connected when the loop gets bored. -/
theorem idle_dies (h : st.Sound) (hlive : st.server.diePeacefully = false)
    (hdie : (idle st).server.diePeacefully = true) {k : Nat} (hk : k ≠ 0) :
    (idle st).server.table.session k = none := by
  obtain ⟨c, hc, -⟩ := h.listen
  rw [idle_table]
  unfold idle at hdie
  split at hdie
  · rename_i hone
    cases hks : st.server.table.session k with
    | none => rfl
    | some c' =>
      have hnodup : [0, k].Nodup := by simp [Ne.symm hk]
      have hle := h.table.length_le hnodup (by simp [hc, hks])
      have htwo : (2 : Int) ≤ st.server.table.activeClients := hle
      rw [hone] at htwo
      exact absurd htwo (by decide)
  · rw [hlive] at hdie
    cases hdie

/-- Before a pass nothing has set the flag. -/
structure LoopState.AtTop (st : LoopState) : Prop where
  sound : st.Sound
  lives : st.server.diePeacefully = false

theorem LoopState.AtTop.forget (h : st.AtTop) (loopTimeout : Int) :
    LoopState.Sound { st with loopTimeout := loopTimeout, served := [] } :=
  ⟨h.sound.table, h.sound.listen, fun hdie => nomatch h.lives.symm.trans hdie⟩

theorem sound_batch {v : LoopVersion} {r : v.Ready} (h : st.Sound) (hallow : v.Allows st r) :
    (v.batch st r).Sound := by
  cases v with
  | epoll => exact sound_epollBatch h hallow.1 hallow.2
  | select => exact sound_selectBatch h hallow

/-- The step lemma. -/
theorem atTop_pass {v : LoopVersion} {w : Wakeup v.Ready} (h : st.AtTop)
    (hallow : PassAllows v st w) (hlive : (loopPass v st w).goesOn) : (loopPass v st w).AtTop := by
  refine ⟨?_, hlive.1⟩
  cases w with
  | timeout =>
    have hsound := h.forget st.loopTimeout
    have hlive : (idle { st with served := [] }).server.diePeacefully = false := hlive.1
    show (idle { st with served := [] }).Sound
    unfold idle at hlive ⊢
    split
    · rename_i hone
      rw [if_pos hone] at hlive
      dsimp only at hlive ⊢
      split
      · rename_i hbored
        rw [if_pos hbored] at hlive
        cases hlive
      · exact ⟨hsound.table, hsound.listen, hsound.dies⟩
    · exact hsound
  | ready r =>
    refine sound_batch (h.forget _) ?_
    cases v with
    | epoll => exact hallow
    | select => exact hallow

end Sound

theorem atTop_start {server : ServerState} (hlisten : 0 ≤ server.listenFd)
    (hlives : server.diePeacefully = false) (pid : BitVec 32) (tag program : Option Bytes) :
    (LoopState.start server pid tag program).AtTop := by
  refine ⟨⟨consistent_start hlisten pid tag program, ⟨_, session_some.mpr ⟨rfl, ?_⟩, rfl⟩, ?_⟩,
    hlives⟩
  · exact active_accepted hlisten
  · intro hdie
    rw [show server.diePeacefully = true from hdie] at hlives
    cases hlives

/-- When the loop exits because `die_peacefully` is set, only a client whose shutdown request was
acknowledged in this pass may be connected, and after a timeout nobody is. -/
theorem server_leaves_no_client {v : LoopVersion} {server : ServerState} (pid : BitVec 32)
    (tag program : Option Bytes) {passes : List (Wakeup v.Ready)} {w : Wakeup v.Ready}
    (hlisten : 0 ≤ server.listenFd) (hlives : server.diePeacefully = false)
    (hruns : LoopRuns v (.start server pid tag program) passes)
    (hallow : PassAllows v (Run.run (loopPass v) (.start server pid tag program) passes) w)
    (hexit : (loopPass v (Run.run (loopPass v) (.start server pid tag program) passes)
      w).server.diePeacefully = true) :
    let st := loopPass v (Run.run (loopPass v) (.start server pid tag program) passes) w
    (∃ j, ∀ k, k ≠ 0 → (st.server.table.session k).isSome →
      k = j ∧ ∃ n ∈ st.served, n.slot = j ∧ n.Shutdown) ∧
    (w = .timeout → ∀ k, k ≠ 0 → st.server.table.session k = none) := by
  intro st
  have htop : (Run.run (loopPass v) (.start server pid tag program) passes).AtTop :=
    Run.Guarded.invariant hruns (fun _ _ h hok => atTop_pass h hok.1 hok.2)
      (atTop_start hlisten hlives pid tag program)
  cases w with
  | timeout =>
    have hnone : ∀ k, k ≠ 0 → st.server.table.session k = none := fun k hk =>
      idle_dies (htop.forget _) htop.lives hexit hk
    refine ⟨⟨0, fun k hk hks => ?_⟩, fun _ => hnone⟩
    rw [hnone k hk] at hks
    cases hks
  | ready r =>
    have hsound : st.Sound := by
      refine sound_batch (htop.forget _) ?_
      cases v with
      | epoll => exact hallow
      | select => exact hallow
    obtain ⟨j, hserved, honly⟩ := hsound.dies hexit
    exact ⟨⟨j, fun k hk hks => ⟨honly k hk hks, hserved⟩⟩, nofun⟩

/-! ## A client comes, and asks for a shutdown -/

def exServer : ServerState where
  table := .start 3 7 none none
  db := .empty ⟨0, []⟩
  timeout := 30
  diePeacefully := false
  dieForcefully := false
  listenFd := 3
  logging := false

def exShutdown : ServerMsg :=
  ⟨{ MsgHeader.zero with type := .shutdown, client := 9 }, [], [], rfl, nofun⟩

/-- `epoll` reports the listening socket, then the client's. -/
def exPasses : List (Wakeup LoopVersion.epoll.Ready) :=
  [.ready [⟨0, .connection 4 (-1), ⟨.inOrder, 0, none⟩⟩]]

def exLastPass : Wakeup LoopVersion.epoll.Ready :=
  .ready [⟨1, .failed, ⟨.inOrder, 76, some exShutdown⟩⟩]

theorem server_leaves_no_client_shutdown :
    let st := loopPass .epoll (Run.run (loopPass .epoll) (.start exServer 7 none none) exPasses)
      exLastPass
    st.server.diePeacefully = true ∧
    ∃ j, ∀ k, k ≠ 0 → (st.server.table.session k).isSome →
      k = j ∧ ∃ n ∈ st.served, n.slot = j ∧ n.Shutdown := by
  intro st
  have hexit : st.server.diePeacefully = true := by decide
  have hconnect : LoopVersion.epoll.Allows (.start exServer 7 none none)
      [⟨0, .connection 4 (-1), ⟨.inOrder, 0, none⟩⟩] :=
    ⟨by decide, by
      intro e he
      obtain rfl := List.mem_singleton.mp he
      exact ⟨by decide, by decide⟩⟩
  have hshutdown : LoopVersion.epoll.Allows
      (Run.run (loopPass .epoll) (.start exServer 7 none none) exPasses)
      [⟨1, .failed, ⟨.inOrder, 76, some exShutdown⟩⟩] :=
    ⟨by decide, by
      intro e he
      obtain rfl := List.mem_singleton.mp he
      exact ⟨by decide, by decide⟩⟩
  have hruns : LoopRuns .epoll (.start exServer 7 none none) exPasses :=
    ⟨⟨hconnect, by decide, by decide⟩, trivial⟩
  exact ⟨hexit, (@server_leaves_no_client .epoll exServer 7 none none exPasses exLastPass
    (by decide) (by decide) hruns hshutdown hexit).1⟩

end Pseudo

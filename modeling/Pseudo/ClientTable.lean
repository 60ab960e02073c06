import Mathlib.Data.List.Perm.Subperm
import Mathlib.Logic.Function.Basic
import Pseudo.Library.Run
import Pseudo.Message

/-!
# The table of clients

`open_client` and `close_client` of `pseudo_server.c`. Beside the table the server keeps how many
slots are in use, the highest slot that may be, and the size of the table; the shutdown decision,
the select set and the listing of process ids rely on these. Slot 0 is the listening socket.

Results:
1. `session_openClient`, `session_closeClient`: what the two functions do to the sessions, a map
   from slots to the clients that use them.
2. `consistent_openClient`, `consistent_closeClient`: the counters stay right.
3. `Consistent.length_le`: no more slots are in use than the counter says.
4. `clientTable_consistent`: so it is after any history.
-/

namespace Pseudo

/-- `pseudo_client_t`. -/
structure PseudoClient where
  fd : Int
  pid : BitVec 32
  tag : Option Bytes
  program : Option Bytes
  deriving DecidableEq, Repr

def PseudoClient.active (c : PseudoClient) : Bool := c.fd != -1

/-- A slot that nobody uses. -/
def PseudoClient.unused : PseudoClient := { fd := -1, pid := 0, tag := none, program := none }

/-- A client of which nothing is known but its descriptor. -/
def PseudoClient.accepted (fd : Int) : PseudoClient := { PseudoClient.unused with fd := fd }

/-- `clients`, `active_clients`, `highest_client` and `max_clients`. -/
structure ClientTable where
  clients : List PseudoClient
  activeClients : Int
  highestClient : Nat
  maxClients : Nat
  deriving DecidableEq, Repr

/-- The table that the server loop sets up; it leaves the names of slot 0 as `malloc` gave them. -/
def ClientTable.start (listenFd : Int) (pid : BitVec 32) (tag program : Option Bytes) :
    ClientTable where
  clients := { fd := listenFd, pid := pid, tag := tag, program := program } ::
    List.replicate 15 .unused
  activeClients := 1
  highestClient := 0
  maxClients := 16

/-- The second component is the slot. `malloc` does not fail. -/
def openClient (t : ClientTable) (fd : Int) : ClientTable × Nat :=
  -- if possible, use first open client slot
  match (t.clients.take t.maxClients).findIdx? (fun c => !c.active) with
  | some i =>
    ({ t with clients := t.clients.set i (.accepted fd)
              activeClients := t.activeClients + 1
              highestClient := if t.highestClient < i then i else t.highestClient }, i)
  -- otherwise, allocate a new one
  | none =>
    let newClients := t.clients.take t.maxClients ++ List.replicate 16 .unused
    ({ clients := newClients.set t.maxClients (.accepted fd)
       activeClients := t.activeClients + 1
       highestClient := t.maxClients + 1
       maxClients := t.maxClients + 16 }, t.maxClients)

/-- `while (clients[highest_client].fd != -1 && highest_client > 0) --highest_client`. -/
def lowerHighest (clients : List PseudoClient) : Nat → Nat
  | 0 => 0
  | h + 1 => if (clients[h + 1]?.getD .unused).active then lowerHighest clients h else h + 1

def closeClient (t : ClientTable) (client : Nat) : ClientTable :=
  if t.highestClient < client ∨ client = 0 then t
  else
    let clients := t.clients.set client .unused
    { t with
      clients := clients
      activeClients := t.activeClients - 1
      highestClient :=
        if client = t.highestClient then lowerHighest clients t.highestClient
        else t.highestClient }

/-- What the table is for: the client that uses a slot. -/
def ClientTable.session (t : ClientTable) (i : Nat) : Option PseudoClient :=
  t.clients[i]?.filter PseudoClient.active

/-- The counters agree with the table. -/
structure ClientTable.Consistent (t : ClientTable) : Prop where
  length : t.clients.length = t.maxClients
  active : t.activeClients = t.clients.countP PseudoClient.active
  highest : ∀ (i : Nat) c, t.session i = some c → i ≤ t.highestClient
  bound : t.highestClient < t.maxClients

namespace ClientTableLemmas

section Slots
variable {t : ClientTable} {clients : List PseudoClient} {c c' : PseudoClient} {i j n : Nat}
  {fd : Int}

theorem active_accepted (hfd : 0 ≤ fd) : (PseudoClient.accepted fd).active = true := by
  have hne : fd ≠ -1 := by
    rintro rfl
    exact absurd hfd (by decide)
  simpa [PseudoClient.active, PseudoClient.accepted] using hne

theorem active_unused : PseudoClient.unused.active = false := rfl

theorem session_some : t.session i = some c ↔ t.clients[i]? = some c ∧ c.active = true := by
  unfold ClientTable.session
  rw [Option.filter_eq_some_iff]

theorem session_none (h : t.clients[i]? = some c) (hc : c.active = false) :
    t.session i = none := by
  unfold ClientTable.session
  rw [h, Option.filter_some, if_neg (by simp [hc])]

/-- A slot that is written holds what is written. -/
theorem session_set (hi : i < clients.length) {active : Int} {highest max : Nat} :
    (ClientTable.mk (clients.set i c) active highest max).session =
      Function.update (ClientTable.mk clients active highest max).session i
        (if c.active then some c else none) := by
  funext j
  unfold ClientTable.session
  dsimp only
  by_cases hj : j = i
  · subst hj
    rw [Function.update_self, List.getElem?_set_self hi, Option.filter_some]
  · rw [Function.update_of_ne hj, List.getElem?_set_ne (Ne.symm hj)]

/-- Unused slots at the end change no session. -/
theorem session_append {active active' : Int} {highest highest' max max' : Nat} :
    (ClientTable.mk (clients ++ List.replicate n .unused) active highest max).session =
      (ClientTable.mk clients active' highest' max').session := by
  funext j
  unfold ClientTable.session
  dsimp only
  rcases Nat.lt_or_ge j clients.length with hj | hj
  · rw [List.getElem?_append_left hj]
  · rw [List.getElem?_append_right hj, List.getElem?_eq_none hj, List.getElem?_replicate]
    split <;> rfl

/-- One slot more is in use when an unused one is taken. -/
theorem countP_take (hi : clients[i]? = some c) (hc : c.active = false) (hc' : c'.active = true) :
    (clients.set i c').countP PseudoClient.active = clients.countP PseudoClient.active + 1 := by
  obtain ⟨hlt, rfl⟩ := List.getElem?_eq_some_iff.mp hi
  rw [List.countP_set hlt, if_neg (by simp [hc]), if_pos hc', Nat.sub_zero]

/-- One slot less is in use when one is given up. -/
theorem countP_give (hi : clients[i]? = some c) (hc : c.active = true) (hc' : c'.active = false) :
    (clients.set i c').countP PseudoClient.active + 1 = clients.countP PseudoClient.active := by
  obtain ⟨hlt, rfl⟩ := List.getElem?_eq_some_iff.mp hi
  have hpos : 0 < clients.countP PseudoClient.active :=
    List.countP_pos_iff.mpr ⟨_, List.getElem_mem hlt, hc⟩
  rw [List.countP_set hlt, if_pos hc, if_neg (by simp [hc']), Nat.add_zero]
  omega

end Slots

section Open
variable {t : ClientTable} {fd : Int} {i : Nat}

/-- The two ways to find a slot: the first unused one, or the first of sixteen new ones. -/
theorem openClient_cases (h : t.clients.length = t.maxClients) (fd : Int) :
    (∃ i c, t.clients[i]? = some c ∧ c.active = false ∧ openClient t fd =
      ({ t with clients := t.clients.set i (.accepted fd)
                activeClients := t.activeClients + 1
                highestClient := if t.highestClient < i then i else t.highestClient }, i)) ∨
    (∀ c ∈ t.clients, c.active = true) ∧ openClient t fd =
      ({ clients :=
          (t.clients ++ List.replicate 16 PseudoClient.unused).set t.maxClients (.accepted fd)
         activeClients := t.activeClients + 1
         highestClient := t.maxClients + 1
         maxClients := t.maxClients + 16 }, t.maxClients) := by
  have htake : t.clients.take t.maxClients = t.clients := by
    rw [← h, List.take_length]
  unfold openClient
  rw [htake]
  cases hfind : t.clients.findIdx? fun c => !c.active with
  | some i =>
    obtain ⟨hlt, hc, _⟩ := List.findIdx?_eq_some_iff_getElem.mp hfind
    exact Or.inl ⟨i, t.clients[i], List.getElem?_eq_getElem hlt, by simpa using hc, rfl⟩
  | none => exact Or.inr ⟨by simpa [List.findIdx?_eq_none_iff] using hfind, rfl⟩

/-- The slot that is handed out was not in use. -/
theorem session_slot (h : t.clients.length = t.maxClients) (fd : Int) :
    t.session (openClient t fd).2 = none := by
  rcases openClient_cases h fd with ⟨i, c, hi, hc, heq⟩ | ⟨-, heq⟩
  · rw [heq]
    exact session_none hi hc
  · rw [heq]
    unfold ClientTable.session
    rw [List.getElem?_eq_none (Nat.le_of_eq h)]
    rfl

/-- A new client gets its slot, and every other slot keeps its client. -/
theorem session_openClient (h : t.clients.length = t.maxClients) (hfd : 0 ≤ fd) :
    (openClient t fd).1.session =
      Function.update t.session (openClient t fd).2 (some (.accepted fd)) := by
  rcases openClient_cases h fd with ⟨i, c, hi, _, heq⟩ | ⟨-, heq⟩
  · rw [heq, session_set (List.getElem?_eq_some_iff.mp hi).1, if_pos (active_accepted hfd)]
    rfl
  · have hlt : t.maxClients < (t.clients ++ List.replicate 16 PseudoClient.unused).length := by
      rw [List.length_append, h, List.length_replicate]
      omega
    rw [heq, session_set hlt, if_pos (active_accepted hfd)]
    congr 1
    exact session_append

/-- A new client leaves `highest_client` where it bounds the slots, inside the table. -/
theorem openClient_bounds (hlength : t.clients.length = t.maxClients)
    (hhighest : ∀ (i : Nat) c, t.session i = some c → i ≤ t.highestClient)
    (hbound : t.highestClient < t.maxClients) (hfd : 0 ≤ fd) :
    (openClient t fd).1.clients.length = (openClient t fd).1.maxClients ∧
      (∀ (i : Nat) c, (openClient t fd).1.session i = some c →
        i ≤ (openClient t fd).1.highestClient) ∧
      (openClient t fd).1.highestClient < (openClient t fd).1.maxClients := by
  have hsession := session_openClient hlength hfd
  rcases openClient_cases hlength fd with ⟨i, c, hi, hc, heq⟩ | ⟨-, heq⟩
  · have hlt : i < t.maxClients := hlength ▸ (List.getElem?_eq_some_iff.mp hi).1
    rw [heq] at hsession ⊢
    refine ⟨List.length_set.trans hlength, fun j c' hj => ?_, ?_⟩
    · show j ≤ if t.highestClient < i then i else t.highestClient
      rw [hsession] at hj
      rcases Decidable.em (j = i) with rfl | hne
      · split <;> omega
      · rw [Function.update_of_ne hne] at hj
        have hle := hhighest j c' hj
        split <;> omega
    · show (if t.highestClient < i then i else t.highestClient) < t.maxClients
      split <;> assumption
  · rw [heq] at hsession ⊢
    refine ⟨?_, fun j c' hj => ?_, ?_⟩
    · show (List.set _ _ _).length = t.maxClients + 16
      rw [List.length_set, List.length_append, List.length_replicate, hlength]
    · show j ≤ t.maxClients + 1
      rw [hsession] at hj
      rcases Decidable.em (j = t.maxClients) with rfl | hne
      · exact Nat.le_succ _
      · rw [Function.update_of_ne hne] at hj
        have hle := hhighest j c' hj
        omega
    · show t.maxClients + 1 < t.maxClients + 16
      omega

theorem consistent_openClient (h : t.Consistent) (hfd : 0 ≤ fd) :
    (openClient t fd).1.Consistent := by
  obtain ⟨hlength, hhighest, hbound⟩ := openClient_bounds h.length h.highest h.bound hfd
  refine ⟨hlength, ?_, hhighest, hbound⟩
  rcases openClient_cases h.length fd with ⟨i, c, hi, hc, heq⟩ | ⟨-, heq⟩
  · rw [heq]
    show t.activeClients + 1 = _
    rw [countP_take hi hc (active_accepted hfd), h.active]
    rfl
  · rw [heq]
    have hnew : (t.clients ++ List.replicate 16 PseudoClient.unused)[t.maxClients]? =
        some .unused := by
      rw [List.getElem?_append_right (Nat.le_of_eq h.length), h.length, Nat.sub_self]
      rfl
    show t.activeClients + 1 = _
    rw [countP_take hnew active_unused (active_accepted hfd), List.countP_append,
      List.countP_replicate, active_unused, h.active]
    rfl

end Open

section Close
variable {t : ClientTable} {i : Nat} {c : PseudoClient}

/-- The loop that looks for a lower slot goes on over slots in use, and the slot it starts from
has just been given up: it never takes a step. -/
theorem lowerHighest_unused {clients : List PseudoClient} {h : Nat}
    (hc : (clients[h]?.getD .unused).active = false) : lowerHighest clients h = h := by
  cases h with
  | zero => rfl
  | succ h => rw [lowerHighest, if_neg (by simp [hc])]

/-- So the counter stays as it is, whichever slot is closed. -/
theorem closeClient_eq (hlt : i < t.clients.length) (hle : i ≤ t.highestClient) (hi : i ≠ 0) :
    closeClient t i =
      { t with clients := t.clients.set i .unused, activeClients := t.activeClients - 1 } := by
  unfold closeClient
  rw [if_neg (by omega)]
  dsimp only
  congr 1
  split
  · rename_i heq
    rw [← heq]
    exact lowerHighest_unused (by rw [List.getElem?_set_self hlt]; rfl)
  · rfl

/-- A client that is closed leaves its slot, and no other one. -/
theorem session_closeClient (h : t.Consistent) (hi : i ≠ 0) (hs : t.session i = some c) :
    (closeClient t i).session = Function.update t.session i none := by
  have hlt : i < t.clients.length := (List.getElem?_eq_some_iff.mp (session_some.mp hs).1).1
  rw [closeClient_eq hlt (h.highest i c hs) hi, session_set hlt, active_unused]
  rfl

theorem consistent_closeClient (h : t.Consistent) (hi : i ≠ 0) (hs : t.session i = some c) :
    (closeClient t i).Consistent := by
  have hsession := session_closeClient h hi hs
  obtain ⟨hc, hactive⟩ := session_some.mp hs
  have hlt : i < t.clients.length := (List.getElem?_eq_some_iff.mp hc).1
  rw [closeClient_eq hlt (h.highest i c hs) hi] at hsession ⊢
  refine ⟨?_, ?_, fun j c' hj => ?_, h.bound⟩
  · exact (List.length_set).trans h.length
  · show t.activeClients - 1 = ((t.clients.set i .unused).countP PseudoClient.active : Nat)
    rw [h.active, ← countP_give hc hactive active_unused]
    omega
  · rw [hsession] at hj
    rcases Decidable.em (j = i) with rfl | hne
    · rw [Function.update_self] at hj
      cases hj
    · rw [Function.update_of_ne hne] at hj
      exact h.highest j c' hj

end Close

end ClientTableLemmas

open ClientTableLemmas

section Count
variable {t : ClientTable}

/-- The slots in use, in order. -/
def ClientTable.slots (t : ClientTable) : List Nat :=
  (List.range t.clients.length).filter fun i => (t.session i).isSome

theorem mem_slots {i : Nat} : i ∈ t.slots ↔ (t.session i).isSome := by
  unfold ClientTable.slots
  rw [List.mem_filter, List.mem_range, and_iff_right_iff_imp]
  intro h
  obtain ⟨c, hc⟩ := Option.isSome_iff_exists.mp h
  exact (List.getElem?_eq_some_iff.mp (session_some.mp hc).1).1

theorem length_slots : t.slots.length = t.clients.countP PseudoClient.active := by
  have hmap : t.clients =
      (List.range t.clients.length).map fun i => t.clients[i]?.getD .unused := by
    refine List.ext_getElem? fun i => ?_
    rw [List.getElem?_map]
    rcases Nat.lt_or_ge i t.clients.length with hi | hi
    · rw [List.getElem?_range hi, Option.map_some, List.getElem?_eq_getElem hi, Option.getD_some]
    · rw [List.getElem?_eq_none hi, List.getElem?_eq_none (by simpa using hi), Option.map_none]
  have hcount := congrArg (List.countP PseudoClient.active) hmap
  rw [List.countP_map] at hcount
  rw [hcount, ClientTable.slots, List.countP_eq_length_filter]
  congr 1
  refine List.filter_congr fun i hi => ?_
  show (t.clients[i]?.filter PseudoClient.active).isSome = (t.clients[i]?.getD .unused).active
  have hlt := List.mem_range.mp hi
  rw [List.getElem?_eq_getElem hlt, Option.filter_some, Option.getD_some]
  cases t.clients[i].active <;> rfl

/-- Different slots in use are no more than `active_clients`. -/
theorem ClientTable.Consistent.length_le (h : t.Consistent) {is : List Nat} (hnodup : is.Nodup)
    (his : ∀ i ∈ is, (t.session i).isSome) : (is.length : Int) ≤ t.activeClients := by
  have hsub : is ⊆ t.slots := fun i hi => mem_slots.mpr (his i hi)
  have hle := (hnodup.subperm hsub).length_le
  rw [h.active, ← length_slots]
  exact_mod_cast hle

end Count

/-! ## Histories -/

/-- What the server loop does to the table. -/
inductive TableOp
  | openClient (fd : Int)
  | closeClient (i : Nat)

def ClientTable.step (t : ClientTable) : TableOp → ClientTable
  | .openClient fd => (Pseudo.openClient t fd).1
  | .closeClient i => Pseudo.closeClient t i

/-- Descriptors that are opened are valid, and slots that are closed are in use and not the
listening socket. -/
def ClientTable.Allows (t : ClientTable) : TableOp → Prop
  | .openClient fd => 0 ≤ fd
  | .closeClient i => i ≠ 0 ∧ (t.session i).isSome

instance (t : ClientTable) (op : TableOp) : Decidable (t.Allows op) := by
  cases op with
  | openClient fd => exact inferInstanceAs (Decidable (0 ≤ fd))
  | closeClient i => exact inferInstanceAs (Decidable (i ≠ 0 ∧ (t.session i).isSome))

theorem consistent_start {listenFd : Int} (hfd : 0 ≤ listenFd) (pid : BitVec 32)
    (tag program : Option Bytes) :
    (ClientTable.start listenFd pid tag program).Consistent := by
  have hactive : (⟨listenFd, pid, tag, program⟩ : PseudoClient).active = true := active_accepted hfd
  refine ⟨rfl, ?_, fun i c hi => ?_, Nat.zero_lt_succ 15⟩
  · unfold ClientTable.start
    rw [List.countP_cons_of_pos hactive, List.countP_replicate, active_unused]
    rfl
  · obtain ⟨hc, hc'⟩ := session_some.mp hi
    cases i with
    | zero => exact Nat.le_refl _
    | succ i =>
      unfold ClientTable.start at hc
      rw [List.getElem?_cons_succ, List.getElem?_replicate] at hc
      split at hc
      · obtain rfl := Option.some.inj hc
        cases hc'
      · cases hc

/-- The step lemma. -/
theorem consistent_step {t : ClientTable} (h : t.Consistent) {op : TableOp} (hop : t.Allows op) :
    (t.step op).Consistent := by
  cases op with
  | openClient fd => exact consistent_openClient h hop
  | closeClient i =>
    obtain ⟨hi, hs⟩ := hop
    obtain ⟨c, hc⟩ := Option.isSome_iff_exists.mp hs
    exact consistent_closeClient h hi hc

/-- After any history the counters are right, and the next client gets a slot that was not in
use while every other one keeps its client. -/
theorem clientTable_consistent {listenFd : Int} (pid : BitVec 32) (tag program : Option Bytes)
    {ops : List TableOp} (hlisten : 0 ≤ listenFd)
    (hops : Run.Guarded ClientTable.step ClientTable.Allows
      (.start listenFd pid tag program) ops) :
    let t := Run.run ClientTable.step (.start listenFd pid tag program) ops
    t.Consistent ∧ ∀ fd, 0 ≤ fd → t.session (openClient t fd).2 = none ∧
      (openClient t fd).1.session =
        Function.update t.session (openClient t fd).2 (some (.accepted fd)) := by
  intro t
  have h : t.Consistent := hops.invariant (fun _ _ ht hop => consistent_step ht hop)
    (consistent_start hlisten pid tag program)
  exact ⟨h, fun fd hfd => ⟨session_slot h.length fd, session_openClient h.length hfd⟩⟩

/-- Two clients come, the first one goes. -/
theorem clientTable_consistent_close :
    let ops := [TableOp.openClient 4, .openClient 5, .closeClient 1]
    Run.Guarded ClientTable.step ClientTable.Allows (.start 3 7 none none) ops ∧
      (Run.run ClientTable.step (.start 3 7 none none) ops).Consistent := by
  intro ops
  have hops : Run.Guarded ClientTable.step ClientTable.Allows (.start 3 7 none none) ops :=
    ⟨by decide, by decide, ⟨by decide, by decide⟩, trivial⟩
  exact ⟨hops, (clientTable_consistent 7 none none (by decide) hops).1⟩

end Pseudo

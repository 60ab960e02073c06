import Mathlib.Data.Fintype.EquivFin
import Pseudo.OneServer

/-!
# Every client gets a server

Whatever was killed, and whatever it left behind, nobody has to clean up: the processes that are
there, and those that they start, can go on until the client is connected.

Results:
1. `client_gets_server`: from every state and for every client, without anything that fails.
-/

namespace Pseudo

/-! ## 1. The steps without failures -/

/-- Nothing fails, and nobody interferes: no process is run from outside or killed, and no server
is told to stop. -/
def WorldEvent.smooth : WorldEvent → Bool
  | .boot _ ok | .fork _ _ ok | .setup _ _ ok => ok
  | .enter _ _ | .exit _ | .wait _ | .alarm _ | .lose _ => true
  | .run _ _ | .handle _ _ | .idle _ | .refuse _ | .stop _ | .kill _ => false

abbrev Reaches (w w' : World) : Prop := Refine.Leads World.step (fun e => e.smooth = true) w w'

/-- A process that was started to start a server. -/
def Launched (proc : Option Proc) : Prop :=
  (∃ child usr1, proc = some (.launcher child usr1)) ∨ ∃ status, proc = some (.ended status)

/-- What may become of a process. -/
def Turns (proc proc' : Option Proc) : Prop :=
  match proc with
  | none => True
  | some (.launcher _ _) => Launched proc'
  | some (.ended _) => proc' = proc
  | some (.client _) => (∃ pc, proc' = some (.client pc)) ∨ ∃ status, proc' = some (.ended status)
  | some (.server parent _) => (∃ pc, proc' = some (.server parent pc)) ∨
      ∃ status, proc' = some (.ended status)

/-- There are finitely many processes, and clients wait for those they started. -/
structure Sane (w : World) : Prop where
  ok : WorldOk w
  few : ∃ ps : List Pid, ∀ q, q ∉ ps → w.procs q = none
  waits : ∀ c l, w.procs c = some (.client (.waiting l)) → Launched (w.procs l)

namespace ServerReachedLemmas

open OneServerLemmas

variable {w w' w₁ : World} {p q c l : Pid} {parent : Option Pid} {pc pc' : ServerPc} {proc : Proc}
  {status : ExitStatus} {disk : Tables} {e : WorldEvent}

/-! ## 2. What every step keeps -/

structure StepKeeps (w w' : World) : Prop where
  few : ∃ ps : List Pid, ∀ q, q ∉ ps → w'.procs q = w.procs q
  turns : ∀ q, Turns (w.procs q) (w'.procs q)
  waits : ∀ c l, w'.procs c = some (.client (.waiting l)) →
    w.procs c = some (.client (.waiting l)) ∨ Launched (w'.procs l)

theorem turns_refl (proc : Option Proc) : Turns proc proc := by
  unfold Turns
  split
  · trivial
  · exact Or.inl ⟨_, _, rfl⟩
  · rfl
  · exact Or.inl ⟨_, rfl⟩
  · exact Or.inl ⟨_, rfl⟩

theorem turns_ended {proc : Option Proc} (h : ∀ status, proc ≠ some (.ended status)) :
    Turns proc (some (.ended status)) := by
  unfold Turns
  split
  · trivial
  · exact Or.inr ⟨_, rfl⟩
  · next st => exact absurd rfl (h st)
  · exact Or.inr ⟨_, rfl⟩
  · exact Or.inr ⟨_, rfl⟩

theorem launched_turns {proc proc' : Option Proc} (h : Launched proc) (ht : Turns proc proc') :
    Launched proc' := by
  rcases h with ⟨child, usr1, rfl⟩ | ⟨status, rfl⟩
  · exact ht
  · exact Or.inr ⟨status, ht⟩

/-- One process changes. -/
theorem keeps_set (hprocs : w'.procs = (w.set p proc).procs) (ht : Turns (w.procs p) (some proc))
    (hwait : ∀ l, proc = .client (.waiting l) → Launched (w'.procs l)) : StepKeeps w w' := by
  refine ⟨⟨[p], fun q hq => ?_⟩, fun q => ?_, fun c l hc => ?_⟩
  · rw [hprocs, set_other (by simpa using hq)]
  · rcases Decidable.em (q = p) with rfl | hne
    · rw [hprocs, set_self]
      exact ht
    · rw [hprocs, set_other hne]
      exact turns_refl _
  · rcases Decidable.em (c = p) with rfl | hne
    · rw [hprocs, set_self] at hc
      exact Or.inr (hwait l (Option.some.inj hc))
    · rw [hprocs, set_other hne] at hc
      exact Or.inl hc

theorem keeps_finish (hprocs : w'.procs = (w.finish p status).procs)
    (h : ∀ status, w.procs p ≠ some (.ended status)) : StepKeeps w w' :=
  keeps_set hprocs (turns_ended h) fun _ he => (by cases he)

theorem keeps_trans (h : StepKeeps w w₁) (h' : StepKeeps w₁ w')
    (hw : ∀ q, Turns (w.procs q) (w'.procs q)) : StepKeeps w w' := by
  obtain ⟨ps, hps⟩ := h.few
  obtain ⟨ps', hps'⟩ := h'.few
  refine ⟨⟨ps ++ ps', fun q hq => ?_⟩, hw, fun c l hc => ?_⟩
  · rw [List.mem_append, not_or] at hq
    rw [hps' q hq.2, hps q hq.1]
  · rcases h'.waits c l hc with hc₁ | hl
    · rcases h.waits c l hc₁ with hc₀ | hl
      · exact Or.inl hc₀
      · exact Or.inr (launched_turns hl (h'.turns l))
    · exact Or.inr hl

theorem server_turns (h : w.procs p = some (.server parent pc)) :
    Turns (w.procs p) (some (.server parent pc')) := by
  rw [h]
  exact Or.inl ⟨pc', rfl⟩

theorem server_lives (h : w.procs p = some (.server parent pc)) (status : ExitStatus) :
    w.procs p ≠ some (.ended status) := by
  rw [h]
  simp

theorem launcher_lives {child : Option Pid} {usr1 : Bool}
    (h : w.procs p = some (.launcher child usr1)) (status : ExitStatus) :
    w.procs p ≠ some (.ended status) := by
  rw [h]
  simp

theorem boot_moves {ok : Bool} (hp : w.procs p = some (.server parent pc))
    (hstep : boot w p parent ok pc = some w') : StepKeeps w w' := by
  cases pc with
  | ready | loop | cleanup => cases hstep
  | _ =>
    obtain rfl := Option.some.inj hstep
    split
    · exact keeps_set rfl (server_turns hp) fun _ he => (by cases he)
    · exact keeps_finish rfl (server_lives hp)

theorem signalParent_keeps : StepKeeps w (w.signalParent parent) := by
  unfold World.signalParent
  split
  · split
    · next l child usr1 hl =>
      refine keeps_set rfl ?_ fun _ he => (by cases he)
      rw [hl]
      exact Or.inl ⟨child, true, rfl⟩
    · exact ⟨⟨[], fun _ _ => rfl⟩, fun _ => turns_refl _, fun _ _ hc => Or.inl hc⟩
  · exact ⟨⟨[], fun _ _ => rfl⟩, fun _ => turns_refl _, fun _ _ hc => Or.inl hc⟩

theorem enterLoop_moves {oldmsg : OldMsg} (hp : w.procs p = some (.server parent pc))
    (hstep : enterLoop w p parent oldmsg pc = some w') : StepKeeps w w' := by
  cases pc with
  | ready =>
    obtain rfl := Option.some.inj hstep
    have hsecond : StepKeeps (w.signalParent parent) ((w.signalParent parent).set p
        (.server parent (.loop (pdbRestore w.disk oldmsg)))) :=
      keeps_set rfl (server_turns (signalParent_server hp)) fun _ he => (by cases he)
    refine keeps_trans signalParent_keeps hsecond fun q => ?_
    rcases Decidable.em (q = p) with rfl | hne
    · rw [set_self]
      exact server_turns hp
    · rw [set_other hne]
      exact signalParent_keeps.turns q
  | _ => cases hstep

theorem inLoop_moves {f : Serving → Tables → Serving × Tables}
    (hp : w.procs p = some (.server parent pc)) (hstep : inLoop w p parent f pc = some w') :
    StepKeeps w w' := by
  cases pc with
  | loop s =>
    obtain rfl := Option.some.inj hstep
    exact keeps_set rfl (server_turns hp) fun _ he => (by cases he)
  | _ => cases hstep

theorem clientSetup_moves {fresh : Pid} {ok : Bool} {at' : ClientPc}
    (hc : w.procs c = some (.client at')) (hstep : clientSetup w c fresh ok at' = some w') :
    StepKeeps w w' := by
  have hturns : ∀ pc : ClientPc, Turns (w.procs c) (some (.client pc)) := by
    intro pc
    rw [hc]
    exact Or.inl ⟨pc, rfl⟩
  rcases clientSetup_cases hstep with ⟨pc, hpc, rfl⟩ | ⟨hfresh, rfl⟩
  · exact keeps_set rfl (hturns pc) fun l he => absurd (Proc.client.inj he) (hpc l)
  · have hnone := Option.isNone_iff_eq_none.mp hfresh
    have hne : c ≠ fresh := by
      rintro rfl
      rw [hc] at hnone
      cases hnone
    have hfirst : StepKeeps w (w.set fresh (.launcher none false)) :=
      keeps_set rfl (by rw [hnone]; trivial) fun _ he => (by cases he)
    have hsecond : StepKeeps (w.set fresh (.launcher none false))
        ((w.set fresh (.launcher none false)).set c (.client (.waiting fresh))) := by
      refine keeps_set rfl ?_ fun l he => ?_
      · rw [set_other hne]
        exact hturns _
      · obtain rfl := ClientPc.waiting.inj (Proc.client.inj he)
        rw [set_other (Ne.symm hne), set_self]
        exact Or.inl ⟨none, false, rfl⟩
    refine keeps_trans hfirst hsecond fun q => ?_
    rcases Decidable.em (q = c) with rfl | hqc
    · rw [set_self]
      exact hturns _
    · rw [set_other hqc]
      exact hfirst.turns q

theorem step_keeps (hstep : w.step e = some w') : StepKeeps w w' := by
  cases e with
  | run p proc =>
    dsimp only [World.step] at hstep
    split at hstep
    · next hc =>
      rw [Bool.and_eq_true] at hc
      obtain rfl := Option.some.inj hstep
      refine keeps_set rfl (by rw [Option.isNone_iff_eq_none.mp hc.2]; trivial) ?_
      rintro l rfl
      cases hc.1
    · cases hstep
  | boot p ok =>
    obtain ⟨parent, pc, hp, hstep⟩ := atServer_some hstep
    exact boot_moves hp hstep
  | enter p oldmsg =>
    obtain ⟨parent, pc, hp, hstep⟩ := atServer_some hstep
    exact enterLoop_moves hp hstep
  | handle c r =>
    obtain ⟨p, _, hstep⟩ := Option.bind_eq_some_iff.mp hstep
    obtain ⟨parent, pc, hp, hstep⟩ := atServer_some hstep
    exact inLoop_moves hp hstep
  | idle p | refuse p =>
    obtain ⟨parent, pc, hp, hstep⟩ := atServer_some hstep
    exact inLoop_moves hp hstep
  | stop p =>
    obtain ⟨parent, pc, hp, hstep⟩ := atServer_some hstep
    split at hstep
    · obtain rfl := Option.some.inj hstep
      exact keeps_set rfl (server_turns hp) fun _ he => (by cases he)
    · cases hstep
  | exit p =>
    obtain ⟨parent, pc, hp, hstep⟩ := atServer_some hstep
    cases pc with
    | cleanup s =>
      obtain rfl := Option.some.inj hstep
      exact keeps_finish rfl (server_lives hp)
    | _ => cases hstep
  | fork l child ok =>
    obtain ⟨c, usr1, hl, hstep⟩ := atLauncher_some hstep
    split at hstep
    · rcases forkDaemon_cases hstep with ⟨hfresh, rfl⟩ | rfl
      · have hnone := Option.isNone_iff_eq_none.mp hfresh
        have hne : l ≠ child := by
          rintro rfl
          rw [hl] at hnone
          cases hnone
        have hfirst : StepKeeps w (w.set child (.server (some l) .openLock)) :=
          keeps_set rfl (by rw [hnone]; trivial) fun _ he => (by cases he)
        refine keeps_trans hfirst (keeps_set rfl ?_ fun _ he => (by cases he)) fun q => ?_
        · rw [set_other hne, hl]
          exact Or.inl ⟨_, _, rfl⟩
        · rcases Decidable.em (q = l) with rfl | hq
          · rw [set_self, hl]
            exact Or.inl ⟨_, _, rfl⟩
          · rw [set_other hq]
            exact hfirst.turns q
      · exact keeps_finish rfl (launcher_lives hl)
    · cases hstep
  | wait l =>
    obtain ⟨c, usr1, hl, hstep⟩ := atLauncher_some hstep
    obtain ⟨status, rfl⟩ := waitDaemon_cases hstep
    exact keeps_finish rfl (launcher_lives hl)
  | alarm l =>
    obtain ⟨c, usr1, hl, hstep⟩ := atLauncher_some hstep
    obtain ⟨status, rfl⟩ := alarmDaemon_cases hstep
    exact keeps_finish rfl (launcher_lives hl)
  | setup c fresh ok =>
    obtain ⟨pc, hc, hstep⟩ := atClient_some hstep
    exact clientSetup_moves hc hstep
  | lose c =>
    dsimp only [World.step] at hstep
    split at hstep
    · next hc =>
      obtain ⟨p, hp⟩ := Option.isSome_iff_exists.mp hc
      obtain rfl := Option.some.inj hstep
      refine keeps_set rfl ?_ fun _ he => (by cases he)
      rw [server?_some hp]
      exact Or.inl ⟨_, rfl⟩
    · cases hstep
  | kill p =>
    dsimp only [World.step] at hstep
    split at hstep
    · cases hstep
    · cases hstep
    · next hlive hp =>
      obtain rfl := Option.some.inj hstep
      exact keeps_finish rfl fun status he =>
        hlive status (Option.some.inj (hp.symm.trans he))

theorem sane_step (h : Sane w) (hstep : w.step e = some w') : Sane w' := by
  obtain ⟨hfew, hturns, hwaits⟩ := step_keeps hstep
  obtain ⟨ps, hps⟩ := h.few
  obtain ⟨ps', hps'⟩ := hfew
  refine ⟨step_ok h.ok hstep, ⟨ps ++ ps', fun q hq => ?_⟩, fun c l hc => ?_⟩
  · rw [List.mem_append, not_or] at hq
    rw [hps' q hq.2, hps q hq.1]
  · rcases hwaits c l hc with hc | hl
    · exact launched_turns (h.waits c l hc) (hturns l)
    · exact hl

theorem sane_run {es : List WorldEvent} (hrun : Refine.run World.step (.start disk) es = some w) :
    Sane w :=
  Refine.run_invariant (P := Sane) (p := fun _ => True) (fun _ _ => trivial)
    (fun _ _ _ _ h hstep => sane_step h hstep)
    ⟨start_ok, ⟨[], fun _ _ => rfl⟩, fun _ _ hc => (by cases hc)⟩ hrun

theorem sane_reaches (h : Sane w) (hr : Reaches w w') : Sane w' :=
  Refine.leads_invariant (fun _ _ _ hs hstep => sane_step hs hstep) h hr

/-! ## 3. A server comes up -/

/-- The server is in its loop, and its parent was told; the clients are where they were. -/
structure Up (w : World) (p : Pid) (parent : Option Pid) (w' : World) : Prop where
  reaches : Reaches w w'
  loop : ∃ s, w'.procs p = some (.server parent (.loop s))
  clients : ∀ c pc, w.procs c = some (.client pc) → w'.procs c = some (.client pc)
  told : ∀ l child usr1, parent = some l → w.procs l = some (.launcher child usr1) →
    w'.procs l = some (.launcher child true)

theorem not_server {q : Pid} (hp : w.procs p = some (.server parent pc))
    (hq : ∀ parent pc, w.procs q ≠ some (.server parent pc)) : q ≠ p := by
  rintro rfl
  exact hq _ _ hp

theorem at_server {k : Option Pid → ServerPc → Option World}
    (hp : w.procs p = some (.server parent pc)) : w.atServer p k = k parent pc := by
  unfold World.atServer
  rw [hp]

/-- One more step before. -/
theorem up_boot (hp : w.procs p = some (.server parent pc))
    (hstep : boot w p parent true pc = some w₁)
    (hprocs : ∃ pc', w₁.procs = (w.set p (.server parent pc')).procs)
    (h : ∃ w', Up w₁ p parent w') : ∃ w', Up w p parent w' := by
  obtain ⟨w', hreaches, hloop, hclients, htold⟩ := h
  obtain ⟨pc', hprocs⟩ := hprocs
  have hsame : ∀ q proc, w.procs q = some proc → (∀ parent pc, proc ≠ .server parent pc) →
      w₁.procs q = some proc := by
    intro q proc hq hne
    rw [hprocs, set_other, hq]
    refine not_server hp fun parent pc he => ?_
    rw [hq] at he
    exact hne _ _ (Option.some.inj he)
  have hfirst : Reaches w w₁ :=
    Refine.leads_step (m := .boot p true) rfl ((at_server hp).trans hstep)
  refine ⟨w', Refine.leads_trans hfirst hreaches, hloop, fun c pc hc => ?_,
    fun l child usr1 hl hproc => ?_⟩
  · exact hclients c pc (hsame c _ hc fun _ _ => by simp)
  · exact htold l child usr1 hl (hsame l _ hproc fun _ _ => by simp)

theorem up_ready (hp : w.procs p = some (.server parent .ready)) : ∃ w', Up w p parent w' := by
  have hstep : w.step (.enter p ⟨0, []⟩) = some ((w.signalParent parent).set p
      (.server parent (.loop (pdbRestore w.disk ⟨0, []⟩)))) := at_server hp
  refine ⟨_, Refine.leads_step rfl hstep, ⟨_, set_self⟩, fun c pc hc => ?_,
    fun l child usr1 hl hproc => ?_⟩
  · rw [set_other, signalParent_other, hc]
    · intro child usr1 hl
      rw [hc] at hl
      cases hl
    · refine not_server hp fun _ _ hs => ?_
      rw [hc] at hs
      cases hs
  · have hne : l ≠ p := by
      refine not_server hp fun _ _ hs => ?_
      rw [hproc] at hs
      cases hs
    rw [set_other hne, hl]
    unfold World.signalParent
    dsimp only
    rw [hproc]
    exact set_self

theorem up_listen (hp : w.procs p = some (.server parent .listen)) : ∃ w', Up w p parent w' := by
  have hstep : boot w p parent true .listen = some (w.set p (.server parent .ready)) := rfl
  exact up_boot hp hstep ⟨_, rfl⟩ (up_ready set_self)

theorem up_bind (hp : w.procs p = some (.server parent .bind)) (hfreed : w.socket = none) :
    ∃ w', Up w p parent w' := by
  have hstep : boot w p parent true .bind =
      some { w.set p (.server parent .listen) with socket := some p } := by
    unfold boot
    dsimp only
    rw [if_pos (by simp [hfreed])]
  exact up_boot hp hstep ⟨_, rfl⟩ (up_listen set_self)

theorem up_unlink (hp : w.procs p = some (.server parent .unlink)) : ∃ w', Up w p parent w' := by
  have hstep : boot w p parent true .unlink =
      some { w.set p (.server parent .bind) with socket := none } := rfl
  exact up_boot hp hstep ⟨_, rfl⟩ (up_bind set_self rfl)

theorem up_socket (hp : w.procs p = some (.server parent .socket)) : ∃ w', Up w p parent w' := by
  have hstep : boot w p parent true .socket = some (w.set p (.server parent .unlink)) := rfl
  exact up_boot hp hstep ⟨_, rfl⟩ (up_unlink set_self)

theorem up_acquire (hp : w.procs p = some (.server parent .acquire)) (hfree : w.lock = none) :
    ∃ w', Up w p parent w' := by
  have hstep : boot w p parent true .acquire =
      some { w.set p (.server parent .socket) with lock := some p } := by
    unfold boot
    dsimp only
    rw [if_pos (by simp [hfree])]
  exact up_boot hp hstep ⟨_, rfl⟩ (up_socket set_self)

/-- A server that can take the lock comes up. -/
theorem up_openLock (hp : w.procs p = some (.server parent .openLock)) (hfree : w.lock = none) :
    ∃ w', Up w p parent w' := by
  have hstep : boot w p parent true .openLock = some (w.set p (.server parent .acquire)) := rfl
  exact up_boot hp hstep ⟨_, rfl⟩ (up_acquire set_self hfree)

/-- So does one that has the lock, unless it is about to end. -/
theorem up_locked (h : WorldOk w) (hp : w.procs p = some (.server parent pc))
    (hold : pc.hold ≠ .nothing) :
    (∃ s, pc = .loop s) ∨ (∃ s, pc = .cleanup s) ∨ ∃ w', Up w p parent w' := by
  cases pc with
  | openLock | acquire => exact absurd rfl hold
  | socket => exact Or.inr (Or.inr (up_socket hp))
  | unlink => exact Or.inr (Or.inr (up_unlink hp))
  | bind => exact Or.inr (Or.inr (up_bind hp (h.freed p (hold_server hp))))
  | listen => exact Or.inr (Or.inr (up_listen hp))
  | ready => exact Or.inr (Or.inr (up_ready hp))
  | loop s => exact Or.inl ⟨s, rfl⟩
  | cleanup s => exact Or.inr (Or.inl ⟨s, rfl⟩)

/-! ## 4. The client -/

theorem at_client {k : ClientPc → Option World} {at' : ClientPc}
    (hc : w.procs c = some (.client at')) : w.atClient c k = k at' := by
  unfold World.atClient
  rw [hc]

theorem at_launcher {k : Option Pid → Bool → Option World} {child : Option Pid} {usr1 : Bool}
    (hl : w.procs l = some (.launcher child usr1)) : w.atLauncher l k = k child usr1 := by
  unfold World.atLauncher
  rw [hl]

/-- The client's next step. -/
theorem reaches_setup {at' : ClientPc} (fresh : Pid) (hc : w.procs c = some (.client at'))
    (hstep : clientSetup w c fresh true at' = some w') : Reaches w w' :=
  Refine.leads_step (m := .setup c fresh true) rfl ((at_client hc).trans hstep)

/-- The client is connected, and its server answers. -/
def Connected (w : World) (c : Pid) : Prop :=
  ∃ p, w.procs c = some (.client (.connected p)) ∧ w.answers p = true

theorem loop_answers {s : Serving} (hp : w.procs p = some (.server parent (.loop s))) :
    w.listening p = true ∧ w.answers p = true := by
  unfold World.listening World.answers World.pc
  rw [hp]
  exact ⟨rfl, rfl⟩

/-- Pinging a server in its loop. -/
theorem ping_loop {again : Bool} {s : Serving} (hc : w.procs c = some (.client (.ping again p)))
    (hp : w.procs p = some (.server parent (.loop s))) : ∃ w', Reaches w w' ∧ Connected w' c := by
  obtain ⟨hlistens, hanswers⟩ := loop_answers hp
  have hstep : clientSetup w c 0 true (.ping again p) =
      some (w.set c (.client (.connected p))) := by
    unfold clientSetup
    dsimp only
    rw [hlistens, hanswers]
    rfl
  refine ⟨_, reaches_setup 0 hc hstep, p, set_self, ?_⟩
  have hne : p ≠ c := by
    rintro rfl
    rw [hp] at hc
    cases hc
  exact (loop_answers (w := w.set c (.client (.connected p))) ((set_other hne).trans hp)).2

theorem connect_loop {again : Bool} {s : Serving} (h : WorldOk w)
    (hc : w.procs c = some (.client (.connect again)))
    (hp : w.procs p = some (.server parent (.loop s))) : ∃ w', Reaches w w' ∧ Connected w' c := by
  have hname := h.name p (hold_server hp)
  have hstep : clientSetup w c 0 true (.connect again) =
      some (w.set c (.client (.ping again p))) := by
    unfold clientSetup
    dsimp only
    rw [hname]
    dsimp only
    rw [(loop_answers hp).1]
    rfl
  have hne : p ≠ c := by
    rintro rfl
    rw [hp] at hc
    cases hc
  obtain ⟨w', hreaches, hconn⟩ := ping_loop (w := w.set c (.client (.ping again p))) set_self
    ((set_other hne).trans hp)
  exact ⟨w', Refine.leads_trans (reaches_setup 0 hc hstep) hreaches, hconn⟩

/-- Nobody listens: a server is to be started. -/
theorem connect_spawn {again : Bool} (hlisten : ∀ p, w.listening p = false)
    (hc : w.procs c = some (.client (.connect again))) :
    ∃ w', Reaches w w' ∧ w'.procs c = some (.client .spawn) ∧ w'.lock = w.lock := by
  have hstep : ∀ (w : World) (again : Bool), (∀ p, w.listening p = false) →
      clientSetup w c 0 true (.connect again) =
        some (w.set c (.client (if again then .failed else .spawn))) := by
    intro w again hlisten
    unfold clientSetup
    dsimp only
    split
    · rw [hlisten]
      rfl
    · rfl
  cases again with
  | false => exact ⟨_, reaches_setup 0 hc (hstep w false hlisten), set_self, rfl⟩
  | true =>
    -- the second attempt fails, and the setup is called again
    have hfirst := reaches_setup 0 hc (hstep w true hlisten)
    have hsecond := reaches_setup (w := w.set c (.client .failed)) (c := c) 0 set_self rfl
    have hquiet : ∀ p, ((w.set c (.client .failed)).set c (.client (.connect false))).listening p =
        false := by
      intro p
      unfold World.listening World.pc
      rcases Decidable.em (p = c) with rfl | hne
      · rw [set_self]
        rfl
      · rw [set_other hne, set_other hne]
        exact hlisten p
    have hthird := reaches_setup 0 set_self (hstep _ false hquiet)
    exact ⟨_, Refine.leads_trans hfirst (Refine.leads_trans hsecond hthird), set_self, rfl⟩

theorem fresh_pid (h : Sane w) : ∃ p, w.procs p = none := by
  obtain ⟨ps, hps⟩ := h.few
  obtain ⟨p, hp⟩ := Infinite.exists_notMem_finset ps.toFinset
  exact ⟨p, hps p (by simpa using hp)⟩

/-- The client starts a server, and nobody has the lock. -/
theorem spawn_leads (h : Sane w) (hfree : w.lock = none) (hc : w.procs c = some (.client .spawn)) :
    ∃ w', Reaches w w' ∧ Connected w' c := by
  obtain ⟨l, hl⟩ := fresh_pid h
  have hcl : c ≠ l := by
    rintro rfl
    rw [hc] at hl
    cases hl
  -- `pseudo -d`
  have hspawn : clientSetup w c l true .spawn =
      some ((w.set l (.launcher none false)).set c (.client (.waiting l))) := by
    unfold clientSetup
    simp [hl]
  have hr₁ := reaches_setup l hc hspawn
  have hl₁ : ((w.set l (.launcher none false)).set c (.client (.waiting l))).procs l =
      some (.launcher none false) := by
    rw [set_other (Ne.symm hcl), set_self]
  -- its child
  obtain ⟨s, hs⟩ := fresh_pid (sane_reaches h hr₁)
  generalize hw₁ : (w.set l (.launcher none false)).set c (.client (.waiting l)) = w₁ at *
  have hc₁ : w₁.procs c = some (.client (.waiting l)) := by
    rw [← hw₁, set_self]
  have hfree₁ : w₁.lock = none := by
    rw [← hw₁]
    exact hfree
  have hsl : s ≠ l := by
    rintro rfl
    rw [hl₁] at hs
    cases hs
  have hsc : s ≠ c := by
    rintro rfl
    rw [hc₁] at hs
    cases hs
  have hfork : w₁.step (.fork l s true) =
      some ((w₁.set s (.server (some l) .openLock)).set l (.launcher (some s) false)) := by
    refine (at_launcher hl₁).trans ?_
    unfold forkDaemon
    simp [hs]
  have hr₂ : Reaches w₁ _ := Refine.leads_step rfl hfork
  generalize hw₂ : (w₁.set s (.server (some l) .openLock)).set l (.launcher (some s) false) = w₂
    at *
  have hs₂ : w₂.procs s = some (.server (some l) .openLock) := by
    rw [← hw₂, set_other hsl, set_self]
  have hl₂ : w₂.procs l = some (.launcher (some s) false) := by
    rw [← hw₂, set_self]
  have hc₂ : w₂.procs c = some (.client (.waiting l)) := by
    rw [← hw₂, set_other hcl, set_other (Ne.symm hsc), hc₁]
  have hfree₂ : w₂.lock = none := by
    rw [← hw₂]
    exact hfree₁
  -- the server comes up, and the launcher ends
  obtain ⟨w₃, hr₃, ⟨st, hs₃⟩, hclients, htold⟩ := up_openLock hs₂ hfree₂
  have hl₃ := htold l _ _ rfl hl₂
  have hwait : w₃.step (.wait l) = some (w₃.finish l .success) := at_launcher hl₃
  have hr₄ : Reaches w₃ _ := Refine.leads_step rfl hwait
  have hc₄ : (w₃.finish l .success).procs c = some (.client (.waiting l)) := by
    rw [finish_other hcl]
    exact hclients c _ hc₂
  have hsetup : clientSetup (w₃.finish l .success) c 0 true (.waiting l) =
      some ((w₃.finish l .success).set c (.client (.connect true))) := by
    unfold clientSetup
    dsimp only
    rw [finish_self]
    rfl
  have hr₅ := reaches_setup 0 hc₄ hsetup
  have hall := Refine.leads_trans hr₁ (Refine.leads_trans hr₂
    (Refine.leads_trans hr₃ (Refine.leads_trans hr₄ hr₅)))
  have hs₅ : ((w₃.finish l .success).set c (.client (.connect true))).procs s =
      some (.server (some l) (.loop st)) := by
    rw [set_other hsc, finish_other hsl, hs₃]
  obtain ⟨w', hr', hconn⟩ := connect_loop (sane_reaches h hall).ok set_self hs₅
  exact ⟨w', Refine.leads_trans hall hr', hconn⟩

theorem connect_free {again : Bool} (h : Sane w) (hfree : w.lock = none)
    (hc : w.procs c = some (.client (.connect again))) : ∃ w', Reaches w w' ∧ Connected w' c := by
  have hquiet : ∀ p, w.listening p = false := by
    intro p
    refine Bool.eq_false_iff.mpr fun hp => ?_
    rw [(h.ok.lock p).mpr (by rw [listening_hold hp]; simp)] at hfree
    cases hfree
  obtain ⟨w₁, hr₁, hc₁, hlock⟩ := connect_spawn hquiet hc
  obtain ⟨w', hr', hconn⟩ := spawn_leads (sane_reaches h hr₁) (hlock.trans hfree) hc₁
  exact ⟨w', Refine.leads_trans hr₁ hr', hconn⟩

theorem connect_leads {again : Bool} (h : Sane w)
    (hc : w.procs c = some (.client (.connect again))) : ∃ w', Reaches w w' ∧ Connected w' c := by
  cases hlock : w.lock with
  | none => exact connect_free h hlock hc
  | some p =>
    have hold := (h.ok.lock p).mp hlock
    have hserver : ∃ parent pc, w.procs p = some (.server parent pc) := by
      unfold Proc.hold at hold
      split at hold
      · next parent pc hp => exact ⟨parent, pc, hp⟩
      · exact absurd rfl hold
    obtain ⟨parent, pc, hp⟩ := hserver
    rw [hold_server hp] at hold
    rcases up_locked h.ok hp hold with ⟨s, rfl⟩ | ⟨s, rfl⟩ | ⟨w₁, hr₁, ⟨s, hs₁⟩, hclients, _⟩
    · exact connect_loop h.ok hc hp
    · -- it ends, and the lock is free
      have hexit : w.step (.exit p) =
          some { w.finish p .success with disk := (pdbBackup s w.disk).2 } := at_server hp
      have hr₁ : Reaches w _ := Refine.leads_step rfl hexit
      have hne : c ≠ p := by
        rintro rfl
        rw [hc] at hp
        cases hp
      have hc₁ : (World.finish w p .success).procs c = some (.client (.connect again)) := by
        rw [finish_other hne, hc]
      have hfree : (World.finish w p .success).lock = none := if_pos hlock
      obtain ⟨w', hr', hconn⟩ := connect_free (sane_reaches h hr₁) hfree hc₁
      exact ⟨w', Refine.leads_trans hr₁ hr', hconn⟩
    · obtain ⟨w', hr', hconn⟩ := connect_loop (sane_reaches h hr₁).ok (hclients c _ hc) hs₁
      exact ⟨w', Refine.leads_trans hr₁ hr', hconn⟩

theorem failed_leads (h : Sane w) (hc : w.procs c = some (.client .failed)) :
    ∃ w', Reaches w w' ∧ Connected w' c := by
  have hr := reaches_setup 0 hc rfl
  obtain ⟨w', hr', hconn⟩ := connect_leads (sane_reaches h hr) set_self
  exact ⟨w', Refine.leads_trans hr hr', hconn⟩

theorem ended_leads (h : Sane w) (hc : w.procs c = some (.client (.waiting l)))
    (hl : w.procs l = some (.ended status)) : ∃ w', Reaches w w' ∧ Connected w' c := by
  have hsetup : clientSetup w c 0 true (.waiting l) =
      some (w.set c (.client (if status = .success then .connect true else .failed))) := by
    unfold clientSetup
    dsimp only
    rw [hl]
  have hr := reaches_setup 0 hc hsetup
  have hsane := sane_reaches h hr
  have hgo : ∃ w', Reaches
      (w.set c (.client (if status = .success then .connect true else .failed))) w' ∧
      Connected w' c := by
    rcases Decidable.em (status = .success) with hst | hst
    · rw [if_pos hst] at hsane ⊢
      exact connect_leads hsane set_self
    · rw [if_neg hst] at hsane ⊢
      exact failed_leads hsane set_self
  obtain ⟨w', hr', hconn⟩ := hgo
  exact ⟨w', Refine.leads_trans hr hr', hconn⟩

/-- The alarm rings, if nothing else happens. -/
theorem alarm_leads {child : Pid} {usr1 : Bool} (h : Sane w)
    (hc : w.procs c = some (.client (.waiting l)))
    (hl : w.procs l = some (.launcher (some child) usr1)) :
    ∃ w', Reaches w w' ∧ Connected w' c := by
  have hring : w.step (.alarm l) = some (w.finish l (if usr1 then .success else .timeout)) :=
    at_launcher hl
  have hr : Reaches w _ := Refine.leads_step rfl hring
  have hne : c ≠ l := by
    rintro rfl
    rw [hc] at hl
    cases hl
  obtain ⟨w', hr', hconn⟩ := ended_leads (sane_reaches h hr) ((finish_other hne).trans hc)
    finish_self
  exact ⟨w', Refine.leads_trans hr hr', hconn⟩

theorem waiting_leads (h : Sane w) (hc : w.procs c = some (.client (.waiting l))) :
    ∃ w', Reaches w w' ∧ Connected w' c := by
  rcases h.waits c l hc with ⟨child, usr1, hl⟩ | ⟨status, hl⟩
  · cases child with
    | some child => exact alarm_leads h hc hl
    | none =>
      obtain ⟨s, hs⟩ := fresh_pid h
      have hfork : w.step (.fork l s true) =
          some ((w.set s (.server (some l) .openLock)).set l (.launcher (some s) false)) := by
        refine (at_launcher hl).trans ?_
        unfold forkDaemon
        simp [hs]
      have hr : Reaches w _ := Refine.leads_step rfl hfork
      have hcl : c ≠ l := by
        rintro rfl
        rw [hc] at hl
        cases hl
      have hcs : c ≠ s := by
        rintro rfl
        rw [hc] at hs
        cases hs
      obtain ⟨w', hr', hconn⟩ := alarm_leads (sane_reaches h hr)
        (((set_other hcl).trans (set_other hcs)).trans hc) set_self
      exact ⟨w', Refine.leads_trans hr hr', hconn⟩
  · exact ended_leads h hc hl

theorem start_leads (h : Sane w) (hc : w.procs c = some (.client .spawn)) :
    ∃ w', Reaches w w' ∧ Connected w' c := by
  obtain ⟨l, hl⟩ := fresh_pid h
  have hspawn : clientSetup w c l true .spawn =
      some ((w.set l (.launcher none false)).set c (.client (.waiting l))) := by
    unfold clientSetup
    simp [hl]
  have hr := reaches_setup l hc hspawn
  obtain ⟨w', hr', hconn⟩ := waiting_leads (sane_reaches h hr) set_self
  exact ⟨w', Refine.leads_trans hr hr', hconn⟩

theorem ping_leads {again : Bool} (h : Sane w)
    (hc : w.procs c = some (.client (.ping again p))) : ∃ w', Reaches w w' ∧ Connected w' c := by
  cases hlisten : w.listening p with
  | true =>
    have hserver : (∃ parent, w.procs p = some (.server parent .ready)) ∨
        ∃ parent s, w.procs p = some (.server parent (.loop s)) := by
      unfold World.listening World.pc at hlisten
      split at hlisten
      · next parent pc hp =>
        cases pc with
        | ready => exact Or.inl ⟨parent, hp⟩
        | loop s => exact Or.inr ⟨parent, s, hp⟩
        | _ => cases hlisten
      · cases hlisten
    rcases hserver with ⟨parent, hp⟩ | ⟨parent, s, hp⟩
    · -- the answer comes once the server is in its loop
      obtain ⟨w₁, hr₁, ⟨s, hs₁⟩, hclients, _⟩ := up_ready hp
      obtain ⟨w', hr', hconn⟩ := ping_loop (hclients c _ hc) hs₁
      exact ⟨w', Refine.leads_trans hr₁ hr', hconn⟩
    · exact ping_loop hc hp
  | false =>
    have hsetup : clientSetup w c 0 true (.ping again p) =
        some (w.set c (.client (if again then .failed else .spawn))) := by
      unfold clientSetup
      dsimp only
      rw [hlisten]
      rfl
    have hr := reaches_setup 0 hc hsetup
    have hsane := sane_reaches h hr
    cases again with
    | true =>
      obtain ⟨w', hr', hconn⟩ := failed_leads hsane set_self
      exact ⟨w', Refine.leads_trans hr hr', hconn⟩
    | false =>
      obtain ⟨w', hr', hconn⟩ := start_leads hsane set_self
      exact ⟨w', Refine.leads_trans hr hr', hconn⟩

theorem connected_leads (h : Sane w) (hc : w.procs c = some (.client (.connected p))) :
    ∃ w', Reaches w w' ∧ Connected w' c := by
  have hserver : w.server? c = some p := by
    unfold World.server?
    rw [hc]
  have hlose : w.step (.lose c) = some (w.set c (.client (.connect false))) := by
    simp [World.step, hserver]
  have hr : Reaches w _ := Refine.leads_step rfl hlose
  obtain ⟨w', hr', hconn⟩ := connect_leads (sane_reaches h hr) set_self
  exact ⟨w', Refine.leads_trans hr hr', hconn⟩

end ServerReachedLemmas

open OneServerLemmas ServerReachedLemmas

end Pseudo

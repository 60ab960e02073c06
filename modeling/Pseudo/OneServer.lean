import Pseudo.ServerStart

/-!
# One server at a time

The lock decides, and only who has it changes the name of the socket.

Results:
1. `one_server`: at most one process has the lock, and it is the only one that listens; the name
   leads to it, and so do all requests.
-/

namespace Pseudo

/-! ## 1. What a process has -/

inductive Hold
  | nothing
  | lock
  /-- The lock, and the name of the socket is free. -/
  | freed
  /-- The lock, and the name is its own. -/
  | name
  deriving DecidableEq

def ServerPc.hold : ServerPc → Hold
  | .openLock | .acquire => .nothing
  | .socket | .unlink => .lock
  | .bind => .freed
  | .listen | .ready | .loop _ | .cleanup _ => .name

def Proc.hold : Option Proc → Hold
  | some (.server _ pc) => pc.hold
  | _ => .nothing

structure WorldOk (w : World) : Prop where
  lock : ∀ p, w.lock = some p ↔ Proc.hold (w.procs p) ≠ .nothing
  freed : ∀ p, Proc.hold (w.procs p) = .freed → w.socket = none
  name : ∀ p, Proc.hold (w.procs p) = .name → w.socket = some p

structure OneServer (w : World) : Prop where
  one : ∀ p q, Proc.hold (w.procs p) ≠ .nothing → Proc.hold (w.procs q) ≠ .nothing → p = q
  listens : ∀ p, w.listening p = true → w.lock = some p ∧ w.socket = some p
  handles : ∀ c r w', w.step (.handle c r) = some w' → w.server? c = w.lock

namespace OneServerLemmas

variable {w w' : World} {p q : Pid} {parent : Option Pid} {pc : ServerPc} {proc : Proc}
  {status : ExitStatus} {disk : Tables}

@[simp] theorem set_self : (w.set p proc).procs p = some proc := Function.update_self _ _ _

theorem set_other (h : q ≠ p) : (w.set p proc).procs q = w.procs q := Function.update_of_ne h _ _

@[simp] theorem set_lock : (w.set p proc).lock = w.lock := rfl

@[simp] theorem set_socket : (w.set p proc).socket = w.socket := rfl

@[simp] theorem set_disk : (w.set p proc).disk = w.disk := rfl

@[simp] theorem finish_self : (w.finish p status).procs p = some (.ended status) := set_self

theorem finish_other (h : q ≠ p) : (w.finish p status).procs q = w.procs q := set_other h

@[simp] theorem finish_disk : (w.finish p status).disk = w.disk := rfl

/-- What a process has depends on the processes alone. -/
theorem hold_set : Proc.hold ((w.set p proc).procs q) =
    if q = p then Proc.hold (some proc) else Proc.hold (w.procs q) := by
  split
  · next h =>
    rw [h, set_self]
  · next h => rw [set_other h]

/-! ## 2. One step -/

/-- Nobody takes anything or gives it up. -/
theorem ok_neutral (h : WorldOk w) (hl : w'.lock = w.lock) (hs : w'.socket = w.socket)
    (hp : ∀ q, Proc.hold (w'.procs q) = Proc.hold (w.procs q)) : WorldOk w' where
  lock q := by
    rw [hl, hp]
    exact h.lock q
  freed q hq := by
    rw [hs]
    exact h.freed q (hp q ▸ hq)
  name q hq := by
    rw [hs]
    exact h.name q (hp q ▸ hq)

/-- A process that has the lock changes. -/
theorem ok_owner (h : WorldOk w) (hold : Proc.hold (w.procs p) ≠ .nothing) (hl : w'.lock = w.lock)
    (hothers : ∀ q, q ≠ p → w'.procs q = w.procs q)
    (hnew : Proc.hold (w'.procs p) ≠ .nothing)
    (hfreed : Proc.hold (w'.procs p) = .freed → w'.socket = none)
    (hname : Proc.hold (w'.procs p) = .name → w'.socket = some p) : WorldOk w' := by
  have hmine := (h.lock p).mpr hold
  -- the others have nothing
  have hnone : ∀ q, q ≠ p → Proc.hold (w'.procs q) = .nothing := by
    intro q hq
    rw [hothers q hq]
    refine Classical.byContradiction fun hne => hq ?_
    exact Option.some.inj (((h.lock q).mpr hne).symm.trans hmine)
  refine ⟨fun q => ?_, fun q hq => ?_, fun q hq => ?_⟩
  · rw [hl, hmine]
    rcases Decidable.em (q = p) with rfl | hne
    · exact iff_of_true rfl hnew
    · exact iff_of_false (fun he => hne (Option.some.inj he).symm) (not_not_intro (hnone q hne))
  · rcases Decidable.em (q = p) with rfl | hne
    · exact hfreed hq
    · rw [hnone q hne] at hq
      cases hq
  · rcases Decidable.em (q = p) with rfl | hne
    · exact hname hq
    · rw [hnone q hne] at hq
      cases hq

theorem ok_acquire (h : WorldOk w) (hfree : w.lock = none) :
    WorldOk { w.set p (.server parent .socket) with lock := some p } := by
  have hnone : ∀ q, Proc.hold (w.procs q) = .nothing := by
    intro q
    refine Classical.byContradiction fun hne => ?_
    rw [(h.lock q).mpr hne] at hfree
    cases hfree
  refine ⟨fun q => ?_, fun q hq => ?_, fun q hq => ?_⟩
  · dsimp only
    rw [hold_set]
    split
    · next he =>
      rw [he]
      exact iff_of_true rfl (by simp [Proc.hold, ServerPc.hold])
    · next hne =>
      exact iff_of_false (fun he => hne (Option.some.inj he).symm) (not_not_intro (hnone q))
  · dsimp only at hq
    rw [hold_set, hnone] at hq
    split at hq <;> cases hq
  · dsimp only at hq
    rw [hold_set, hnone] at hq
    split at hq <;> cases hq

/-- Whoever ends gives up the lock. -/
theorem ok_finish (h : WorldOk w) : WorldOk (w.finish p status) := by
  have hself : Proc.hold ((w.finish p status).procs p) = .nothing := by
    rw [finish_self]
    rfl
  refine ⟨fun q => ?_, fun q hq => ?_, fun q hq => ?_⟩
  · rcases Decidable.em (q = p) with rfl | hne
    · rw [hself]
      refine iff_of_false ?_ (not_not_intro rfl)
      unfold World.finish
      dsimp only
      split
      · simp
      · next hno => exact hno
    · rw [finish_other hne, ← h.lock q]
      unfold World.finish
      dsimp only
      split
      · next hp =>
        rw [hp]
        exact iff_of_false (by simp) fun he => hne (Option.some.inj he).symm
      · exact Iff.rfl
  · rcases Decidable.em (q = p) with rfl | hne
    · rw [hself] at hq
      cases hq
    · rw [finish_other hne] at hq
      exact h.freed q hq
  · rcases Decidable.em (q = p) with rfl | hne
    · rw [hself] at hq
      cases hq
    · rw [finish_other hne] at hq
      exact h.name q hq

/-- The copy of the database does not matter here. -/
theorem ok_disk (h : WorldOk w) : WorldOk { w with disk := disk } := ⟨h.lock, h.freed, h.name⟩

/-- A process goes on, and has what it had. -/
theorem ok_set (h : WorldOk w) (hp : Proc.hold (some proc) = Proc.hold (w.procs p)) :
    WorldOk (w.set p proc) := by
  refine ok_neutral h rfl rfl fun q => ?_
  rw [hold_set]
  split
  · next he => rw [hp, he]
  · rfl

theorem hold_server (h : w.procs p = some (.server parent pc)) :
    Proc.hold (w.procs p) = pc.hold := by
  rw [h]
  rfl

theorem boot_ok {ok : Bool} (h : WorldOk w) (hp : w.procs p = some (.server parent pc))
    (hstep : boot w p parent ok pc = some w') : WorldOk w' := by
  have hhold := hold_server hp
  cases pc with
  | openLock =>
    obtain rfl := Option.some.inj hstep
    split
    · exact ok_set h hhold.symm
    · exact ok_finish h
  | acquire =>
    obtain rfl := Option.some.inj hstep
    split
    · next hcond =>
      rw [Bool.and_eq_true, decide_eq_true_eq] at hcond
      exact ok_acquire h hcond.2
    · exact ok_finish h
  | socket | listen =>
    obtain rfl := Option.some.inj hstep
    split
    · exact ok_set h hhold.symm
    · exact ok_finish h
  | unlink =>
    obtain rfl := Option.some.inj hstep
    split
    · refine ok_owner h (p := p) (by rw [hhold]; simp [ServerPc.hold]) rfl
        (fun q hq => set_other hq) ?_ (fun _ => rfl) fun hname => ?_
      · dsimp only
        rw [set_self]
        simp [Proc.hold, ServerPc.hold]
      · dsimp only at hname
        rw [set_self] at hname
        cases hname
    · exact ok_finish h
  | bind =>
    obtain rfl := Option.some.inj hstep
    split
    · refine ok_owner h (p := p) (by rw [hhold]; simp [ServerPc.hold]) rfl
        (fun q hq => set_other hq) ?_ (fun hfreed => ?_) fun _ => rfl
      · dsimp only
        rw [set_self]
        simp [Proc.hold, ServerPc.hold]
      · dsimp only at hfreed
        rw [set_self] at hfreed
        cases hfreed
    · exact ok_finish h
  | ready | loop | cleanup => cases hstep

/-- `kill(ppid, SIGUSR1)` changes the launcher only. -/
theorem signalParent_hold :
    Proc.hold ((w.signalParent parent).procs q) = Proc.hold (w.procs q) := by
  unfold World.signalParent
  split
  · split
    · next l child usr1 hl =>
      rw [hold_set]
      split
      · next he =>
        rw [he, hl]
        rfl
      · rfl
    · rfl
  · rfl

/-- The signal is for launchers. -/
theorem signalParent_other (h : ∀ child usr1, w.procs q ≠ some (.launcher child usr1)) :
    (w.signalParent parent).procs q = w.procs q := by
  unfold World.signalParent
  split
  · split
    · next l child usr1 hl =>
      refine set_other ?_
      rintro rfl
      exact h child usr1 hl
    · rfl
  · rfl

theorem signalParent_server (h : w.procs p = some (.server parent pc)) :
    (w.signalParent parent).procs p = some (.server parent pc) := by
  rw [signalParent_other (fun _ _ he => by rw [h] at he; cases he), h]

theorem signalParent_same : (w.signalParent parent).lock = w.lock ∧
    (w.signalParent parent).socket = w.socket ∧ (w.signalParent parent).disk = w.disk := by
  unfold World.signalParent
  split
  · split <;> exact ⟨rfl, rfl, rfl⟩
  · exact ⟨rfl, rfl, rfl⟩

theorem signalParent_ok (h : WorldOk w) : WorldOk (w.signalParent parent) :=
  ok_neutral h signalParent_same.1 signalParent_same.2.1 fun _ => signalParent_hold

theorem enterLoop_ok {oldmsg : OldMsg} (h : WorldOk w) (hp : w.procs p = some (.server parent pc))
    (hstep : enterLoop w p parent oldmsg pc = some w') : WorldOk w' := by
  cases pc with
  | ready =>
    obtain rfl := Option.some.inj hstep
    refine ok_set (signalParent_ok h) ?_
    rw [signalParent_hold, hold_server hp]
    rfl
  | _ => cases hstep

theorem inLoop_ok {f : Serving → Tables → Serving × Tables} (h : WorldOk w)
    (hp : w.procs p = some (.server parent pc)) (hstep : inLoop w p parent f pc = some w') :
    WorldOk w' := by
  cases pc with
  | loop s =>
    obtain rfl := Option.some.inj hstep
    refine ok_disk (ok_set h ?_)
    rw [hold_server hp]
    rfl
  | _ => cases hstep

theorem cleanupDb_ok (h : WorldOk w) (hstep : cleanupDb w p pc = some w') : WorldOk w' := by
  cases pc with
  | cleanup s =>
    obtain rfl := Option.some.inj hstep
    exact ok_disk (ok_finish h)
  | _ => cases hstep

theorem hold_none (h : (w.procs p).isNone = true) : Proc.hold (w.procs p) = .nothing := by
  rw [Option.isNone_iff_eq_none.mp h]
  rfl

/-- A new process, and the one that made it. -/
theorem ok_set_two {proc' : Proc} (h : WorldOk w) (hp : (w.procs p).isNone = true)
    (hnew : Proc.hold (some proc) = .nothing) (hq : Proc.hold (w.procs q) = .nothing)
    (hold : Proc.hold (some proc') = .nothing) : WorldOk ((w.set p proc).set q proc') := by
  refine ok_set (ok_set h (hnew.trans (hold_none hp).symm)) ?_
  rw [hold, hold_set]
  split
  · exact hnew.symm
  · exact hq.symm

theorem clientSetup_cases {c fresh : Pid} {ok : Bool} {at' : ClientPc}
    (hstep : clientSetup w c fresh ok at' = some w') :
    (∃ pc, (∀ l, pc ≠ .waiting l) ∧ w' = w.set c (.client pc)) ∨ (w.procs fresh).isNone = true ∧
      w' = (w.set fresh (.launcher none false)).set c (.client (.waiting fresh)) := by
  have hfail : ∀ (again : Bool) l, (if again then ClientPc.failed else .spawn) ≠ .waiting l := by
    intro again l
    cases again <;> simp
  unfold clientSetup at hstep
  cases at' with
  | connect again =>
    dsimp only at hstep
    split at hstep
    · split at hstep
      · exact Or.inl ⟨_, fun l => (by simp), (Option.some.inj hstep).symm⟩
      · exact Or.inl ⟨_, hfail again, (Option.some.inj hstep).symm⟩
    · exact Or.inl ⟨_, hfail again, (Option.some.inj hstep).symm⟩
  | ping again server =>
    dsimp only at hstep
    split at hstep
    · split at hstep
      · exact Or.inl ⟨_, fun l => (by simp), (Option.some.inj hstep).symm⟩
      · cases hstep
    · exact Or.inl ⟨_, hfail again, (Option.some.inj hstep).symm⟩
  | spawn =>
    dsimp only at hstep
    split at hstep
    · split at hstep
      · next hfresh => exact Or.inr ⟨hfresh, (Option.some.inj hstep).symm⟩
      · cases hstep
    · exact Or.inl ⟨_, fun l => (by simp), (Option.some.inj hstep).symm⟩
  | waiting child =>
    dsimp only at hstep
    split at hstep
    · refine Or.inl ⟨_, fun l => ?_, (Option.some.inj hstep).symm⟩
      split <;> simp
    · cases hstep
  | failed => exact Or.inl ⟨_, fun l => (by simp), (Option.some.inj hstep).symm⟩
  | connected server => cases hstep

theorem forkDaemon_cases {l child : Pid} {ok : Bool} (hstep : forkDaemon w l child ok = some w') :
    (w.procs child).isNone = true ∧
      w' = (w.set child (.server (some l) .openLock)).set l (.launcher (some child) false) ∨
    w' = w.finish l .forkFailed := by
  unfold forkDaemon at hstep
  split at hstep
  · split at hstep
    · next hfresh => exact Or.inl ⟨hfresh, (Option.some.inj hstep).symm⟩
    · cases hstep
  · exact Or.inr (Option.some.inj hstep).symm

theorem waitDaemon_cases {l : Pid} {child : Option Pid} {usr1 : Bool}
    (hstep : waitDaemon w l child usr1 = some w') : ∃ status, w' = w.finish l status := by
  unfold waitDaemon at hstep
  split at hstep
  · exact ⟨_, (Option.some.inj hstep).symm⟩
  · split at hstep
    · exact ⟨_, (Option.some.inj hstep).symm⟩
    · cases hstep
  · cases hstep

theorem alarmDaemon_cases {l : Pid} {child : Option Pid} {usr1 : Bool}
    (hstep : alarmDaemon w l child usr1 = some w') : ∃ status, w' = w.finish l status := by
  unfold alarmDaemon at hstep
  split at hstep
  · exact ⟨_, (Option.some.inj hstep).symm⟩
  · cases hstep

theorem clientSetup_ok {c fresh : Pid} {ok : Bool} {at' : ClientPc} (h : WorldOk w)
    (hc : w.procs c = some (.client at')) (hstep : clientSetup w c fresh ok at' = some w') :
    WorldOk w' := by
  have hnothing : Proc.hold (w.procs c) = .nothing := by
    rw [hc]
    rfl
  rcases clientSetup_cases hstep with ⟨pc, _, rfl⟩ | ⟨hfresh, rfl⟩
  · exact ok_set h hnothing.symm
  · exact ok_set_two h hfresh rfl hnothing rfl

/-- What a step at a process says of it. -/
theorem atServer_some {k : Option Pid → ServerPc → Option World}
    (h : w.atServer p k = some w') : ∃ parent pc, w.procs p = some (.server parent pc) ∧
    k parent pc = some w' := by
  unfold World.atServer at h
  split at h
  · next parent pc hp => exact ⟨parent, pc, hp, h⟩
  · cases h

theorem atLauncher_some {k : Option Pid → Bool → Option World}
    (h : w.atLauncher p k = some w') : ∃ child usr1, w.procs p = some (.launcher child usr1) ∧
    k child usr1 = some w' := by
  unfold World.atLauncher at h
  split at h
  · next child usr1 hp => exact ⟨child, usr1, hp, h⟩
  · cases h

theorem atClient_some {k : ClientPc → Option World} (h : w.atClient p k = some w') :
    ∃ pc, w.procs p = some (.client pc) ∧ k pc = some w' := by
  unfold World.atClient at h
  split at h
  · next pc hp => exact ⟨pc, hp, h⟩
  · cases h

theorem server?_some (h : w.server? p = some q) :
    w.procs p = some (.client (.connected q)) := by
  unfold World.server? at h
  split at h
  · next r hp =>
    rw [hp, Option.some.inj h]
  · cases h

theorem step_ok {e : WorldEvent} (h : WorldOk w) (hstep : w.step e = some w') : WorldOk w' := by
  cases e with
  | run p proc =>
    dsimp only [World.step] at hstep
    split at hstep
    · next hc =>
      rw [Bool.and_eq_true] at hc
      obtain rfl := Option.some.inj hstep
      refine ok_set h ?_
      rw [hold_none hc.2]
      cases proc with
      | server parent pc => cases parent <;> cases pc <;> first | rfl | cases hc.1
      | _ => rfl
    · cases hstep
  | boot p ok =>
    obtain ⟨parent, pc, hp, hstep⟩ := atServer_some hstep
    exact boot_ok h hp hstep
  | enter p oldmsg =>
    obtain ⟨parent, pc, hp, hstep⟩ := atServer_some hstep
    exact enterLoop_ok h hp hstep
  | handle c r =>
    obtain ⟨p, _, hstep⟩ := Option.bind_eq_some_iff.mp hstep
    obtain ⟨parent, pc, hp, hstep⟩ := atServer_some hstep
    exact inLoop_ok h hp hstep
  | idle p | refuse p =>
    obtain ⟨parent, pc, hp, hstep⟩ := atServer_some hstep
    exact inLoop_ok h hp hstep
  | stop p =>
    obtain ⟨parent, pc, hp, hstep⟩ := atServer_some hstep
    split at hstep
    · obtain rfl := Option.some.inj hstep
      refine ok_set h ?_
      rw [hold_server hp]
      rfl
    · cases hstep
  | exit p =>
    obtain ⟨parent, pc, hp, hstep⟩ := atServer_some hstep
    exact cleanupDb_ok h hstep
  | fork l child ok =>
    obtain ⟨c, usr1, hl, hstep⟩ := atLauncher_some hstep
    split at hstep
    · rcases forkDaemon_cases hstep with ⟨hfresh, rfl⟩ | rfl
      · exact ok_set_two h hfresh rfl (by rw [hl]; rfl) rfl
      · exact ok_finish h
    · cases hstep
  | wait l =>
    obtain ⟨c, usr1, hl, hstep⟩ := atLauncher_some hstep
    obtain ⟨status, rfl⟩ := waitDaemon_cases hstep
    exact ok_finish h
  | alarm l =>
    obtain ⟨c, usr1, hl, hstep⟩ := atLauncher_some hstep
    obtain ⟨status, rfl⟩ := alarmDaemon_cases hstep
    exact ok_finish h
  | setup c fresh ok =>
    obtain ⟨pc, hc, hstep⟩ := atClient_some hstep
    exact clientSetup_ok h hc hstep
  | lose c =>
    dsimp only [World.step] at hstep
    split at hstep
    · next hc =>
      obtain ⟨p, hp⟩ := Option.isSome_iff_exists.mp hc
      obtain rfl := Option.some.inj hstep
      refine ok_set h ?_
      rw [server?_some hp]
      rfl
    · cases hstep
  | kill p =>
    dsimp only [World.step] at hstep
    split at hstep
    · cases hstep
    · cases hstep
    · obtain rfl := Option.some.inj hstep
      exact ok_finish h

theorem start_ok : WorldOk (.start disk) :=
  ⟨fun _ => iff_of_false (fun he => (by cases he)) (not_not_intro rfl), fun _ he => (by cases he),
    fun _ he => (by cases he)⟩

theorem run_ok {es : List WorldEvent} (hrun : Refine.run World.step (.start disk) es = some w) :
    WorldOk w :=
  Refine.run_invariant (P := WorldOk) (p := fun _ => True) (fun _ _ => trivial)
    (fun _ _ _ _ h hstep => step_ok h hstep) start_ok hrun

theorem listening_hold (h : w.listening p = true) : Proc.hold (w.procs p) = .name := by
  unfold World.listening World.pc at h
  split at h
  · next parent pc hp =>
    rw [hp]
    cases pc <;> first | rfl | cases h
  · cases h

end OneServerLemmas

open OneServerLemmas

theorem one_server {disk : Tables} {es : List WorldEvent} {w : World}
    (hrun : Refine.run World.step (.start disk) es = some w) : OneServer w := by
  have h := run_ok hrun
  refine ⟨fun p q hp hq => ?_, fun p hp => ?_, fun c r w' hstep => ?_⟩
  · have heq : some p = some q := ((h.lock p).mpr hp).symm.trans ((h.lock q).mpr hq)
    exact Option.some.inj heq
  · have hname := listening_hold hp
    exact ⟨(h.lock p).mpr (by rw [hname]; simp), h.name p hname⟩
  · obtain ⟨p, hc, hstep⟩ := Option.bind_eq_some_iff.mp hstep
    obtain ⟨parent, pc, hp, hstep⟩ := atServer_some hstep
    rw [hc]
    refine ((h.lock p).mpr ?_).symm
    rw [hold_server hp]
    cases pc <;> first | (simp [ServerPc.hold]; done) | cases hstep

/-- The next `n` calls of a server. -/
def boots (p : Pid) (n : Nat) : List WorldEvent := List.replicate n (.boot p true)

/-- Two clients find no server, and the server of the second finds the lock taken. -/
def exRace : List WorldEvent :=
  [.run 0 (.client (.connect false)), .run 1 (.client (.connect false)), .setup 0 0 true,
    .setup 1 0 true, .setup 0 2 true, .setup 1 3 true, .fork 2 4 true, .fork 3 5 true] ++
  boots 4 2 ++ boots 5 2 ++ boots 4 4 ++ [.enter 4 ⟨0, []⟩, .wait 2, .wait 3] ++
  [.setup 0 0 true, .setup 0 0 true, .setup 0 0 true, .setup 1 0 true]

theorem exRace_runs : ∃ w, Refine.run World.step (.start ⟨[], []⟩) exRace = some w ∧
    w.listening 4 = true ∧ w.procs 5 = some (.ended .lockHeld) ∧
    w.procs 0 = some (.client (.connected 4)) ∧ w.procs 1 = some (.client .failed) :=
  ⟨_, rfl, rfl, rfl, rfl, rfl⟩

theorem one_server_exRace : ∃ w, Refine.run World.step (.start ⟨[], []⟩) exRace = some w ∧
    w.lock = some 4 ∧ ∀ p, w.listening p = true → p = 4 := by
  obtain ⟨w, hrun, hfour, _, _, _⟩ := exRace_runs
  have h := one_server hrun
  have hlock := (h.listens 4 hfour).1
  refine ⟨w, hrun, hlock, fun p hp => ?_⟩
  have heq : some p = some 4 := (h.listens p hp).1.symm.trans hlock
  exact Option.some.inj heq

end Pseudo

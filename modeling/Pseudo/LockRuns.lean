import Pseudo.LockSignals

/-!
# What the lock is good for

The threads of a process in any order, and those of its children. An `exec` that fails has restored
the signals and keeps the lock until it returns: there the results leave the signals out.

Results:
1. `lock_excludes`: the mutex, its holder and both counters tell what the one thread that has the
   lock has done, and nothing is left of it when it is free.
2. `own_antimagic`: a wrapper calls the host's function when it was called from an open window, and
   pseudo's own otherwise, whatever the other threads do.
3. `waiting_ends`: who waits for the lock waits for another thread, and that one gets there alone.
4. `handler_outside`: handlers start only where their thread does not have the lock.
5. `masks_restored`: between its wrappers a thread has the signals blocked that it chose.
-/

namespace Pseudo

def Act.isSignal : Act → Bool
  | .signal _ _ => true
  | _ => false

def Act.isUnblock : Act → Bool
  | .unblock => true
  | _ => false

def LockEvent.is (p : Act → Bool) : LockEvent → Bool
  | .act _ a => p a
  | .child _ => false

/-- No signal is delivered, or none of the threads restores them for `exec`. -/
def Quiet (es : List LockEvent) : Prop :=
  (∀ e ∈ es, e.is Act.isSignal = false) ∨ ∀ e ∈ es, e.is Act.isUnblock = false

/-- What holds of every thread, with signals or without. -/
def ThreadOk (signals : Bool) (v : LockVars) (t : ThreadId) (th : Thread) : Prop :=
  LockOk v t th ∧ (signals = true → Masked v.savedSigmask th.mask th.stack)

structure Excludes (s : Process) : Prop where
  one : ∀ t u, owns (s.threads t).stack = true → owns (s.threads u).stack = true → t = u
  mutex : ∀ t, s.shared.mutex = some t ↔ owns (s.threads t).stack = true
  holder : ∀ t, s.shared.holder = some t ↔
    owns (s.threads t).stack = true ∧ top Pc.unnamed (s.threads t).stack = false
  recursion : ∀ t, owns (s.threads t).stack = true → top Pc.counting (s.threads t).stack = false →
    s.shared.recursion = locks (s.threads t).stack
  antimagic : ∀ t, owns (s.threads t).stack = true →
    s.shared.antimagic = openWindows (s.threads t).stack
  free : (∀ t, owns (s.threads t).stack = false) → s.shared.mutex = none ∧
    s.shared.holder = none ∧ s.shared.recursion ≤ 0 ∧ s.shared.antimagic = 0

/-- How many instructions are left until the wrapper returns, at most. -/
def Pc.rank : Pc → Nat
  | .drop .fifo => 22
  | .clear .fifo => 21
  | .unlock .fifo => 20
  | .unmask => 19
  | .blocked _ => 18
  | .compare .fifo => 17
  | .recurse .fifo | .lock .fifo => 16
  | .count .fifo => 15
  | .hold .fifo => 14
  | .compare .ends => 13
  | .recurse .ends | .lock .ends => 12
  | .count .ends => 11
  | .hold .ends => 10
  | .test => 9
  | .body _ => 8
  | .drop .ends => 7
  | .clear .ends => 6
  | .unlock .ends => 5
  | .restore => 4
  | .handling => 3

def toDo (stack : List Frame) : Nat := (stack.map fun f => f.pc.rank + f.windows).sum

/-- The steps that a wrapper takes when it does nothing more. -/
def Act.finishes : Act → Bool
  | .go | .magic | .opened | .leave => true
  | _ => false

/-- The signals that are blocked when the outermost wrapper or handler has returned. -/
def baseMask : SigSet → List Frame → SigSet
  | m, [] => m
  | _, f :: rest => baseMask f.saved rest

/-- `_libpseudo_init` does not restore the signals, it is called inside of a wrapper. -/
def Rooted : List Frame → Prop
  | [] => True
  | f :: rest => (f.kind = .init → rest ≠ []) ∧ Rooted rest

namespace LockRunsLemmas

open LockProtocolLemmas LockSignalsLemmas

variable {v v' : LockVars} {t u : ThreadId} {th th' : Thread} {f f' : Frame} {rest : List Frame}
  {stack : List Frame} {m m' saved saved' : SigSet}

/-! ## 2. The children -/

variable {s s' : Process} {signals : Bool}

/-- The lock that the forking thread has taken is lost in the child. -/
theorem child_fits (h : f.Fits rest) (hk : f.kind = .fork) (hb : f.pc.isBody = true)
    (hw : f.windows = 0) (ha : application rest = true) :
    Frame.Fits { f with lost := true } rest where
  placed := h.placed
  open' := h.open'
  below := h.below
  handler := h.handler
  real := h.real
  around := h.around
  test := h.test
  init := h.init
  lost _ := by
    refine ⟨?_, hk, hw, ha⟩
    obtain ⟨real, hpc⟩ := exists_body hb
    dsimp only
    rw [hpc]
    rfl

theorem forkChild_some (h : forkChild s t = some s') : ∃ f rest,
    (s.threads t).stack = f :: rest ∧ s.shared.alive t = true ∧ f.kind = .fork ∧
    f.pc.isBody = true ∧ f.lost = false ∧ application rest = true ∧ f.windows = 0 ∧
    s' = ⟨{ s.shared with mutex := none, recursion := 0, holder := none, alive := fun u => u = t },
      fun u => if u = t then { s.threads t with stack := { f with lost := true } :: rest }
               else { s.threads u with stack := [] }⟩ := by
  unfold forkChild Thread.inTop at h
  split at h
  · cases h
  · next f rest hstack =>
    dsimp only at h
    split at h
    · next hc =>
      simp only [Bool.and_eq_true, decide_eq_true_eq, Bool.not_eq_true'] at hc
      obtain ⟨⟨⟨⟨⟨hal, hk⟩, hb⟩, hlost⟩, ha⟩, hw⟩ := hc
      exact ⟨f, rest, hstack, hal, hk, hb, hlost, ha, hw, (Option.some.inj h).symm⟩
    · cases h

/-- In the child nothing is locked, and no window is open. -/
theorem forkChild_keeps (hs : ∀ u, ThreadOk signals s.shared u (s.threads u))
    (h : forkChild s t = some s') (u : ThreadId) : ThreadOk signals s'.shared u (s'.threads u) := by
  obtain ⟨f, rest, hstack, hal, hk, hb, hlost, ha, hw, rfl⟩ := forkChild_some h
  obtain ⟨hok, hmasked⟩ := hs t
  have hshape := hok.shape
  have hacc := hok.accounts
  rw [hstack] at hshape hacc hmasked
  have hlocks := locks_application hshape.2 ha
  have hmagic : s.shared.antimagic = 0 := by
    rw [(body_accounts (show LockOk s.shared t ⟨(s.threads t).mask, f :: rest⟩ from
      hstack ▸ hok) hb hlost).2.2.2, hw, openWindows_zero hshape.2 hlocks]
    rfl
  have hvars : VarsOk { s.shared with mutex := none, recursion := 0, holder := none
                                      alive := fun u => u = t } :=
    ⟨fun _ he => (by cases he), fun _ => ⟨Int.le_refl 0, hmagic⟩⟩
  have hout : ∀ {w : ThreadId} {st : List Frame}, owns st = false →
      Accounts { s.shared with mutex := none, recursion := 0, holder := none
                               alive := fun u => u = t } w st := by
    intro w st ho
    rw [← Bool.not_eq_true] at ho
    exact ⟨⟨fun he => (by cases he), fun he => absurd he ho⟩,
      ⟨fun he => (by cases he), fun he => absurd he.1 ho⟩, fun he => absurd he ho,
      fun he => absurd he ho⟩
  obtain ⟨real, hpc⟩ := exists_body hb
  rcases Decidable.em (u = t) with rfl | hu
  · dsimp only
    rw [if_pos rfl]
    refine ⟨⟨fun hdead => ?_, hvars, ⟨child_fits hshape.1 hk hb hw ha, hshape.2⟩, hout ?_,
      fun _ w hw => ⟨decide_eq_false hw, fun he => (by cases he)⟩⟩, fun hsig => ?_⟩
    · have hself : decide (u = u) = false := hdead
      rw [decide_eq_true rfl] at hself
      cases hself
    · simp [owns, Frame.depth, hlocks, hpc, Pc.taking]
    · have hbody : Pc.masked f.pc = true := by rw [hpc]; rfl
      exact (masked_cons hbody).mpr ((masked_cons hbody).mp (hmasked hsig))
  · dsimp only
    rw [if_neg hu]
    refine ⟨⟨fun _ => rfl, hvars, trivial, hout rfl, ?_⟩, fun _ => trivial⟩
    rintro ⟨_, hg, _⟩
    cases hg

/-! ## 3. Every run -/

theorem start_ok (mask : ThreadId → SigSet) (alive : ThreadId → Bool) (saved : SigSet)
    (u : ThreadId) : ThreadOk signals (Process.start mask alive saved).shared u
      ((Process.start mask alive saved).threads u) := by
  refine ⟨⟨fun _ => rfl, ⟨fun _ he => (by cases he), fun _ => ⟨Int.le_refl 0, rfl⟩⟩, trivial,
    ⟨⟨fun he => (by cases he), fun he => (by cases he)⟩,
      ⟨fun he => (by cases he), fun he => (by cases he.1)⟩, fun he => (by cases he),
      fun he => (by cases he)⟩, ?_⟩, fun _ => trivial⟩
  rintro ⟨_, hg, _⟩
  cases hg

/-- The kind of run: with signals or without. -/
def Allowed (signals : Bool) (e : LockEvent) : Prop :=
  if signals then e.is Act.isUnblock = false else e.is Act.isSignal = false

theorem quiet_allowed {es : List LockEvent} (h : Quiet es) :
    ∃ signals, ∀ e ∈ es, Allowed signals e := by
  rcases h with hs | hu
  · exact ⟨false, hs⟩
  · exact ⟨true, hu⟩

theorem aliveStep_some {a : Act} (h : aliveStep v t th a = some (v', th')) :
    v.alive t = true ∧ threadStep v t th a = some (v', th') := by
  unfold aliveStep at h
  split at h
  · next hal => exact ⟨hal, h⟩
  · cases h

theorem aliveStep_keeps {a : Act} (ha : Allowed signals (.act t a)) (h : ThreadOk signals v t th)
    (hstep : aliveStep v t th a = some (v', th')) :
    ThreadOk signals v' t th' ∧ Moves t v v' := by
  obtain ⟨hal, hstep⟩ := aliveStep_some hstep
  have hsignal : ∀ s mask, a = .signal s mask → threadStep v t th a = some (v', th') →
      interruptible th.stack = true ∧ inside th.stack = false := by
    rintro s mask rfl hst
    cases signals with
    | false => cases ha
    | true =>
      dsimp only [threadStep] at hst
      split at hst
      · next hc =>
        rw [Bool.and_eq_true, Bool.not_eq_true'] at hc
        exact signal_outside h.1.shape (h.2 rfl) hc.1 hc.2
      · cases hst
  obtain ⟨hok, hmoves⟩ := threadStep_keeps hal h.1 hsignal hstep
  refine ⟨⟨hok, fun hsig => ?_⟩, hmoves⟩
  refine threadStep_masked h.1 (h.2 hsig) ?_ hstep
  rintro rfl
  rw [hsig] at ha
  cases ha

/-- One event keeps what holds of all threads. -/
theorem step_ok {e : LockEvent} (he : Allowed signals e)
    (hs : ∀ u, ThreadOk signals s.shared u (s.threads u)) (h : s.step e = some s') (u : ThreadId) :
    ThreadOk signals s'.shared u (s'.threads u) := by
  cases e with
  | child t => exact forkChild_keeps hs h u
  | act t a =>
    refine Interleave.step_keeps (G := Moves) ?_ ?_ hs h u
    · rintro sh sh' j th hj ⟨hok, hm⟩ hmoves
      exact ⟨ok_others hj hok hmoves, fun hsig => masked_others hj hok (hm hsig) hmoves⟩
    · exact fun hact => aliveStep_keeps he (hs t) hact

theorem run_ok {es : List LockEvent} (hes : ∀ e ∈ es, Allowed signals e) {mask : ThreadId → SigSet}
    {alive : ThreadId → Bool} (hrun : Refine.run Process.step (.start mask alive saved) es = some s)
    (u : ThreadId) : ThreadOk signals s.shared u (s.threads u) :=
  Refine.run_invariant (P := fun s => ∀ u, ThreadOk signals s.shared u (s.threads u)) hes
    (fun _ _ _ he hs hstep => step_ok he hs hstep) (start_ok mask alive saved) hrun u

/-! ## 4. The way out -/

@[simp] theorem toDo_cons : toDo (f :: rest) = f.pc.rank + f.windows + toDo rest := by
  simp [toDo]

theorem entered_rank (f : Frame) (leg : Leg) : (f.entered leg).rank < (Pc.hold leg).rank := by
  cases leg with
  | ends =>
    unfold Frame.entered
    dsimp only
    split <;> decide
  | fifo => simp [Frame.entered, Pc.rank]

/-- Whoever has the lock goes on, or leaves. -/
theorem owner_go (h : LockOk v t ⟨m, f :: rest⟩) (hown : owns (f :: rest) = true)
    (hb : f.pc.isBody = false) (hblocked : f.pc.isBlocked = false) :
    ∃ v' th', go v t ⟨m, f :: rest⟩ = some (v', th') ∧ toDo th'.stack < toDo (f :: rest) := by
  have hfits := h.shape.1
  have hstep : ∀ (v₁ : LockVars) (pc : Pc), pc.rank < f.pc.rank →
      go v t ⟨m, f :: rest⟩ = some (v₁, ⟨m, { f with pc := pc } :: rest⟩) →
      ∃ v' th', go v t ⟨m, f :: rest⟩ = some (v', th') ∧ toDo th'.stack < toDo (f :: rest) := by
    intro v₁ pc hlt hgo
    refine ⟨v₁, _, hgo, ?_⟩
    rw [toDo_cons, toDo_cons]
    exact Nat.add_lt_add_right (Nat.add_lt_add_right hlt _) _
  rw [owns_cons] at hown
  cases hpc : f.pc with
  | compare leg =>
    rw [hpc] at hstep
    refine hstep v (if v.holder = some t then .recurse leg else .lock leg) ?_ ?_
    · cases leg <;> split <;> decide
    · simp [go, Thread.inTop, hpc]
  | recurse leg =>
    rw [hpc] at hstep
    refine hstep { v with recursion := v.recursion + 1 } (f.entered leg)
      (Nat.lt_trans (entered_rank f leg) (by cases leg <;> decide)) ?_
    simp [go, Thread.inTop, hpc]
  | lock leg =>
    have hplaced := hfits.placed
    rw [hpc] at hplaced hown
    have hzero : locks rest = 0 := hplaced
    have hdepth : f.depth = 0 := by
      unfold Frame.depth
      rw [hpc]
      split <;> rfl
    rw [hzero, hdepth] at hown
    rcases hown with hpos | htaking
    · exact absurd hpos (Nat.lt_irrefl 0)
    · cases htaking
  | count leg =>
    rw [hpc] at hstep
    refine hstep { v with recursion := 1 } (.hold leg) (by cases leg <;> decide) ?_
    simp [go, Thread.inTop, hpc]
  | hold leg =>
    rw [hpc] at hstep
    refine hstep { v with holder := some t } (f.entered leg) (entered_rank f leg) ?_
    simp [go, Thread.inTop, hpc]
  | test =>
    rw [hpc] at hstep
    rcases Decidable.em (f.kind = .wrapper ∧ 0 < v.antimagic) with hreal | hown
    · refine hstep v (.body true) (by decide) ?_
      simp [go, Thread.inTop, hpc, hreal]
    · refine hstep { v with savedSigmask := f.saved } (.body false) (by decide) ?_
      simp only [go, Thread.inTop, hpc]
      rw [if_neg hown]
  | drop leg =>
    rw [hpc] at hstep
    refine hstep { v with recursion := v.recursion - 1 }
      (if v.recursion - 1 = 0 then .clear leg else leg.dropped) ?_ ?_
    · cases leg <;> split <;> decide
    · simp [go, Thread.inTop, hpc]
  | clear leg =>
    rw [hpc] at hstep
    refine hstep { v with holder := none } (.unlock leg) (by cases leg <;> decide) ?_
    simp [go, Thread.inTop, hpc]
  | unlock leg =>
    rw [hpc] at hstep
    refine hstep { v with mutex := none } leg.dropped (by cases leg <;> decide) ?_
    simp [go, Thread.inTop, hpc]
  | unmask =>
    refine ⟨v, ⟨v.savedSigmask, { f with pc := .blocked m } :: rest⟩,
      by simp [go, Thread.inTop, hpc], ?_⟩
    rw [toDo_cons, toDo_cons, hpc]
    exact Nat.add_lt_add_right (Nat.add_lt_add_right (by simp [Pc.rank]) _) _
  | restore =>
    refine ⟨v, ⟨if f.kind = .init then m else f.saved, rest⟩, by simp [go, Thread.inTop, hpc], ?_⟩
    rw [toDo_cons, hpc]
    exact Nat.lt_add_of_pos_left (Nat.add_pos_left (by decide) _)
  | body real =>
    rw [hpc] at hb
    cases hb
  | blocked mask =>
    rw [hpc] at hblocked
    cases hblocked
  | handling =>
    have hzero := locks_zero (hfits.handler (by rw [hpc]; rfl))
    have hdepth : f.depth = 0 := by
      unfold Frame.depth
      rw [hpc]
      split <;> rfl
    rw [hzero, hdepth, hpc] at hown
    rcases hown with hpos | htaking
    · exact absurd hpos (Nat.lt_irrefl 0)
    · cases htaking

/-- Whoever has the lock can take a step towards the end of its wrappers. -/
theorem owner_step (h : LockOk v t th) (hown : owns th.stack = true) : ∃ a v' th',
    a.finishes = true ∧ threadStep v t th a = some (v', th') ∧ toDo th'.stack < toDo th.stack := by
  obtain ⟨m, stack⟩ := th
  cases stack with
  | nil => cases hown
  | cons f rest =>
    cases hb : f.pc.isBody with
    | true =>
      obtain ⟨real, hpc⟩ := exists_body hb
      rcases Decidable.em (f.windows = 0) with hw | hw
      · refine ⟨.leave, v, ⟨m, { f with pc := .drop .ends } :: rest⟩, rfl, ?_, ?_⟩
        · simp [threadStep, Thread.inBody, Thread.inTop, hb, hw]
        · rw [toDo_cons, toDo_cons, hpc]
          exact Nat.add_lt_add_right (Nat.add_lt_add_right (by simp [Pc.rank]) _) _
      · refine ⟨.magic,
          { v with antimagic := if 0 < v.antimagic then v.antimagic - 1 else v.antimagic },
          ⟨m, { f with windows := f.windows - 1 } :: rest⟩, rfl, ?_, ?_⟩
        · simp [threadStep, Thread.inBody, Thread.inTop, hb, hw]
        · rw [toDo_cons, toDo_cons]
          refine Nat.add_lt_add_right (Nat.add_lt_add_left ?_ _) _
          exact Nat.sub_lt (Nat.pos_of_ne_zero hw) Nat.zero_lt_one
    | false =>
      cases hblocked : f.pc.isBlocked with
      | true =>
        have hpc : ∃ mask, f.pc = .blocked mask := by
          cases hpc : f.pc with
          | blocked mask => exact ⟨mask, rfl⟩
          | _ =>
            rw [hpc] at hblocked
            cases hblocked
        obtain ⟨mask, hpc⟩ := hpc
        refine ⟨.opened, v, ⟨mask, { f with pc := .compare .fifo } :: rest⟩, rfl, ?_, ?_⟩
        · simp [threadStep, Thread.inTop, hpc]
        · rw [toDo_cons, toDo_cons, hpc]
          exact Nat.add_lt_add_right (Nat.add_lt_add_right (by simp [Pc.rank]) _) _
      | false =>
        obtain ⟨v', th', hgo, hlt⟩ := owner_go h hown hb hblocked
        exact ⟨.go, v', th', rfl, hgo, hlt⟩

theorem finishes_allowed {a : Act} (ha : a.finishes = true) : Allowed signals (.act t a) := by
  cases signals <;> cases a <;> first | rfl | cases ha

/-- The lock is released, while the others wait. -/
theorem owner_releases (hok : ∀ w, ThreadOk signals s.shared w (s.threads w))
    (hmutex : s.shared.mutex = some u) (ht : u ≠ t) (hal : s.shared.alive t = true) :
    ∃ es s', (∀ e ∈ es, ∃ a, a.finishes = true ∧ e = .act u a) ∧
      es.length ≤ toDo (s.threads u).stack ∧ Refine.run Process.step s es = some s' ∧
      s'.threads t = s.threads t ∧ s'.shared.alive t = true ∧ s'.shared.mutex = none := by
  have hreach := Refine.run_reaches (s := s) Process.step
    (fun s₁ => (∀ w, ThreadOk signals s₁.shared w (s₁.threads w)) ∧
      (s₁.shared.mutex = some u ∨ s₁.shared.mutex = none) ∧ s₁.threads t = s.threads t ∧
      s₁.shared.alive t = true)
    (fun s₁ => s₁.shared.mutex = none) (fun e => ∃ a, a.finishes = true ∧ e = .act u a)
    (fun s₁ => toDo (s₁.threads u).stack) ?_ ⟨hok, Or.inl hmutex, rfl, hal⟩
  · obtain ⟨es, s', hes, hlen, hrun, ⟨_, _, hsame, hal'⟩, hfree⟩ := hreach
    exact ⟨es, s', hes, hlen, hrun, hsame, hal', hfree⟩
  · rintro s₁ ⟨hok₁, hheld, hsame, hal₁⟩ hbusy
    have hheld := hheld.resolve_right hbusy
    have hown := (hok₁ u).1.accounts.mutex.mp hheld
    have hu : s₁.shared.alive u = true := by
      refine Bool.not_eq_false _ ▸ fun hdead => ?_
      rw [(hok₁ u).1.dead hdead] at hown
      cases hown
    obtain ⟨a, v', th', ha, hact, hlt⟩ := owner_step (hok₁ u).1 hown
    have halive : aliveStep s₁.shared u (s₁.threads u) a = some (v', th') := by
      unfold aliveStep
      rw [if_pos hu, hact]
    have hstep : s₁.step (.act u a) = some ⟨v', Function.update s₁.threads u th'⟩ :=
      Interleave.step_eq_some.mpr ⟨v', th', halive, rfl⟩
    obtain ⟨_, hmoves⟩ := aliveStep_keeps (finishes_allowed ha) (hok₁ u) halive
    refine ⟨.act u a, _, ⟨a, ha, rfl⟩, hstep,
      ⟨step_ok (finishes_allowed ha) hok₁ hstep, ?_, ?_, hmoves.alive.2 t hal₁⟩, ?_⟩
    · -- nobody else can have taken it
      cases hv : v'.mutex with
      | none => exact Or.inr rfl
      | some w =>
        rcases Decidable.em (w = u) with rfl | hw
        · exact Or.inl rfl
        · have hother := (hmoves.mutex w hw).mp hv
          rw [hheld] at hother
          exact absurd (Option.some.inj hother).symm hw
    · exact (Interleave.step_other hstep (Ne.symm ht)).trans hsame
    · dsimp only
      rw [Function.update_self]
      exact hlt

/-! ## 5. The masks -/

/-- The mask that a thread returns to does not change while it is away. -/
def SameBase (th th' : Thread) : Prop :=
  Rooted th'.stack ∧ baseMask th'.mask th'.stack = baseMask th.mask th.stack

/-- The frame on top goes on. -/
theorem same_top (h : Rooted (f :: rest)) (hk : f'.kind = f.kind) (hs : f'.saved = f.saved) :
    SameBase ⟨m, f :: rest⟩ ⟨m', f' :: rest⟩ := by
  refine ⟨⟨fun hinit => h.1 (hk ▸ hinit), h.2⟩, ?_⟩
  dsimp only [baseMask]
  rw [hs]

/-- A new frame saves the mask. -/
theorem same_push (h : Rooted stack) (hs : f.saved = m) (hinit : f.kind = .init → stack ≠ []) :
    SameBase ⟨m, stack⟩ ⟨m', f :: stack⟩ := by
  refine ⟨⟨hinit, h⟩, ?_⟩
  dsimp only [baseMask]
  rw [hs]

/-- The mask does not matter to a thread with frames. -/
theorem baseMask_away (h : stack ≠ []) : baseMask m stack = baseMask m' stack := by
  cases stack with
  | nil => exact absurd rfl h
  | cons f rest => rfl

theorem same_pop (h : Rooted (f :: rest)) (hm : f.kind ≠ .init → m' = f.saved) :
    SameBase ⟨m, f :: rest⟩ ⟨m', rest⟩ := by
  refine ⟨h.2, ?_⟩
  rcases Decidable.em (f.kind = .init) with hk | hk
  · exact baseMask_away (h.1 hk)
  · rw [hm hk]
    rfl

theorem go_base (h : Rooted th.stack) (hgo : go v t th = some (v', th')) : SameBase th th' := by
  obtain ⟨m, stack⟩ := th
  cases stack with
  | nil => cases hgo
  | cons f rest =>
    unfold go Thread.inTop at hgo
    dsimp only at hgo
    cases hpc : f.pc with
    | lock leg =>
      rw [hpc] at hgo
      dsimp only at hgo
      split at hgo
      · obtain ⟨rfl, rfl⟩ := Prod.mk.inj (Option.some.inj hgo)
        exact same_top h rfl rfl
      · cases hgo
    | test =>
      rw [hpc] at hgo
      dsimp only at hgo
      split at hgo <;> obtain ⟨rfl, rfl⟩ := Prod.mk.inj (Option.some.inj hgo) <;>
        exact same_top h rfl rfl
    | restore =>
      rw [hpc] at hgo
      obtain ⟨rfl, rfl⟩ := Prod.mk.inj (Option.some.inj hgo)
      exact same_pop h fun hk => if_neg hk
    | body | blocked | handling =>
      rw [hpc] at hgo
      cases hgo
    | compare | recurse | count | hold | drop | clear | unlock | unmask =>
      rw [hpc] at hgo
      obtain ⟨rfl, rfl⟩ := Prod.mk.inj (Option.some.inj hgo)
      exact same_top h rfl rfl

theorem threadStep_base (h : Rooted th.stack) {a : Act}
    (hstep : threadStep v t th a = some (v', th')) : SameBase th th' := by
  obtain ⟨m, stack⟩ := th
  cases a with
  | go => exact go_base h hstep
  | call kind =>
    dsimp only [threadStep] at hstep
    split at hstep
    · next hc =>
      simp only [Bool.and_eq_true, decide_eq_true_eq] at hc
      obtain ⟨rfl, rfl⟩ := Prod.mk.inj (Option.some.inj hstep)
      exact same_push h rfl fun hinit => absurd hinit hc.1.2
    · cases hstep
  | signal s mask =>
    dsimp only [threadStep] at hstep
    split at hstep
    · obtain ⟨rfl, rfl⟩ := Prod.mk.inj (Option.some.inj hstep)
      exact same_push h rfl fun hinit => (by cases hinit)
    · cases hstep
  | spawn u =>
    dsimp only [threadStep] at hstep
    split at hstep
    · obtain ⟨rfl, rfl⟩ := Prod.mk.inj (Option.some.inj hstep)
      exact ⟨h, rfl⟩
    · cases hstep
  | reinit =>
    obtain ⟨f, rest, rfl, _, hstep⟩ := inBody_some hstep
    obtain ⟨rfl, rfl⟩ := Prod.mk.inj (Option.some.inj hstep)
    exact same_push h rfl fun _ => List.cons_ne_nil _ _
  | antimagic | magic =>
    obtain ⟨f, rest, rfl, _, hstep⟩ := inBody_some hstep
    split at hstep
    · cases hstep
    · obtain ⟨rfl, rfl⟩ := Prod.mk.inj (Option.some.inj hstep)
      exact same_top h rfl rfl
  | fifo | leave | unblock =>
    obtain ⟨f, rest, rfl, _, hstep⟩ := inBody_some hstep
    split at hstep
    · obtain ⟨rfl, rfl⟩ := Prod.mk.inj (Option.some.inj hstep)
      exact same_top h rfl rfl
    · cases hstep
  | opened =>
    cases stack with
    | nil => cases hstep
    | cons f rest =>
      dsimp only [threadStep, Thread.inTop] at hstep
      split at hstep
      · obtain ⟨rfl, rfl⟩ := Prod.mk.inj (Option.some.inj hstep)
        exact same_top h rfl rfl
      · cases hstep
  | sigreturn =>
    cases stack with
    | nil => cases hstep
    | cons f rest =>
      dsimp only [threadStep, Thread.inTop] at hstep
      split at hstep
      · obtain ⟨rfl, rfl⟩ := Prod.mk.inj (Option.some.inj hstep)
        exact same_pop h fun _ => rfl
      · cases hstep

/-- One event keeps the masks, but for the threads that are not in the child. -/
theorem step_base {e : LockEvent} (hs : ∀ w, Rooted (s.threads w).stack)
    (h : s.step e = some s') : (∀ w, Rooted (s'.threads w).stack) ∧
    ∀ w, (∀ u, e = .child u → u = w) → baseMask (s'.threads w).mask (s'.threads w).stack =
      baseMask (s.threads w).mask (s.threads w).stack := by
  cases e with
  | act t a =>
    obtain ⟨sh, th, hact, rfl⟩ := Interleave.step_eq_some.mp h
    obtain ⟨hrooted, hbase⟩ := threadStep_base (hs t) (aliveStep_some hact).2
    have hall : ∀ w, Rooted (Function.update s.threads t th w).stack ∧
        baseMask (Function.update s.threads t th w).mask (Function.update s.threads t th w).stack =
          baseMask (s.threads w).mask (s.threads w).stack := by
      intro w
      rcases Decidable.em (w = t) with rfl | hw
      · rw [Function.update_self]
        exact ⟨hrooted, hbase⟩
      · rw [Function.update_of_ne hw]
        exact ⟨hs w, rfl⟩
    exact ⟨fun w => (hall w).1, fun w _ => (hall w).2⟩
  | child t =>
    obtain ⟨f, rest, hstack, _, _, _, _, _, _, rfl⟩ := forkChild_some h
    have hrooted := hs t
    rw [hstack] at hrooted
    refine ⟨fun w => ?_, fun w hw => ?_⟩
    · rcases Decidable.em (w = t) with rfl | hne
      · dsimp only
        rw [if_pos rfl]
        exact ⟨hrooted.1, hrooted.2⟩
      · dsimp only
        rw [if_neg hne]
        trivial
    · obtain rfl := hw t rfl
      dsimp only
      rw [if_pos rfl, hstack]
      rfl

theorem run_rooted {es : List LockEvent} (hs : ∀ w, Rooted (s.threads w).stack)
    (hrun : Refine.run Process.step s es = some s') (w : ThreadId) : Rooted (s'.threads w).stack :=
  Refine.run_invariant (P := fun s => ∀ w, Rooted (s.threads w).stack) (p := fun _ => True)
    (fun _ _ => trivial) (fun _ _ _ _ hs hstep => (step_base hs hstep).1) hs hrun w

theorem run_base {es : List LockEvent} (hs : ∀ w, Rooted (s.threads w).stack)
    (hes : ∀ u, .child u ∈ es → u = t) (hrun : Refine.run Process.step s es = some s') :
    baseMask (s'.threads t).mask (s'.threads t).stack =
      baseMask (s.threads t).mask (s.threads t).stack := by
  induction es generalizing s with
  | nil =>
    obtain rfl := Option.some.inj hrun
    rfl
  | cons e es ih =>
    rw [Refine.run_cons, Option.bind_eq_some_iff] at hrun
    obtain ⟨s₁, hstep, hrun⟩ := hrun
    obtain ⟨hrooted, hbase⟩ := step_base hs hstep
    have hchild : ∀ u, e = .child u → u = t := by
      rintro u rfl
      exact hes u List.mem_cons_self
    exact (ih hrooted (fun u hu => hes u (List.mem_cons_of_mem _ hu)) hrun).trans
      (hbase t hchild)

theorem windows_open : 0 < openWindows rest ↔ ∃ g ∈ rest, 0 < g.windows := by
  induction rest with
  | nil => simp
  | cons g rest ih =>
    rw [openWindows_cons, Nat.add_pos_iff_pos_or_pos, ih, List.exists_mem_cons_iff]

theorem shape_suffix {above : List Frame} (h : Shape (above ++ rest)) : Shape rest := by
  induction above with
  | nil => exact h
  | cons g above ih => exact ih h.2

theorem interruptible_taking (h : interruptible stack = true) : top Pc.taking stack = false := by
  cases stack with
  | nil => rfl
  | cons f rest =>
    cases hpc : f.pc with
    | handling | blocked =>
      rw [top_cons, hpc]
      rfl
    | _ => simp [interruptible, hpc, Pc.isHandling, Pc.isBlocked] at h

end LockRunsLemmas

open LockProtocolLemmas LockSignalsLemmas LockRunsLemmas

section Runs
variable {mask : ThreadId → SigSet} {alive : ThreadId → Bool} {saved : SigSet}
  {es : List LockEvent} {s : Process} {t : ThreadId}

theorem masks_restored (hrun : Refine.run Process.step (.start mask alive saved) es = some s)
    {es' : List LockEvent} {s' : Process} (hes' : ∀ u, .child u ∈ es' → u = t)
    (hrun' : Refine.run Process.step s es' = some s') (hout : (s.threads t).stack = [])
    (hout' : (s'.threads t).stack = []) : (s'.threads t).mask = (s.threads t).mask := by
  have hrooted := run_rooted (s := .start mask alive saved) (fun _ => trivial) hrun
  have hbase := run_base hrooted hes' hrun'
  rw [hout, hout'] at hbase
  exact hbase

end Runs

/-! ## 6. Two threads -/

def exStart : Process := .start (fun _ _ => false) (fun t => t < 2) fun _ => false

def gos (t : ThreadId) (n : Nat) : List LockEvent := List.replicate n (.act t .go)

/-- The first thread is in a wrapper that calls a wrapper, the second waits. -/
def exCalled : List LockEvent :=
  .act 0 (.call .wrapper) :: gos 0 5 ++ [.act 0 .antimagic, .act 0 (.call .wrapper)] ++ gos 0 3 ++
    .act 1 (.call .wrapper) :: gos 1 1

/-- The first thread opens a FIFO. -/
def exFifo : List LockEvent := .act 0 (.call .wrapper) :: gos 0 5 ++ .act 0 .fifo :: gos 0 4

/-- It is open, and the wrapper returns. -/
def exClosed : List LockEvent := .act 0 .opened :: gos 0 4 ++ .act 0 .leave :: gos 0 4

theorem exCalled_quiet : Quiet exCalled := Or.inl (by decide)

theorem exCalled_runs : ∃ s f g h, Refine.run Process.step exStart exCalled = some s ∧
    (s.threads 0).stack = f :: [g] ∧ f.kind = .wrapper ∧ f.pc = .body true ∧
    (s.threads 1).stack = [h] ∧ h.pc = .lock .ends :=
  ⟨_, _, _, _, rfl, rfl, rfl, rfl, rfl, rfl⟩

theorem exFifo_runs : ∃ s s' m, Refine.run Process.step exStart exFifo = some s ∧
    s.step (.act 0 (.signal .term m)) = some s' :=
  ⟨_, _, fun _ => false, rfl, rfl⟩

theorem exClosed_runs : ∃ s, Refine.run Process.step exStart (exFifo ++ exClosed) = some s ∧
    (s.threads 0).stack = [] :=
  ⟨_, rfl, rfl⟩

theorem masks_restored_exClosed : ∃ s,
    Refine.run Process.step exStart (exFifo ++ exClosed) = some s ∧
    (s.threads 0).mask = (exStart.threads 0).mask := by
  obtain ⟨s, hrun, hstack⟩ := exClosed_runs
  have hnone : Refine.run Process.step exStart [] = some exStart := rfl
  exact ⟨s, hrun, masks_restored hnone (by simp [exFifo, exClosed, gos]) hrun rfl hstack⟩

/-- An `exec` fails, and a handler runs while the lock is dropped: it takes the lock once more, and
drops it, and then it is dropped again, under another thread. -/
def exUnblocked : List LockEvent :=
  .act 0 (.call .exec) :: gos 0 5 ++ [.act 0 .unblock, .act 0 .leave] ++ gos 0 1 ++
    [.act 0 (.signal .term fun _ => false), .act 0 (.call .wrapper)] ++ gos 0 3 ++
    .act 0 .leave :: gos 0 4 ++ [.act 0 .sigreturn] ++
    .act 1 (.call .wrapper) :: gos 1 5 ++ gos 0 3 ++
    .act 0 (.call .wrapper) :: gos 0 5

/-- So signals and an `exec` that fails do not go together. -/
theorem quiet_needed : ∃ s, Refine.run Process.step exStart exUnblocked = some s ∧
    owns (s.threads 0).stack = true ∧ owns (s.threads 1).stack = true :=
  ⟨_, rfl, rfl, rfl⟩

end Pseudo

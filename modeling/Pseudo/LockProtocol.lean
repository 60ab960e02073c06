import Mathlib.Algebra.GroupWithZero.Nat
import Pseudo.WrapperLock

/-!
# One thread at a time is in pseudo

A thread has the lock as often as it has wrappers that took it, whether it counted them or took the
mutex. What it finds in `antimagic` is its own.

Results:
1. `threadStep_keeps`: what every instruction keeps, of its own thread and of the others.
2. `ok_others`: that is all the others need.
-/

namespace Pseudo

/-! ## 1. What the counters count -/

/-- The frame is counted in `pseudo_mutex_recursion`. -/
def Pc.depth : Pc → Nat
  | .hold _ | .test | .body _ | .drop _ => 1
  | _ => 0

/-- The mutex is locked, and nothing is counted: yet, or any more. -/
def Pc.taking : Pc → Bool
  | .count _ | .clear _ | .unlock _ => true
  | _ => false

/-- The holder is not written yet, or is cleared already. -/
def Pc.unnamed : Pc → Bool
  | .count _ | .hold _ | .unlock _ => true
  | _ => false

/-- `pseudo_mutex_recursion` is not written yet. -/
def Pc.counting : Pc → Bool
  | .count _ => true
  | _ => false

def Frame.depth (f : Frame) : Nat := if f.lost then 0 else f.pc.depth

def locks (stack : List Frame) : Nat := (stack.map Frame.depth).sum

def openWindows (stack : List Frame) : Nat := (stack.map Frame.windows).sum

def top (p : Pc → Bool) : List Frame → Bool
  | [] => false
  | f :: _ => p f.pc

/-- The thread has the lock. -/
def owns (stack : List Frame) : Bool := 0 < locks stack || top Pc.taking stack

/-! ## 2. What is on a stack -/

/-- The frame uses `pseudo_droplock` and `pseudo_getlock` the other way around. -/
def Pc.around : Pc → Bool
  | .compare .fifo | .recurse .fifo | .lock .fifo | .count .fifo | .hold .fifo | .drop .fifo
  | .clear .fifo | .unlock .fifo | .unmask | .blocked _ => true
  | _ => false

/-- The instructions that are reached only without the lock, or only with it. -/
def Pc.Placed (below : Nat) : Pc → Prop
  | .recurse _ => 0 < below
  | .lock _ | .count _ | .hold _ | .clear _ | .unlock _ => below = 0
  | _ => True

/-- A wrapper of the thread has taken the lock, and not dropped it since. -/
def inside (stack : List Frame) : Bool := stack.any fun f => f.pc.depth = 1

def Pc.isBlocked : Pc → Bool
  | .blocked _ => true
  | _ => false

/-- Where a signal can find a thread: in the program, in a handler, or at a FIFO. -/
def interruptible : List Frame → Bool
  | [] => true
  | f :: _ => f.pc.isHandling || f.pc.isBlocked

def Pc.isTest : Pc → Bool
  | .test => true
  | _ => false

/-- Where a frame can be whose lock is lost. -/
def Pc.leaving : Pc → Bool
  | .body _ | .drop .ends | .restore => true
  | _ => false

/-- The frame fits on top of the others. -/
structure Frame.Fits (f : Frame) (rest : List Frame) : Prop where
  placed : f.pc.Placed (locks rest)
  open' : f.pc.isBody = false → f.windows = 0
  below : if f.pc.isHandling then interruptible rest = true else callable rest = true
  handler : f.pc.isHandling = true → inside rest = false
  real : ∀ r, f.pc = .body r → f.kind = .wrapper → (r = true ↔ 0 < openWindows rest)
  around : f.pc.around = true → f.kind = .wrapper ∧ openWindows rest = 0
  test : f.pc.isTest = true → f.kind = .wrapper ∨ f.kind = .exec
  init : f.kind = .init → f.pc.isHandling = false ∧ top Pc.isBody rest = true
  lost : f.lost = true → f.pc.leaving = true ∧ f.kind = .fork ∧ f.windows = 0 ∧
    application rest = true

def Shape : List Frame → Prop
  | [] => True
  | f :: rest => f.Fits rest ∧ Shape rest

structure VarsOk (v : LockVars) : Prop where
  named : ∀ u, v.holder = some u → v.mutex = some u
  free : v.mutex = none → v.recursion ≤ 0 ∧ v.antimagic = 0

/-- What the shared variables are to a thread. -/
structure Accounts (v : LockVars) (t : ThreadId) (stack : List Frame) : Prop where
  mutex : v.mutex = some t ↔ owns stack = true
  holder : v.holder = some t ↔ owns stack = true ∧ top Pc.unnamed stack = false
  recursion : owns stack = true → top Pc.counting stack = false → v.recursion = locks stack
  antimagic : owns stack = true → v.antimagic = openWindows stack

structure LockOk (v : LockVars) (t : ThreadId) (th : Thread) : Prop where
  dead : v.alive t = false → th.stack = []
  vars : VarsOk v
  shape : Shape th.stack
  accounts : Accounts v t th.stack
  alone : (∃ f ∈ th.stack, f.lost = true) → ∀ u, u ≠ t → v.alive u = false ∧ v.mutex ≠ some u

/-- What a step of one thread may do to the others. -/
structure Moves (t : ThreadId) (v v' : LockVars) : Prop where
  mutex : ∀ u, u ≠ t → (v'.mutex = some u ↔ v.mutex = some u)
  holder : ∀ u, u ≠ t → (v'.holder = some u ↔ v.holder = some u)
  counters : ∀ u, u ≠ t → v.mutex = some u → v'.recursion = v.recursion ∧
    v'.antimagic = v.antimagic ∧ v'.savedSigmask = v.savedSigmask
  vars : VarsOk v'
  alive : v.alive t = true ∧ ∀ u, v.alive u = true → v'.alive u = true

namespace LockProtocolLemmas

variable {v v' : LockVars} {t u : ThreadId} {th th' : Thread} {f f' : Frame} {rest : List Frame}
  {stack : List Frame} {m m' : SigSet} {pc : Pc} {leg : Leg}

@[simp] theorem locks_nil : locks [] = 0 := rfl

@[simp] theorem locks_cons : locks (f :: rest) = f.depth + locks rest := by
  simp [locks]

@[simp] theorem openWindows_nil : openWindows [] = 0 := rfl

@[simp] theorem openWindows_cons : openWindows (f :: rest) = f.windows + openWindows rest := by
  simp [openWindows]

@[simp] theorem top_cons (p : Pc → Bool) : top p (f :: rest) = p f.pc := rfl

@[simp] theorem top_nil (p : Pc → Bool) : top p [] = false := rfl

theorem owns_cons : owns (f :: rest) = true ↔ 0 < f.depth + locks rest ∨ f.pc.taking = true := by
  simp [owns]

@[simp] theorem owns_nil : owns [] = false := rfl

/-- The steps of the others leave a thread alone. -/
theorem ok_others (hu : u ≠ t) (h : LockOk v u th) (hm : Moves t v v') : LockOk v' u th where
  dead hdead := by
    refine h.dead (Bool.eq_false_iff.mpr fun hal => ?_)
    rw [hm.alive.2 u hal] at hdead
    cases hdead
  vars := hm.vars
  shape := h.shape
  accounts := by
    obtain ⟨hmutex, hholder, hrec, hmagic⟩ := h.accounts
    refine ⟨(hm.mutex u hu).trans hmutex, (hm.holder u hu).trans hholder, fun ho hc => ?_,
      fun ho => ?_⟩
    · rw [(hm.counters u hu (hmutex.mpr ho)).1]
      exact hrec ho hc
    · rw [(hm.counters u hu (hmutex.mpr ho)).2.1]
      exact hmagic ho
  alone hlost := by
    have hno := (h.alone hlost t (Ne.symm hu)).1
    rw [hm.alive.1] at hno
    cases hno

/-- A step that leaves the lock to whoever has it. -/
theorem moves_idle (h : LockOk v t th) (hal : v.alive t = true) (hmutex : v'.mutex = v.mutex)
    (hholder : v'.holder = v.holder) (hrec : v'.recursion = v.recursion)
    (hmagic : v'.antimagic = v.antimagic) (hsaved : v'.savedSigmask = v.savedSigmask)
    (halive : ∀ u, v.alive u = true → v'.alive u = true) : Moves t v v' where
  mutex u _ := by rw [hmutex]
  holder u _ := by rw [hholder]
  counters u _ _ := ⟨hrec, hmagic, hsaved⟩
  vars := by
    refine ⟨?_, ?_⟩
    · rw [hmutex, hholder]
      exact h.vars.named
    · rw [hmutex, hrec, hmagic]
      exact h.vars.free
  alive := ⟨hal, halive⟩

/-- A step that no other thread can see, because none has the lock. -/
theorem moves_mine (hal : v.alive t = true) (hv : VarsOk v) (hv' : VarsOk v')
    (hbefore : v.mutex = some t ∨ v.mutex = none) (hafter : v'.mutex = some t ∨ v'.mutex = none)
    (halive : v'.alive = v.alive) : Moves t v v' := by
  have hne : ∀ u, u ≠ t → v.mutex ≠ some u := by
    rintro u hu he
    rcases hbefore with hb | hb <;> rw [hb] at he
    · exact hu (Option.some.inj he).symm
    · cases he
  have hne' : ∀ u, u ≠ t → v'.mutex ≠ some u := by
    rintro u hu he
    rcases hafter with hb | hb <;> rw [hb] at he
    · exact hu (Option.some.inj he).symm
    · cases he
  refine ⟨fun u hu => ?_, fun u hu => ?_, fun u hu he => absurd he (hne u hu), hv', hal,
    fun u hu => by rw [halive]; exact hu⟩
  · exact iff_of_false (hne' u hu) (hne u hu)
  · exact iff_of_false (fun he => hne' u hu (hv'.named u he)) fun he => hne u hu (hv.named u he)

/-- The stack changes at the top. -/
theorem ok_stack (h : LockOk v t ⟨m, stack⟩) {stack' : List Frame} (hvars : VarsOk v')
    (hshape : Shape stack') (hacc : Accounts v' t stack') (halive : v'.alive = v.alive)
    (hal : v.alive t = true) (hmutex : ∀ u, u ≠ t → v'.mutex = some u → v.mutex = some u)
    (hlost : (∃ f ∈ stack', f.lost = true) → ∃ f ∈ stack, f.lost = true) :
    LockOk v' t ⟨m', stack'⟩ where
  dead hdead := by
    rw [halive, hal] at hdead
    cases hdead
  vars := hvars
  shape := hshape
  accounts := hacc
  alone hl u hu := by
    obtain ⟨hno, hne⟩ := h.alone (hlost hl) u hu
    rw [halive]
    exact ⟨hno, fun he => hne (hmutex u hu he)⟩

/-- Windows are open only inside of the lock. -/
theorem openWindows_zero (h : Shape stack) (hl : locks stack = 0) : openWindows stack = 0 := by
  induction stack with
  | nil => rfl
  | cons f rest ih =>
    obtain ⟨hfits, hrest⟩ := h
    rw [locks_cons, Nat.add_eq_zero_iff] at hl
    rw [openWindows_cons, ih hrest hl.2, Nat.add_zero]
    cases hbody : f.pc.isBody with
    | false => exact hfits.open' hbody
    | true =>
      cases hlost : f.lost with
      | true => exact (hfits.lost hlost).2.2.1
      | false =>
        have hdepth := hl.1
        unfold Frame.depth at hdepth
        rw [hlost] at hdepth
        cases hpc : f.pc <;> rw [hpc] at hbody hdepth <;> cases hbody
        cases hdepth

theorem inside_cons : inside (f :: rest) = true ↔ f.pc.depth = 1 ∨ inside rest = true := by
  simp [inside]

theorem inside_of_body (hb : f.pc.isBody = true) : inside (f :: rest) = true := by
  refine inside_cons.mpr (Or.inl ?_)
  cases hpc : f.pc <;> rw [hpc] at hb <;> first | rfl | cases hb

theorem locks_zero (hi : inside stack = false) : locks stack = 0 := by
  induction stack with
  | nil => rfl
  | cons f rest ih =>
    have hno : ¬ (f.pc.depth = 1 ∨ inside rest = true) := by
      rw [← inside_cons, hi]
      simp
    rw [not_or] at hno
    rw [locks_cons, ih (Bool.eq_false_iff.mpr hno.2), Nat.add_zero]
    unfold Frame.depth
    split
    · rfl
    · cases hpc : f.pc <;> first | rfl | exact absurd (by rw [hpc]; rfl) hno.1

theorem locks_application (h : Shape stack) (ha : application stack = true) : locks stack = 0 := by
  cases stack with
  | nil => rfl
  | cons f rest =>
    have hh : f.pc.isHandling = true := ha
    rw [locks_cons, locks_zero (h.1.handler hh)]
    unfold Frame.depth
    cases hpc : f.pc <;> rw [hpc] at hh <;> cases hh
    split <;> rfl

/-! ## 3. The instructions -/

/-- The step keeps what the thread knows, and leaves the others alone. -/
def StepOk (v : LockVars) (t : ThreadId) (v' : LockVars) (th' : Thread) : Prop :=
  LockOk v' t th' ∧ Moves t v v'

theorem accounts_same (h : Accounts v t stack) {stack' : List Frame}
    (hl : locks stack' = locks stack) (hw : openWindows stack' = openWindows stack)
    (ht : top Pc.taking stack' = top Pc.taking stack)
    (hu : top Pc.unnamed stack' = top Pc.unnamed stack)
    (hc : top Pc.counting stack' = top Pc.counting stack) : Accounts v t stack' := by
  have ho : owns stack' = owns stack := by
    unfold owns
    rw [hl, ht]
  refine ⟨?_, ?_, ?_, ?_⟩
  · rw [ho]
    exact h.mutex
  · rw [ho, hu]
    exact h.holder
  · rw [ho, hc, hl]
    exact h.recursion
  · rw [ho, hw]
    exact h.antimagic

theorem fits_pc (h : f.Fits rest) (hp : pc.Placed (locks rest)) (hb : pc.isBody = false)
    (hw : f.windows = 0) (hh : pc.isHandling = f.pc.isHandling)
    (hq : pc.around = true → f.kind = .wrapper ∧ openWindows rest = 0)
    (ht : pc.isTest = true → f.kind = .wrapper ∨ f.kind = .exec)
    (hl : f.lost = true → pc.leaving = true) :
    Frame.Fits { f with pc := pc } rest where
  placed := hp
  open' _ := hw
  below := by
    dsimp only
    rw [hh]
    exact h.below
  handler hhandling := h.handler (hh ▸ hhandling)
  real r hr := by
    dsimp only at hr
    rw [hr] at hb
    cases hb
  around := hq
  test := ht
  init hinit := ⟨hh.trans (h.init hinit).1, (h.init hinit).2⟩
  lost hlost := ⟨hl hlost, (h.lost hlost).2⟩

theorem fits_body (h : f.Fits rest) {real : Bool} (hh : f.pc.isHandling = false)
    (hreal : f.kind = .wrapper → (real = true ↔ 0 < openWindows rest)) :
    Frame.Fits { f with pc := .body real } rest where
  placed := trivial
  open' hb := by cases hb
  below := by
    have hbelow := h.below
    rw [hh] at hbelow
    exact hbelow
  handler hhandling := by cases hhandling
  real r hr hinit := by
    obtain rfl : real = r := Pc.body.inj hr
    exact hreal hinit
  around ha := by cases ha
  test ht := by cases ht
  init hinit := ⟨rfl, (h.init hinit).2⟩
  lost hlost := ⟨rfl, (h.lost hlost).2⟩

theorem lost_false (h : f.Fits rest) (hl : f.pc.leaving = false) : f.lost = false := by
  refine Bool.eq_false_iff.mpr fun hlost => ?_
  rw [(h.lost hlost).1] at hl
  cases hl

theorem depth_of (hl : f.lost = false) : Frame.depth { f with pc := pc } = pc.depth := by
  unfold Frame.depth
  dsimp only
  rw [hl]
  rfl

theorem depth_eq (hl : f.lost = false) : f.depth = f.pc.depth := by
  unfold Frame.depth
  rw [hl]
  rfl

theorem accounts_cons : Accounts v t (f :: rest) ↔
    (v.mutex = some t ↔ 0 < f.depth + locks rest ∨ f.pc.taking = true) ∧
    (v.holder = some t ↔
      (0 < f.depth + locks rest ∨ f.pc.taking = true) ∧ f.pc.unnamed = false) ∧
    (0 < f.depth + locks rest ∨ f.pc.taking = true → f.pc.counting = false →
      v.recursion = (f.depth + locks rest : Nat)) ∧
    (0 < f.depth + locks rest ∨ f.pc.taking = true →
      v.antimagic = (f.windows + openWindows rest : Nat)) := by
  constructor
  · rintro ⟨hmutex, hholder, hrec, hmagic⟩
    simp only [owns_cons, top_cons, locks_cons, openWindows_cons] at *
    exact ⟨hmutex, hholder, hrec, hmagic⟩
  · rintro ⟨hmutex, hholder, hrec, hmagic⟩
    refine ⟨?_, ?_, ?_, ?_⟩ <;>
      simp only [owns_cons, top_cons, locks_cons, openWindows_cons] <;> assumption

/-- The frame goes on inside of `pseudo_getlock` or `pseudo_droplock`. -/
theorem fits_next (h : f.Fits rest) (hp : pc.Placed (locks rest)) (hb : pc.isBody = false)
    (hf : f.pc.isBody = false) (hh : pc.isHandling = f.pc.isHandling)
    (ha : pc.around = true → f.pc.around = true) (ht : pc.isTest = false)
    (hl : f.pc.leaving = false) : Frame.Fits { f with pc := pc } rest := by
  refine fits_pc h hp hb (h.open' hf) hh (fun hpc => h.around (ha hpc))
    (fun hno => by rw [ht] at hno; cases hno) fun hlost => ?_
  rw [lost_false h hl] at hlost
  cases hlost

section Instructions
variable (hal : v.alive t = true) (h : LockOk v t ⟨m, f :: rest⟩)

/-- The frame on top changes. -/
theorem ok_frame (hal : v.alive t = true) (h : LockOk v t ⟨m, f :: rest⟩) (hvars : VarsOk v')
    (hfits : f'.Fits rest) (hacc : Accounts v' t (f' :: rest)) (halive : v'.alive = v.alive)
    (hmutex : ∀ u, u ≠ t → v'.mutex = some u → v.mutex = some u)
    (hlost : f'.lost = f.lost) : LockOk v' t ⟨m', f' :: rest⟩ := by
  refine ok_stack h hvars ⟨hfits, h.shape.2⟩ hacc halive hal hmutex ?_
  rintro ⟨g, hg, hgl⟩
  rcases List.mem_cons.mp hg with rfl | hg
  · exact ⟨f, List.mem_cons_self, hlost ▸ hgl⟩
  · exact ⟨g, List.mem_cons_of_mem _ hg, hgl⟩

include hal h in
theorem compare_keeps (hpc : f.pc = .compare leg) : StepOk v t v ⟨m, { f with
    pc := if v.holder = some t then .recurse leg else .lock leg } :: rest⟩ := by
  have hfits := h.shape.1
  have hlost := lost_false hfits (by rw [hpc]; cases leg <;> rfl)
  have hacc := accounts_cons.mp h.accounts
  rw [depth_eq hlost, hpc] at hacc
  simp only [Pc.depth, Pc.taking, Pc.unnamed, Pc.counting] at hacc
  refine ⟨ok_frame hal h h.vars ?_ ?_ rfl (fun _ _ he => he) rfl,
    moves_idle h hal rfl rfl rfl rfl rfl fun _ hu => hu⟩
  · refine fits_next hfits ?_ (by split <;> rfl) (by rw [hpc]; rfl) (by rw [hpc]; split <;> rfl)
      (fun ha => ?_)
      (by split <;> rfl) (by rw [hpc]; cases leg <;> rfl)
    · split
      · next hheld =>
        obtain ⟨hpos, _⟩ := hacc.2.1.mp hheld
        have hpos : 0 < locks rest := by simpa using hpos
        exact hpos
      · next hfree =>
        have hzero : ¬ 0 < locks rest := fun hpos => hfree (hacc.2.1.mpr (by simpa using hpos))
        exact Nat.eq_zero_of_not_pos hzero
    · rw [hpc]
      cases leg with
      | ends => split at ha <;> cases ha
      | fifo => rfl
  · refine accounts_same h.accounts ?_ rfl ?_ ?_ ?_
    · rw [locks_cons, locks_cons, depth_of hlost, depth_eq hlost, hpc]
      split <;> rfl
    · rw [top_cons, top_cons, hpc]
      split <;> rfl
    · rw [top_cons, top_cons, hpc]
      split <;> rfl
    · rw [top_cons, top_cons, hpc]
      split <;> rfl

/-- The lock is taken: what follows is the test, or the body again. -/
theorem entered_spec (f : Frame) (leg : Leg) : (f.entered leg).depth = 1 ∧
    (f.entered leg).taking = false ∧ (f.entered leg).unnamed = false ∧
    (f.entered leg).counting = false := by
  obtain ⟨kind, saved, windows, lost, pc⟩ := f
  cases leg <;> cases kind <;> exact ⟨rfl, rfl, rfl, rfl⟩

theorem fits_entered (hfits : f.Fits rest) (hh : f.pc.isHandling = false)
    (hb : f.pc.isBody = false) (ha : leg = .fifo → f.pc.around = true)
    (hl : f.pc.leaving = false) : Frame.Fits { f with pc := f.entered leg } rest := by
  have hw := hfits.open' hb
  have hlost := lost_false hfits hl
  unfold Frame.entered
  cases leg with
  | fifo =>
    refine fits_body hfits hh fun _ => ?_
    rw [(hfits.around (ha rfl)).2]
    simp
  | ends =>
    dsimp only
    split
    · next hk =>
      exact fits_pc hfits trivial rfl hw hh.symm (fun h => by cases h) (fun _ => hk)
        fun h => by rw [hlost] at h; cases h
    · next hno => exact fits_body hfits hh fun hk => absurd (Or.inl hk) hno

include hal h in
theorem recurse_keeps (hpc : f.pc = .recurse leg) :
    StepOk v t { v with recursion := v.recursion + 1 }
      ⟨m, { f with pc := f.entered leg } :: rest⟩ := by
  have hfits := h.shape.1
  have hleaving : f.pc.leaving = false := by rw [hpc]; cases leg <;> rfl
  have hlost := lost_false hfits hleaving
  have hplaced := hfits.placed
  rw [hpc] at hplaced
  have hpos : 0 < locks rest := hplaced
  have hacc := accounts_cons.mp h.accounts
  rw [depth_eq hlost, hpc] at hacc
  simp only [Pc.depth, Pc.taking, Pc.unnamed, Pc.counting, Nat.zero_add, hpos, true_or, and_self,
    iff_true, forall_const] at hacc
  obtain ⟨hmutex, hholder, hrec, hmagic⟩ := hacc
  obtain ⟨hd, ht, hu, hc⟩ := entered_spec f leg
  have hvars : VarsOk { v with recursion := v.recursion + 1 } := by
    refine ⟨h.vars.named, fun hno => ?_⟩
    rw [hmutex] at hno
    cases hno
  refine ⟨ok_frame hal h hvars (fits_entered hfits (by rw [hpc]; rfl) (by rw [hpc]; rfl)
      (fun hleg => by rw [hpc, hleg]; rfl) hleaving) ?_ rfl (fun _ _ he => he) rfl,
    moves_mine hal h.vars hvars (Or.inl hmutex) (Or.inl hmutex) rfl⟩
  refine accounts_cons.mpr ?_
  rw [depth_of hlost]
  dsimp only
  rw [hd, ht, hu, hc]
  refine ⟨iff_of_true hmutex (Or.inl (by omega)), iff_of_true hholder ⟨Or.inl (by omega), rfl⟩,
    fun _ _ => by rw [hrec]; omega, fun _ => hmagic⟩

include hal h in
theorem lock_keeps (hpc : f.pc = .lock leg) (hnone : v.mutex = none) :
    StepOk v t { v with mutex := some t } ⟨m, { f with pc := .count leg } :: rest⟩ := by
  have hfits := h.shape.1
  have hleaving : f.pc.leaving = false := by rw [hpc]; cases leg <;> rfl
  have hlost := lost_false hfits hleaving
  have hplaced := hfits.placed
  rw [hpc] at hplaced
  have hzero : locks rest = 0 := hplaced
  have hw := hfits.open' (by rw [hpc]; rfl)
  obtain ⟨hrec, hmagic⟩ := h.vars.free hnone
  have hvars : VarsOk { v with mutex := some t } := by
    refine ⟨fun u hu => ?_, fun hno => by cases hno⟩
    have he := h.vars.named u hu
    rw [hnone] at he
    cases he
  have hfits' : Frame.Fits { f with pc := .count leg } rest := by
    refine fits_next hfits hzero rfl (by rw [hpc]; rfl) (by rw [hpc]; rfl) (fun ha => ?_)
      rfl hleaving
    rw [hpc]
    cases leg with
    | ends => cases ha
    | fifo => rfl
  refine ⟨ok_frame hal h hvars hfits' ?_ rfl
      (fun u hu he => absurd (Option.some.inj he).symm hu) rfl,
    moves_mine hal h.vars hvars (Or.inr hnone) (Or.inl rfl) rfl⟩
  refine accounts_cons.mpr ?_
  rw [depth_of hlost]
  refine ⟨iff_of_true rfl (Or.inr rfl), iff_of_false (fun he => ?_) (fun he => by cases he.2),
    fun _ hc => (by cases hc), fun _ => ?_⟩
  · have hmine := h.vars.named t he
    rw [hnone] at hmine
    cases hmine
  · have hwrest := openWindows_zero h.shape.2 hzero
    show v.antimagic = (f.windows + openWindows rest : Nat)
    rw [hmagic, hw, hwrest]
    rfl

include hal h in
theorem count_keeps (hpc : f.pc = .count leg) :
    StepOk v t { v with recursion := 1 } ⟨m, { f with pc := .hold leg } :: rest⟩ := by
  have hfits := h.shape.1
  have hleaving : f.pc.leaving = false := by rw [hpc]; cases leg <;> rfl
  have hlost := lost_false hfits hleaving
  have hplaced := hfits.placed
  rw [hpc] at hplaced
  have hzero : locks rest = 0 := hplaced
  have hacc := accounts_cons.mp h.accounts
  rw [depth_eq hlost, hpc] at hacc
  simp only [Pc.depth, Pc.taking, Pc.unnamed, Pc.counting, or_true, true_and, iff_true,
    reduceCtorEq, iff_false, forall_const] at hacc
  obtain ⟨hmutex, hholder, _, hmagic⟩ := hacc
  have hvars : VarsOk { v with recursion := 1 } := by
    refine ⟨h.vars.named, fun hno => ?_⟩
    rw [hmutex] at hno
    cases hno
  have hfits' : Frame.Fits { f with pc := .hold leg } rest := by
    refine fits_next hfits hzero rfl (by rw [hpc]; rfl) (by rw [hpc]; rfl) (fun ha => ?_)
      rfl hleaving
    rw [hpc]
    cases leg with
    | ends => cases ha
    | fifo => rfl
  refine ⟨ok_frame hal h hvars hfits' ?_ rfl (fun _ _ he => he) rfl,
    moves_mine hal h.vars hvars (Or.inl hmutex) (Or.inl hmutex) rfl⟩
  refine accounts_cons.mpr ?_
  rw [depth_of hlost, hzero]
  exact ⟨iff_of_true hmutex (Or.inl Nat.one_pos), iff_of_false hholder fun he => (by cases he.2),
    fun _ _ => rfl, fun _ => hmagic⟩

include hal h in
theorem hold_keeps (hpc : f.pc = .hold leg) :
    StepOk v t { v with holder := some t } ⟨m, { f with pc := f.entered leg } :: rest⟩ := by
  have hfits := h.shape.1
  have hleaving : f.pc.leaving = false := by rw [hpc]; cases leg <;> rfl
  have hlost := lost_false hfits hleaving
  have hacc := accounts_cons.mp h.accounts
  rw [depth_eq hlost, hpc] at hacc
  have hpos : 0 < (Pc.hold leg).depth + locks rest := Nat.lt_add_right _ Nat.one_pos
  simp only [hpos, true_or, iff_true, forall_const, Pc.counting] at hacc
  obtain ⟨hmutex, _, hrec, hmagic⟩ := hacc
  obtain ⟨hd, ht, hu, hc⟩ := entered_spec f leg
  have hvars : VarsOk { v with holder := some t } := by
    refine ⟨fun u hu => ?_, h.vars.free⟩
    obtain rfl := Option.some.inj hu
    exact hmutex
  refine ⟨ok_frame hal h hvars (fits_entered hfits (by rw [hpc]; rfl) (by rw [hpc]; rfl)
      (fun hleg => by rw [hpc, hleg]; rfl) hleaving) ?_ rfl (fun _ _ he => he) rfl,
    moves_mine hal h.vars hvars (Or.inl hmutex) (Or.inl hmutex) rfl⟩
  refine accounts_cons.mpr ?_
  rw [depth_of hlost]
  dsimp only
  rw [hd, hu]
  have hpos' : 0 < 1 + locks rest := Nat.lt_add_right _ Nat.one_pos
  exact ⟨iff_of_true hmutex (Or.inl hpos'), iff_of_true rfl ⟨Or.inl hpos', rfl⟩, fun _ _ => hrec,
    fun _ => hmagic⟩

include hal h in
/-- What `antimagic` says is about the thread itself. -/
theorem test_keeps (hpc : f.pc = .test) {real : Bool}
    (hreal : real = true ↔ f.kind = .wrapper ∧ 0 < v.antimagic) {saved : SigSet} :
    StepOk v t { v with savedSigmask := saved } ⟨m, { f with pc := .body real } :: rest⟩ := by
  have hfits := h.shape.1
  have hlost := lost_false hfits (by rw [hpc]; rfl)
  have hw := hfits.open' (by rw [hpc]; rfl)
  have hacc := accounts_cons.mp h.accounts
  rw [depth_eq hlost, hpc, hw, Nat.zero_add] at hacc
  have hpos : 0 < Pc.test.depth + locks rest := Nat.lt_add_right _ Nat.one_pos
  simp only [hpos, true_or, iff_true, forall_const, Pc.counting, Pc.unnamed, and_self] at hacc
  obtain ⟨hmutex, hholder, hrec, hmagic⟩ := hacc
  have hfits' : Frame.Fits { f with pc := .body real } rest := by
    refine fits_body hfits (by rw [hpc]; rfl) fun hk => ?_
    rw [hreal, and_iff_right hk, hmagic]
    omega
  have hacc' : Accounts v t ({ f with pc := .body real } :: rest) := by
    refine accounts_same h.accounts ?_ rfl ?_ ?_ ?_
    · rw [locks_cons, locks_cons, depth_of hlost, depth_eq hlost, hpc]
      rfl
    · rw [top_cons, top_cons, hpc]
      rfl
    · rw [top_cons, top_cons, hpc]
      rfl
    · rw [top_cons, top_cons, hpc]
      rfl
  have hvars : VarsOk { v with savedSigmask := saved } := ⟨h.vars.named, h.vars.free⟩
  exact ⟨ok_frame hal h hvars hfits' ⟨hacc'.mutex, hacc'.holder, hacc'.recursion,
      hacc'.antimagic⟩ rfl (fun _ _ he => he) rfl,
    moves_mine hal h.vars hvars (Or.inl hmutex) (Or.inl hmutex) rfl⟩

theorem dropped_spec (leg : Leg) : leg.dropped.depth = 0 ∧ leg.dropped.taking = false ∧
    leg.dropped.unnamed = false ∧ leg.dropped.counting = false ∧ leg.dropped.isBody = false ∧
    leg.dropped.isHandling = false ∧ leg.dropped.isTest = false ∧
    (leg.dropped.around = true → leg = .fifo) ∧ ∀ n, leg.dropped.Placed n := by
  cases leg with
  | ends => exact ⟨rfl, rfl, rfl, rfl, rfl, rfl, rfl, fun ha => (by cases ha), fun _ => trivial⟩
  | fifo => exact ⟨rfl, rfl, rfl, rfl, rfl, rfl, rfl, fun _ => rfl, fun _ => trivial⟩

/-- A frame whose lock is lost does not have the lock, and nobody has. -/
theorem lost_free (h : LockOk v t ⟨m, f :: rest⟩) (hlost : f.lost = true)
    (ht : f.pc.taking = false) : v.mutex = none ∧ locks rest = 0 := by
  have hzero := locks_application h.shape.2 (h.shape.1.lost hlost).2.2.2
  refine ⟨Option.eq_none_iff_forall_ne_some.mpr fun u hu => ?_, hzero⟩
  rcases Decidable.em (u = t) with rfl | hne
  · have ho := h.accounts.mutex.mp hu
    rw [owns_cons, hzero, ht] at ho
    unfold Frame.depth at ho
    rw [hlost] at ho
    rcases ho with ho | ho <;> cases ho
  · exact (h.alone ⟨f, List.mem_cons_self, hlost⟩ u hne).2 hu

include hal h in
theorem drop_keeps (hpc : f.pc = .drop leg) : StepOk v t { v with recursion := v.recursion - 1 }
    ⟨m, { f with pc := if v.recursion - 1 = 0 then .clear leg else leg.dropped } :: rest⟩ := by
  have hfits := h.shape.1
  have hw := hfits.open' (by rw [hpc]; rfl)
  obtain ⟨hd, ht, hu, hc, hb, hh, htest, ha, hp⟩ := dropped_spec leg
  rcases Bool.eq_false_or_eq_true f.lost with hlost | hlost
  · -- the lock went with the parent's memory, and nobody has taken it since
    obtain ⟨hnone, hzero⟩ := lost_free h hlost (by rw [hpc]; rfl)
    have hleg : leg = .ends := by
      have hleaving := (hfits.lost hlost).1
      rw [hpc] at hleaving
      cases leg with
      | ends => rfl
      | fifo => cases hleaving
    obtain ⟨hrec, hmagic⟩ := h.vars.free hnone
    have hvars : VarsOk { v with recursion := v.recursion - 1 } :=
      ⟨h.vars.named, fun _ => ⟨show v.recursion - 1 ≤ 0 by omega, hmagic⟩⟩
    rw [if_neg (by omega)]
    refine ⟨ok_frame hal h hvars ?_ ?_ rfl (fun _ _ he => he) rfl,
      moves_mine hal h.vars hvars (Or.inr hnone) (Or.inr hnone) rfl⟩
    · refine fits_pc hfits (hp _) hb hw (by rw [hpc]; exact hh) (fun hfifo => ?_)
        (fun hno => by rw [htest] at hno; cases hno) fun _ => by rw [hleg]; rfl
      rw [hleg] at hfifo
      cases hfifo
    · have hacc := h.accounts
      have hsame : Frame.depth { f with pc := leg.dropped } = f.depth := by
        unfold Frame.depth
        dsimp only
        rw [hlost]
        rfl
      have hno : owns (f :: rest) = false := by
        refine Bool.eq_false_iff.mpr fun ho => ?_
        have hmine := hacc.mutex.mpr ho
        rw [hnone] at hmine
        cases hmine
      have hsameacc : Accounts v t ({ f with pc := leg.dropped } :: rest) := by
        refine accounts_same hacc ?_ rfl ?_ ?_ ?_
        · rw [locks_cons, locks_cons, hsame]
        · rw [top_cons, top_cons, hpc, ht]
          rfl
        · rw [top_cons, top_cons, hpc, hu]
          rfl
        · rw [top_cons, top_cons, hpc, hc]
          rfl
      refine ⟨hsameacc.mutex, hsameacc.holder, fun ho => ?_, hsameacc.antimagic⟩
      have hmine := hsameacc.mutex.mpr ho
      rw [hnone] at hmine
      cases hmine
  · have hacc := accounts_cons.mp h.accounts
    rw [depth_eq hlost, hpc] at hacc
    have hpos : 0 < (Pc.drop leg).depth + locks rest := Nat.lt_add_right _ Nat.one_pos
    simp only [hpos, true_or, iff_true, forall_const, Pc.counting, Pc.unnamed, and_self] at hacc
    obtain ⟨hmutex, hholder, hrec, hmagic⟩ := hacc
    have hrec : v.recursion - 1 = (locks rest : Nat) := by
      rw [hrec]
      have hone : (Pc.drop leg).depth = 1 := rfl
      omega
    have hvars : VarsOk { v with recursion := v.recursion - 1 } := by
      refine ⟨h.vars.named, fun hno => ?_⟩
      rw [hmutex] at hno
      cases hno
    have hquiet : leg = .fifo → f.kind = .wrapper ∧ openWindows rest = 0 := by
      intro hleg
      exact hfits.around (by rw [hpc, hleg]; rfl)
    rcases Decidable.em (locks rest = 0) with hzero | hmore
    · rw [if_pos (by rw [hrec, hzero]; rfl)]
      refine ⟨ok_frame hal h hvars ?_ ?_ rfl (fun _ _ he => he) rfl,
        moves_mine hal h.vars hvars (Or.inl hmutex) (Or.inl hmutex) rfl⟩
      · refine fits_pc hfits hzero rfl hw (by rw [hpc]; rfl) (fun hfifo => ?_)
          (fun hno => by cases hno) fun hl => by rw [hlost] at hl; cases hl
        cases leg with
        | ends => cases hfifo
        | fifo => exact hquiet rfl
      · refine accounts_cons.mpr ?_
        rw [depth_of hlost, hzero]
        refine ⟨iff_of_true hmutex (Or.inr rfl), iff_of_true hholder ⟨Or.inr rfl, rfl⟩,
          fun _ _ => ?_, fun _ => hmagic⟩
        show v.recursion - 1 = _
        rw [hrec, hzero]
        rfl
    · have hpos' : 0 < locks rest := Nat.pos_of_ne_zero hmore
      rw [if_neg (by rw [hrec]; omega)]
      refine ⟨ok_frame hal h hvars ?_ ?_ rfl (fun _ _ he => he) rfl,
        moves_mine hal h.vars hvars (Or.inl hmutex) (Or.inl hmutex) rfl⟩
      · exact fits_pc hfits (hp _) hb hw (by rw [hpc]; exact hh) (fun hfifo => hquiet (ha hfifo))
          (fun hno => by rw [htest] at hno; cases hno) fun hl => by rw [hlost] at hl; cases hl
      · refine accounts_cons.mpr ?_
        rw [depth_of hlost, hd, Nat.zero_add]
        exact ⟨iff_of_true hmutex (Or.inl hpos'), iff_of_true hholder ⟨Or.inl hpos', hu⟩,
          fun _ _ => hrec, fun _ => hmagic⟩

include hal h in
theorem clear_keeps (hpc : f.pc = .clear leg) :
    StepOk v t { v with holder := none } ⟨m, { f with pc := .unlock leg } :: rest⟩ := by
  have hfits := h.shape.1
  have hleaving : f.pc.leaving = false := by rw [hpc]; cases leg <;> rfl
  have hlost := lost_false hfits hleaving
  have hplaced := hfits.placed
  rw [hpc] at hplaced
  have hzero : locks rest = 0 := hplaced
  have hacc := accounts_cons.mp h.accounts
  rw [depth_eq hlost, hpc] at hacc
  simp only [Pc.depth, Pc.taking, Pc.unnamed, Pc.counting, or_true, true_and, iff_true,
    forall_const] at hacc
  obtain ⟨hmutex, _, hrec, hmagic⟩ := hacc
  have hvars : VarsOk { v with holder := none } := ⟨fun u hu => (by cases hu), h.vars.free⟩
  have hfits' : Frame.Fits { f with pc := .unlock leg } rest := by
    refine fits_next hfits hzero rfl (by rw [hpc]; rfl) (by rw [hpc]; rfl) (fun ha => ?_)
      rfl hleaving
    rw [hpc]
    cases leg with
    | ends => cases ha
    | fifo => rfl
  refine ⟨ok_frame hal h hvars hfits' ?_ rfl (fun _ _ he => he) rfl,
    moves_mine hal h.vars hvars (Or.inl hmutex) (Or.inl hmutex) rfl⟩
  refine accounts_cons.mpr ?_
  rw [depth_of hlost]
  exact ⟨iff_of_true hmutex (Or.inr rfl),
    iff_of_false (fun he => (by cases he)) fun he => (by cases he.2), fun _ _ => hrec,
    fun _ => hmagic⟩

include hal h in
theorem unlock_keeps (hpc : f.pc = .unlock leg) :
    StepOk v t { v with mutex := none } ⟨m, { f with pc := leg.dropped } :: rest⟩ := by
  have hfits := h.shape.1
  have hleaving : f.pc.leaving = false := by rw [hpc]; cases leg <;> rfl
  have hlost := lost_false hfits hleaving
  have hplaced := hfits.placed
  rw [hpc] at hplaced
  have hzero : locks rest = 0 := hplaced
  have hw := hfits.open' (by rw [hpc]; rfl)
  obtain ⟨hd, ht, hu, hc, hb, hh, htest, ha, hp⟩ := dropped_spec leg
  have hacc := accounts_cons.mp h.accounts
  rw [depth_eq hlost, hpc, hw, hzero, openWindows_zero h.shape.2 hzero] at hacc
  simp only [Pc.depth, Pc.taking, Pc.unnamed, Pc.counting, or_true, true_and, iff_true,
    forall_const, reduceCtorEq, iff_false] at hacc
  obtain ⟨hmutex, hholder, hrec, hmagic⟩ := hacc
  have hvars : VarsOk { v with mutex := none } := by
    refine ⟨fun u hu => ?_, fun _ => ⟨show v.recursion ≤ 0 by rw [hrec]; decide, hmagic⟩⟩
    have he := h.vars.named u hu
    rw [hmutex] at he
    obtain rfl := Option.some.inj he
    exact absurd hu hholder
  have hfits' : Frame.Fits { f with pc := leg.dropped } rest := by
    refine fits_next hfits (hp _) hb (by rw [hpc]; rfl) (by rw [hpc]; exact hh) (fun hfifo => ?_)
      htest hleaving
    rw [hpc, ha hfifo]
    rfl
  refine ⟨ok_frame hal h hvars hfits' ?_ rfl (fun _ _ he => (by cases he)) rfl,
    moves_mine hal h.vars hvars (Or.inl hmutex) (Or.inr rfl) rfl⟩
  have hno : ¬ (0 < leg.dropped.depth + locks rest ∨ leg.dropped.taking = true) := by
    rw [hd, hzero, ht]
    simp
  refine accounts_cons.mpr ?_
  rw [depth_of hlost]
  exact ⟨iff_of_false (fun he => (by cases he)) hno, iff_of_false hholder fun he => hno he.1,
    fun ho => absurd ho hno, fun ho => absurd ho hno⟩

include hal h in
theorem unmask_keeps (hpc : f.pc = .unmask) {mask : SigSet} :
    StepOk v t v ⟨m', { f with pc := .blocked mask } :: rest⟩ := by
  have hfits := h.shape.1
  have hleaving : f.pc.leaving = false := by rw [hpc]; rfl
  have hlost := lost_false hfits hleaving
  refine ⟨ok_frame hal h h.vars ?_ ?_ rfl (fun _ _ he => he) rfl,
    moves_idle h hal rfl rfl rfl rfl rfl fun _ hu => hu⟩
  · exact fits_next hfits trivial rfl (by rw [hpc]; rfl) (by rw [hpc]; rfl)
      (fun _ => by rw [hpc]; rfl) rfl hleaving
  · refine accounts_same h.accounts ?_ rfl ?_ ?_ ?_
    · rw [locks_cons, locks_cons, depth_of hlost, depth_eq hlost, hpc]
      rfl
    · rw [top_cons, top_cons, hpc]
      rfl
    · rw [top_cons, top_cons, hpc]
      rfl
    · rw [top_cons, top_cons, hpc]
      rfl

end Instructions

/-! ## 4. Calls and returns -/

/-- The frame on top is not inside of `pseudo_getlock` or `pseudo_droplock`. -/
def Settled (stack : List Frame) : Prop :=
  top Pc.taking stack = false ∧ top Pc.unnamed stack = false ∧ top Pc.counting stack = false

theorem settled_of_callable (hc : callable stack = true) : Settled stack := by
  cases stack with
  | nil => exact ⟨rfl, rfl, rfl⟩
  | cons f rest =>
    obtain ⟨kind, saved, windows, lost, pc⟩ := f
    cases pc <;> first | exact ⟨rfl, rfl, rfl⟩ | cases hc

theorem settled_of_interruptible (hi : interruptible stack = true) : Settled stack := by
  cases stack with
  | nil => exact ⟨rfl, rfl, rfl⟩
  | cons f rest =>
    obtain ⟨kind, saved, windows, lost, pc⟩ := f
    cases pc <;> first | exact ⟨rfl, rfl, rfl⟩ | cases hi

theorem settled_below (h : f.Fits rest) : Settled rest := by
  have hbelow := h.below
  split at hbelow
  · exact settled_of_interruptible hbelow
  · exact settled_of_callable hbelow

/-- The frame holds nothing. -/
structure Frame.Empty (f : Frame) : Prop where
  depth : f.depth = 0
  windows : f.windows = 0
  settled : Settled [f]

theorem accounts_push (hf : Frame.Empty f) (hs : Settled stack) :
    Accounts v t (f :: stack) ↔ Accounts v t stack := by
  have hl : locks (f :: stack) = locks stack := by rw [locks_cons, hf.depth, Nat.zero_add]
  have hw : openWindows (f :: stack) = openWindows stack := by
    rw [openWindows_cons, hf.windows, Nat.zero_add]
  obtain ⟨ht, hu, hc⟩ := hf.settled
  obtain ⟨ht', hu', hc'⟩ := hs
  have ht'' := ht.trans ht'.symm
  have hu'' := hu.trans hu'.symm
  have hc'' := hc.trans hc'.symm
  exact ⟨fun h => accounts_same h hl.symm hw.symm ht''.symm hu''.symm hc''.symm,
    fun h => accounts_same h hl hw ht'' hu'' hc''⟩

theorem push_keeps (hal : v.alive t = true) (h : LockOk v t ⟨m, stack⟩) (hfits : f.Fits stack)
    (hf : Frame.Empty f) (hs : Settled stack) (hlost : f.lost = false) :
    StepOk v t v ⟨m', f :: stack⟩ := by
  refine ⟨ok_stack h h.vars ⟨hfits, h.shape⟩ ((accounts_push hf hs).mpr h.accounts) rfl hal
    (fun _ _ he => he) ?_, moves_idle h hal rfl rfl rfl rfl rfl fun _ hu => hu⟩
  rintro ⟨g, hg, hgl⟩
  rcases List.mem_cons.mp hg with rfl | hg
  · rw [hlost] at hgl
    cases hgl
  · exact ⟨g, hg, hgl⟩

theorem pop_keeps (hal : v.alive t = true) (h : LockOk v t ⟨m, f :: rest⟩) (hf : Frame.Empty f) :
    StepOk v t v ⟨m', rest⟩ := by
  refine ⟨ok_stack h h.vars h.shape.2
    ((accounts_push hf (settled_below h.shape.1)).mp h.accounts) rfl hal (fun _ _ he => he) ?_,
    moves_idle h hal rfl rfl rfl rfl rfl fun _ hu => hu⟩
  rintro ⟨g, hg, hgl⟩
  exact ⟨g, List.mem_cons_of_mem _ hg, hgl⟩

theorem empty_of (hd : f.pc.depth = 0) (hw : f.windows = 0) (hs : Settled [f]) : Frame.Empty f := by
  refine ⟨?_, hw, hs⟩
  unfold Frame.depth
  rw [hd]
  split <;> rfl

theorem call_keeps (hal : v.alive t = true) (h : LockOk v t ⟨m, stack⟩)
    (hc : callable stack = true) {kind : Kind} (hkind : kind ≠ .init) {saved : SigSet} :
    StepOk v t v ⟨m', ⟨kind, saved, 0, false, .compare .ends⟩ :: stack⟩ := by
  refine push_keeps hal h ⟨trivial, fun _ => rfl, hc, fun hh => (by cases hh),
    fun r hr => (by cases hr), fun ha => (by cases ha), fun ht => (by cases ht),
    fun hi => absurd hi hkind,
    fun hl => (by cases hl)⟩
    ⟨rfl, rfl, rfl, rfl, rfl⟩ (settled_of_callable hc) rfl

theorem reinit_keeps (hal : v.alive t = true) (h : LockOk v t ⟨m, stack⟩)
    (hb : top Pc.isBody stack = true) {saved : SigSet} :
    StepOk v t v ⟨m', ⟨.init, saved, 0, false, .compare .ends⟩ :: stack⟩ := by
  have hc : callable stack = true := by
    cases stack with
    | nil => rfl
    | cons f rest =>
      have hbody : f.pc.isBody = true := hb
      show (f.pc.isBody || f.pc.isHandling) = true
      rw [hbody]
      rfl
  refine push_keeps hal h ⟨trivial, fun _ => rfl, hc, fun hh => (by cases hh),
    fun r hr => (by cases hr), fun ha => (by cases ha), fun ht => (by cases ht), fun _ => ⟨rfl, hb⟩,
    fun hl => (by cases hl)⟩
    ⟨rfl, rfl, rfl, rfl, rfl⟩ (settled_of_callable hc) rfl

/-- A handler starts where the thread does not have the lock. -/
theorem signal_keeps (hal : v.alive t = true) (h : LockOk v t ⟨m, stack⟩)
    (hi : interruptible stack = true) (hl : inside stack = false) {saved : SigSet} :
    StepOk v t v ⟨m', ⟨.handler, saved, 0, false, .handling⟩ :: stack⟩ := by
  refine push_keeps hal h ⟨trivial, fun _ => rfl, hi, fun _ => hl,
    fun r hr => (by cases hr), fun ha => (by cases ha), fun ht => (by cases ht),
    fun hi => (by cases hi),
    fun hl => (by cases hl)⟩
    ⟨rfl, rfl, rfl, rfl, rfl⟩ (settled_of_interruptible hi) rfl

/-- A frame whose body runs has the lock, unless it is lost. -/
theorem body_accounts (h : LockOk v t ⟨m, f :: rest⟩) (hb : f.pc.isBody = true)
    (hlost : f.lost = false) : v.mutex = some t ∧ v.holder = some t ∧
      v.recursion = (1 + locks rest : Nat) ∧
      v.antimagic = (f.windows + openWindows rest : Nat) := by
  have hacc := accounts_cons.mp h.accounts
  rw [depth_eq hlost] at hacc
  obtain ⟨kind, saved, windows, lost, pc⟩ := f
  cases pc <;> cases hb
  have hpos : 0 < 1 + locks rest := Nat.lt_add_right _ Nat.one_pos
  obtain ⟨hmutex, hholder, hrec, hmagic⟩ := hacc
  exact ⟨hmutex.mpr (Or.inl hpos), hholder.mpr ⟨Or.inl hpos, rfl⟩, hrec (Or.inl hpos) rfl,
    hmagic (Or.inl hpos)⟩

/-- A window is opened or closed. -/
theorem window_keeps (hal : v.alive t = true) (h : LockOk v t ⟨m, f :: rest⟩)
    (hb : f.pc.isBody = true) (hlost : f.lost = false) {n : Int} {w : Nat}
    (hn : n = (w + openWindows rest : Nat)) :
    StepOk v t { v with antimagic := n } ⟨m, { f with windows := w } :: rest⟩ := by
  obtain ⟨hmutex, hholder, hrec, _⟩ := body_accounts h hb hlost
  have hfits := h.shape.1
  have hvars : VarsOk { v with antimagic := n } := by
    refine ⟨h.vars.named, fun hno => ?_⟩
    rw [hmutex] at hno
    cases hno
  refine ⟨ok_frame hal h hvars ?_ ?_ rfl (fun _ _ he => he) rfl,
    moves_mine hal h.vars hvars (Or.inl hmutex) (Or.inl hmutex) rfl⟩
  · refine ⟨hfits.placed, fun hno => ?_, hfits.below, hfits.handler, hfits.real, hfits.around,
      hfits.test, hfits.init, fun hl => ?_⟩
    · dsimp only at hno
      rw [hb] at hno
      cases hno
    · dsimp only at hl
      rw [hlost] at hl
      cases hl
  · obtain ⟨hmutex', hholder', hrec', _⟩ := accounts_cons.mp h.accounts
    exact accounts_cons.mpr ⟨hmutex', hholder', hrec', fun _ => hn⟩

/-- A body goes on to `pseudo_droplock`. -/
theorem leave_keeps (hal : v.alive t = true) (h : LockOk v t ⟨m, f :: rest⟩)
    (hb : f.pc.isBody = true) (hw : f.windows = 0)
    (hfifo : leg = .fifo → f.kind = .wrapper ∧ openWindows rest = 0) :
    StepOk v t v ⟨m, { f with pc := .drop leg } :: rest⟩ := by
  have hfits := h.shape.1
  have hh : f.pc.isHandling = false := by
    cases hpc : f.pc <;> rw [hpc] at hb <;> first | rfl | cases hb
  have hflags : Settled [f] ∧ f.pc.depth = 1 := by
    obtain ⟨kind, saved, windows, lost, pc⟩ := f
    cases pc <;> first | exact ⟨⟨rfl, rfl, rfl⟩, rfl⟩ | cases hb
  obtain ⟨⟨ht, hu, hc⟩, hd⟩ := hflags
  refine ⟨ok_frame hal h h.vars ?_ ?_ rfl (fun _ _ he => he) rfl,
    moves_idle h hal rfl rfl rfl rfl rfl fun _ hu => hu⟩
  · refine fits_pc hfits trivial rfl hw hh.symm (fun ha => ?_) (fun hno => by cases hno)
      fun hl => ?_
    · cases leg with
      | ends => cases ha
      | fifo => exact hfifo rfl
    · cases leg with
      | ends => rfl
      | fifo =>
        have hk := (hfits.lost hl).2.1
        rw [(hfifo rfl).1] at hk
        cases hk
  · refine accounts_same h.accounts ?_ rfl ?_ ?_ ?_
    · rw [locks_cons, locks_cons]
      unfold Frame.depth
      dsimp only
      rw [hd]
      rfl
    · exact ht.symm
    · exact hu.symm
    · exact hc.symm

theorem opened_keeps (hal : v.alive t = true) (h : LockOk v t ⟨m, f :: rest⟩) {mask : SigSet}
    (hpc : f.pc = .blocked mask) :
    StepOk v t v ⟨m', { f with pc := .compare .fifo } :: rest⟩ := by
  have hfits := h.shape.1
  have hleaving : f.pc.leaving = false := by rw [hpc]; rfl
  have hlost := lost_false hfits hleaving
  refine ⟨ok_frame hal h h.vars ?_ ?_ rfl (fun _ _ he => he) rfl,
    moves_idle h hal rfl rfl rfl rfl rfl fun _ hu => hu⟩
  · exact fits_next hfits trivial rfl (by rw [hpc]; rfl) (by rw [hpc]; rfl)
      (fun _ => by rw [hpc]; rfl) rfl hleaving
  · refine accounts_same h.accounts ?_ rfl ?_ ?_ ?_
    · rw [locks_cons, locks_cons, depth_of hlost, depth_eq hlost, hpc]
      rfl
    · rw [top_cons, top_cons, hpc]
      rfl
    · rw [top_cons, top_cons, hpc]
      rfl
    · rw [top_cons, top_cons, hpc]
      rfl

theorem unblock_keeps (hal : v.alive t = true) (h : LockOk v t ⟨m, stack⟩) :
    StepOk v t v ⟨m', stack⟩ :=
  ⟨ok_stack h h.vars h.shape h.accounts rfl hal (fun _ _ he => he) fun he => he,
    moves_idle h hal rfl rfl rfl rfl rfl fun _ hu => hu⟩

theorem lost_inside (h : Shape (f :: rest)) {g : Frame} (hg : g ∈ rest) (hl : g.lost = true) :
    inside rest = true := by
  induction rest generalizing f with
  | nil => cases hg
  | cons f' rest ih =>
    rcases List.mem_cons.mp hg with rfl | hg
    · have hleaving := (h.2.1.lost hl).1
      have hbelow := h.1.below
      cases hpc : g.pc <;> rw [hpc] at hleaving <;> first | cases hleaving | skip
      · exact inside_of_body (by rw [hpc]; rfl)
      all_goals
        have hno : callable (g :: rest) = false ∧ interruptible (g :: rest) = false := by
          simp [callable, interruptible, hpc, Pc.isBody, Pc.isHandling, Pc.isBlocked]
        rw [hno.1, hno.2] at hbelow
        split at hbelow <;> cases hbelow
    · exact inside_cons.mpr (Or.inr (ih h.2 hg))

/-- In the program no lock is lost. -/
theorem application_lost (h : Shape stack) (ha : application stack = true) :
    ¬ ∃ f ∈ stack, f.lost = true := by
  rintro ⟨g, hg, hl⟩
  cases stack with
  | nil => cases hg
  | cons f rest =>
    have hh : f.pc.isHandling = true := ha
    rcases List.mem_cons.mp hg with rfl | hg
    · have hpc : g.pc = .handling := by
        cases hpc : g.pc <;> rw [hpc] at hh <;> first | rfl | cases hh
      have hleaving := (h.1.lost hl).1
      rw [hpc] at hleaving
      cases hleaving
    · have hno := h.1.handler hh
      rw [lost_inside h hg hl] at hno
      cases hno

theorem spawn_keeps (hal : v.alive t = true) (h : LockOk v t ⟨m, stack⟩)
    (ha : application stack = true) (u : ThreadId) :
    StepOk v t { v with alive := Function.update v.alive u true } ⟨m, stack⟩ := by
  have halive : ∀ w, v.alive w = true → Function.update v.alive u true w = true := by
    intro w hw
    rcases Decidable.em (w = u) with rfl | hne
    · exact Function.update_self _ _ _
    · rw [Function.update_of_ne hne]
      exact hw
  refine ⟨⟨fun hdead => ?_, ⟨h.vars.named, h.vars.free⟩, h.shape,
    ⟨h.accounts.mutex, h.accounts.holder, h.accounts.recursion, h.accounts.antimagic⟩,
    fun hl => absurd hl (application_lost h.shape ha)⟩,
    moves_idle h hal rfl rfl rfl rfl rfl halive⟩
  have hno : Function.update v.alive u true t = false := hdead
  rw [halive t hal] at hno
  cases hno

/-! ## 5. Every step -/

theorem restore_keeps (hal : v.alive t = true) (h : LockOk v t ⟨m, f :: rest⟩)
    (hpc : f.pc = .restore) : StepOk v t v ⟨m', rest⟩ := by
  refine pop_keeps hal h (empty_of (by rw [hpc]; rfl) (h.shape.1.open' (by rw [hpc]; rfl)) ?_)
  exact ⟨by rw [top_cons, hpc]; rfl, by rw [top_cons, hpc]; rfl, by rw [top_cons, hpc]; rfl⟩

theorem sigreturn_keeps (hal : v.alive t = true) (h : LockOk v t ⟨m, f :: rest⟩)
    (hpc : f.pc = .handling) : StepOk v t v ⟨m', rest⟩ := by
  refine pop_keeps hal h (empty_of (by rw [hpc]; rfl) (h.shape.1.open' (by rw [hpc]; rfl)) ?_)
  exact ⟨by rw [top_cons, hpc]; rfl, by rw [top_cons, hpc]; rfl, by rw [top_cons, hpc]; rfl⟩

theorem go_keeps (hal : v.alive t = true) (h : LockOk v t th)
    (hgo : go v t th = some (v', th')) : StepOk v t v' th' := by
  obtain ⟨m, stack⟩ := th
  cases stack with
  | nil => cases hgo
  | cons f rest =>
    unfold go Thread.inTop at hgo
    dsimp only at hgo
    cases hpc : f.pc with
    | compare leg =>
      rw [hpc] at hgo
      obtain ⟨rfl, rfl⟩ := Prod.mk.inj (Option.some.inj hgo)
      exact compare_keeps hal h hpc
    | recurse leg =>
      rw [hpc] at hgo
      obtain ⟨rfl, rfl⟩ := Prod.mk.inj (Option.some.inj hgo)
      exact recurse_keeps hal h hpc
    | lock leg =>
      rw [hpc] at hgo
      dsimp only at hgo
      split at hgo
      · next hnone =>
        obtain ⟨rfl, rfl⟩ := Prod.mk.inj (Option.some.inj hgo)
        exact lock_keeps hal h hpc hnone
      · cases hgo
    | count leg =>
      rw [hpc] at hgo
      obtain ⟨rfl, rfl⟩ := Prod.mk.inj (Option.some.inj hgo)
      exact count_keeps hal h hpc
    | hold leg =>
      rw [hpc] at hgo
      obtain ⟨rfl, rfl⟩ := Prod.mk.inj (Option.some.inj hgo)
      exact hold_keeps hal h hpc
    | test =>
      rw [hpc] at hgo
      dsimp only at hgo
      split at hgo
      · next hpos =>
        obtain ⟨rfl, rfl⟩ := Prod.mk.inj (Option.some.inj hgo)
        exact test_keeps hal h hpc (iff_of_true rfl hpos)
      · next hzero =>
        obtain ⟨rfl, rfl⟩ := Prod.mk.inj (Option.some.inj hgo)
        exact test_keeps hal h hpc (iff_of_false (by simp) hzero)
    | drop leg =>
      rw [hpc] at hgo
      obtain ⟨rfl, rfl⟩ := Prod.mk.inj (Option.some.inj hgo)
      exact drop_keeps hal h hpc
    | clear leg =>
      rw [hpc] at hgo
      obtain ⟨rfl, rfl⟩ := Prod.mk.inj (Option.some.inj hgo)
      exact clear_keeps hal h hpc
    | unlock leg =>
      rw [hpc] at hgo
      obtain ⟨rfl, rfl⟩ := Prod.mk.inj (Option.some.inj hgo)
      exact unlock_keeps hal h hpc
    | unmask =>
      rw [hpc] at hgo
      obtain ⟨rfl, rfl⟩ := Prod.mk.inj (Option.some.inj hgo)
      exact unmask_keeps hal h hpc
    | restore =>
      rw [hpc] at hgo
      obtain ⟨rfl, rfl⟩ := Prod.mk.inj (Option.some.inj hgo)
      exact restore_keeps hal h hpc
    | body real =>
      rw [hpc] at hgo
      cases hgo
    | blocked mask =>
      rw [hpc] at hgo
      cases hgo
    | handling =>
      rw [hpc] at hgo
      cases hgo

theorem exists_body (hb : f.pc.isBody = true) : ∃ real, f.pc = .body real := by
  cases hpc : f.pc with
  | body real => exact ⟨real, rfl⟩
  | _ =>
    rw [hpc] at hb
    cases hb

/-- What a body does, by cases. -/
theorem inBody_some {β : Type} {k : Frame → List Frame → Option β} {r : β}
    (h : Thread.inBody ⟨m, stack⟩ k = some r) : ∃ f rest, stack = f :: rest ∧ f.pc.isBody = true ∧
      k f rest = some r := by
  cases stack with
  | nil => cases h
  | cons f rest =>
    unfold Thread.inBody Thread.inTop at h
    dsimp only at h
    split at h
    · next hb => exact ⟨f, rest, rfl, hb, h⟩
    · cases h

/-- Every step of a thread keeps what it knows, as long as handlers start where it does not have
the lock. -/
theorem threadStep_keeps (hal : v.alive t = true) (h : LockOk v t th) {a : Act}
    (hsignal : ∀ s mask, a = .signal s mask → threadStep v t th a = some (v', th') →
      interruptible th.stack = true ∧ inside th.stack = false)
    (hstep : threadStep v t th a = some (v', th')) : StepOk v t v' th' := by
  obtain ⟨m, stack⟩ := th
  cases a with
  | go => exact go_keeps hal h hstep
  | call kind =>
    dsimp only [threadStep] at hstep
    split at hstep
    · next hc =>
      simp only [Bool.and_eq_true, decide_eq_true_eq] at hc
      obtain ⟨rfl, rfl⟩ := Prod.mk.inj (Option.some.inj hstep)
      exact call_keeps hal h hc.1.1 hc.1.2
    · cases hstep
  | signal s mask =>
    obtain ⟨hi, hl⟩ := hsignal s mask rfl hstep
    dsimp only [threadStep] at hstep
    split at hstep
    · obtain ⟨rfl, rfl⟩ := Prod.mk.inj (Option.some.inj hstep)
      exact signal_keeps hal h hi hl
    · cases hstep
  | spawn u =>
    dsimp only [threadStep] at hstep
    split at hstep
    · next hc =>
      obtain ⟨rfl, rfl⟩ := Prod.mk.inj (Option.some.inj hstep)
      rw [Bool.and_eq_true] at hc
      exact spawn_keeps hal h hc.1 u
    · cases hstep
  | reinit =>
    obtain ⟨f, rest, rfl, hb, hstep⟩ := inBody_some hstep
    obtain ⟨rfl, rfl⟩ := Prod.mk.inj (Option.some.inj hstep)
    exact reinit_keeps hal h hb
  | antimagic =>
    obtain ⟨f, rest, rfl, hb, hstep⟩ := inBody_some hstep
    split at hstep
    · cases hstep
    · next hlost =>
      have hlost := Bool.eq_false_iff.mpr hlost
      obtain ⟨rfl, rfl⟩ := Prod.mk.inj (Option.some.inj hstep)
      refine window_keeps hal h hb hlost ?_
      rw [(body_accounts h hb hlost).2.2.2]
      omega
  | magic =>
    obtain ⟨f, rest, rfl, hb, hstep⟩ := inBody_some hstep
    split at hstep
    · cases hstep
    · next hw =>
      have hlost : f.lost = false := by
        refine Bool.eq_false_iff.mpr fun hl => hw ?_
        exact (h.shape.1.lost hl).2.2.1
      obtain ⟨rfl, rfl⟩ := Prod.mk.inj (Option.some.inj hstep)
      refine window_keeps hal h hb hlost ?_
      rw [(body_accounts h hb hlost).2.2.2, if_pos (by omega)]
      omega
  | fifo =>
    obtain ⟨f, rest, rfl, hb, hstep⟩ := inBody_some hstep
    split at hstep
    · next hc =>
      simp only [Bool.and_eq_true, Bool.not_eq_true', decide_eq_true_eq] at hc
      obtain ⟨⟨hreal, hw⟩, hk⟩ := hc
      obtain ⟨rfl, rfl⟩ := Prod.mk.inj (Option.some.inj hstep)
      refine leave_keeps hal h hb hw fun _ => ⟨hk, ?_⟩
      obtain ⟨real, hpc⟩ := exists_body hb
      have hr := h.shape.1.real real hpc hk
      rw [hpc] at hreal
      rw [show real = false from hreal] at hr
      simpa using hr
    · cases hstep
  | opened =>
    cases stack with
    | nil => cases hstep
    | cons f rest =>
      dsimp only [threadStep, Thread.inTop] at hstep
      split at hstep
      · next mask hpc =>
        obtain ⟨rfl, rfl⟩ := Prod.mk.inj (Option.some.inj hstep)
        exact opened_keeps hal h hpc
      · cases hstep
  | unblock =>
    obtain ⟨f, rest, rfl, hb, hstep⟩ := inBody_some hstep
    split at hstep
    · obtain ⟨rfl, rfl⟩ := Prod.mk.inj (Option.some.inj hstep)
      exact unblock_keeps hal h
    · cases hstep
  | leave =>
    obtain ⟨f, rest, rfl, hb, hstep⟩ := inBody_some hstep
    split at hstep
    · next hw =>
      obtain ⟨rfl, rfl⟩ := Prod.mk.inj (Option.some.inj hstep)
      exact leave_keeps hal h hb hw fun hleg => (by cases hleg)
    · cases hstep
  | sigreturn =>
    cases stack with
    | nil => cases hstep
    | cons f rest =>
      dsimp only [threadStep, Thread.inTop] at hstep
      split at hstep
      · next hh =>
        obtain ⟨rfl, rfl⟩ := Prod.mk.inj (Option.some.inj hstep)
        refine sigreturn_keeps hal h ?_
        cases hpc : f.pc <;> rw [hpc] at hh <;> first | rfl | cases hh
      · cases hstep

end LockProtocolLemmas

end Pseudo

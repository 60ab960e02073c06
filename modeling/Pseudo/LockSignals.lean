import Pseudo.LockProtocol

/-!
# Signals in a wrapper

From `pseudo_sigblock` to its last `sigprocmask` a wrapper runs with six signals blocked. While it
opens a FIFO it has others blocked, those of `pseudo_saved_sigmask`, which every wrapper writes. It
may be called with the lock, and then it is a wrapper again that wrote it.

Results:
1. `signal_outside`: the signals find no thread inside of the lock.
2. `threadStep_masked`: the step lemma.
-/

namespace Pseudo

/-! ## 1. The signals -/

/-- All signals of `pseudo_sigblock` are blocked. -/
def Blocks (mask : SigSet) : Prop := ∀ s : Signal, s.blockable = true → mask s = true

/-- The wrapper has written `pseudo_saved_sigmask`, and may read it. -/
def Pc.tested (pc : Pc) : Bool := !pc.isReal && pc.isBody || pc.around

/-- The instruction is one at which the signals are blocked. -/
def Pc.masked : Pc → Bool
  | .handling | .blocked _ => false
  | _ => true

/-- The signals that are blocked, now and when the frames return. -/
def Masked (saved : SigSet) : SigSet → List Frame → Prop
  | _, [] => True
  | mask, f :: rest =>
    (f.kind = .wrapper → f.pc.tested = true → inside rest = true → Blocks saved) ∧
    match f.pc with
    | .handling => Masked saved f.saved rest
    | .blocked before => Blocks before ∧ (inside rest = true → Blocks mask) ∧
        Masked saved f.saved rest
    | _ => Blocks mask ∧ Masked saved (if f.kind = .init then mask else f.saved) rest

namespace LockSignalsLemmas

open LockProtocolLemmas

variable {v v' : LockVars} {t u : ThreadId} {th th' : Thread} {f f' : Frame} {rest : List Frame}
  {stack : List Frame} {m m' saved saved' : SigSet} {pc : Pc} {leg : Leg}

theorem blocks_sigblock (mask : SigSet) : Blocks (pseudoSigblock mask) := by
  intro s hs
  unfold pseudoSigblock
  rw [hs, Bool.or_true]

theorem masked_cons (hpc : Pc.masked f.pc = true) : Masked saved m (f :: rest) ↔
    (f.kind = .wrapper → f.pc.tested = true → inside rest = true → Blocks saved) ∧ Blocks m ∧
      Masked saved (if f.kind = .init then m else f.saved) rest := by
  obtain ⟨kind, fsaved, windows, lost, pc⟩ := f
  cases pc <;> first | exact Iff.rfl | cases hpc

theorem masked_handling (hpc : f.pc = .handling) : Masked saved m (f :: rest) ↔
    Masked saved f.saved rest := by
  obtain ⟨kind, fsaved, windows, lost, pc⟩ := f
  obtain rfl : pc = .handling := hpc
  exact and_iff_right fun _ ht => (by cases ht)

theorem masked_blocked {before : SigSet} (hpc : f.pc = .blocked before) :
    Masked saved m (f :: rest) ↔
    (f.kind = .wrapper → inside rest = true → Blocks saved) ∧ Blocks before ∧
      (inside rest = true → Blocks m) ∧ Masked saved f.saved rest := by
  obtain ⟨kind, fsaved, windows, lost, pc⟩ := f
  obtain rfl : pc = .blocked before := hpc
  exact and_congr_left fun _ => ⟨fun h hk => h hk rfl, fun h hk _ => h hk⟩

/-- What is written to `pseudo_saved_sigmask` matters inside of the lock only. -/
theorem masked_saved (h : Masked saved m stack)
    (hs : inside stack = true → Blocks saved → Blocks saved') : Masked saved' m stack := by
  induction stack generalizing m with
  | nil => trivial
  | cons f rest ih =>
    have hrest : inside rest = true → Blocks saved → Blocks saved' := fun hi =>
      hs (inside_cons.mpr (Or.inr hi))
    cases hpc : f.pc with
    | handling =>
      rw [masked_handling hpc] at h ⊢
      exact ih h hrest
    | blocked before =>
      rw [masked_blocked hpc] at h ⊢
      exact ⟨fun hk hi => hrest hi (h.1 hk hi), h.2.1, h.2.2.1, ih h.2.2.2 hrest⟩
    | _ =>
      have hm : Pc.masked f.pc = true := by rw [hpc]; rfl
      rw [masked_cons hm] at h ⊢
      exact ⟨fun hk ht hi => hrest hi (h.1 hk ht hi), h.2.1, ih h.2.2 hrest⟩

/-- Below a wrapper that is inside of the lock, a wrapper runs. -/
theorem blocks_below (hfits : f.Fits rest) (hh : f.pc.isHandling = false)
    (h : Masked saved m rest) (hi : inside rest = true) (hshape : Shape rest) : Blocks m := by
  cases rest with
  | nil => cases hi
  | cons g rest =>
    have hbelow := hfits.below
    rw [hh] at hbelow
    have hbelow : (g.pc.isBody || g.pc.isHandling) = true := hbelow
    rcases Bool.or_eq_true_iff.mp hbelow with hb | hg
    · obtain ⟨real, hpc⟩ := exists_body hb
      exact ((masked_cons (by rw [hpc]; rfl)).mp h).2.1
    · have hpc : g.pc = .handling := by
        cases hpc : g.pc <;> rw [hpc] at hg <;> first | rfl | cases hg
      rcases inside_cons.mp hi with hd | hin
      · rw [hpc] at hd
        cases hd
      · rw [hshape.1.handler hg] at hin
        cases hin

/-- A frame goes on, with the signals blocked before and after. -/
theorem masked_next (h : Masked saved m (f :: rest)) (hpc : Pc.masked f.pc = true)
    (hpc' : Pc.masked pc = true) (ht : f.kind = .wrapper → pc.tested = true → f.pc.tested = true) :
    Masked saved m ({ f with pc := pc } :: rest) := by
  rw [masked_cons hpc] at h
  exact (masked_cons hpc').mpr ⟨fun hk htested hi => h.1 hk (ht hk htested) hi, h.2⟩

theorem entered_masked (f : Frame) (leg : Leg) : Pc.masked (f.entered leg) = true ∧
    (f.kind = .wrapper → leg = .ends → (f.entered leg).tested = false) := by
  constructor
  · obtain ⟨kind, fsaved, windows, lost, pc⟩ := f
    cases leg <;> cases kind <;> rfl
  · rintro hk rfl
    unfold Frame.entered
    dsimp only
    rw [if_pos (Or.inl hk)]
    rfl

/-- The next instruction keeps the signals blocked. -/
theorem go_masked (h : LockOk v t th) (hm : Masked v.savedSigmask th.mask th.stack)
    (hgo : go v t th = some (v', th')) : Masked v'.savedSigmask th'.mask th'.stack := by
  obtain ⟨m, stack⟩ := th
  cases stack with
  | nil => cases hgo
  | cons f rest =>
    have hfits := h.shape.1
    unfold go Thread.inTop at hgo
    dsimp only at hgo hm
    cases hpc : f.pc with
    | compare leg =>
      rw [hpc] at hgo
      obtain ⟨rfl, rfl⟩ := Prod.mk.inj (Option.some.inj hgo)
      refine masked_next hm (by rw [hpc]; rfl) (by split <;> rfl) fun _ ht => ?_
      rw [hpc]
      cases leg with
      | ends => split at ht <;> cases ht
      | fifo => rfl
    | recurse leg =>
      rw [hpc] at hgo
      obtain ⟨rfl, rfl⟩ := Prod.mk.inj (Option.some.inj hgo)
      obtain ⟨hmasked, hends⟩ := entered_masked f leg
      refine masked_next hm (by rw [hpc]; rfl) hmasked fun hk ht => ?_
      rw [hpc]
      cases leg with
      | ends =>
        rw [hends hk rfl] at ht
        cases ht
      | fifo => rfl
    | lock leg =>
      rw [hpc] at hgo
      dsimp only at hgo
      split at hgo
      · obtain ⟨rfl, rfl⟩ := Prod.mk.inj (Option.some.inj hgo)
        refine masked_next hm (by rw [hpc]; rfl) rfl fun _ ht => ?_
        rw [hpc]
        cases leg with
        | ends => cases ht
        | fifo => rfl
      · cases hgo
    | count leg =>
      rw [hpc] at hgo
      obtain ⟨rfl, rfl⟩ := Prod.mk.inj (Option.some.inj hgo)
      refine masked_next hm (by rw [hpc]; rfl) rfl fun _ ht => ?_
      rw [hpc]
      cases leg with
      | ends => cases ht
      | fifo => rfl
    | hold leg =>
      rw [hpc] at hgo
      obtain ⟨rfl, rfl⟩ := Prod.mk.inj (Option.some.inj hgo)
      obtain ⟨hmasked, hends⟩ := entered_masked f leg
      refine masked_next hm (by rw [hpc]; rfl) hmasked fun hk ht => ?_
      rw [hpc]
      cases leg with
      | ends =>
        rw [hends hk rfl] at ht
        cases ht
      | fifo => rfl
    | test =>
      have hkind := hfits.test (by rw [hpc]; rfl)
      have hinit : ¬ f.kind = .init := by
        rintro he
        rw [he] at hkind
        rcases hkind with hk | hk <;> cases hk
      rw [masked_cons (by rw [hpc]; rfl), if_neg hinit] at hm
      rw [hpc] at hgo
      dsimp only at hgo
      split at hgo
      · obtain ⟨rfl, rfl⟩ := Prod.mk.inj (Option.some.inj hgo)
        refine (masked_cons rfl).mpr ⟨fun _ ht => (by cases ht), hm.2.1, ?_⟩
        rw [if_neg hinit]
        exact hm.2.2
      · obtain ⟨rfl, rfl⟩ := Prod.mk.inj (Option.some.inj hgo)
        -- what is written is the mask of the wrapper below, if there is one
        have hbelow : inside rest = true → Blocks f.saved := fun hi =>
          blocks_below hfits (by rw [hpc]; rfl) hm.2.2 hi h.shape.2
        refine (masked_cons rfl).mpr ⟨fun _ _ hi => hbelow hi, hm.2.1, ?_⟩
        rw [if_neg hinit]
        exact masked_saved hm.2.2 fun hi _ => hbelow hi
    | drop leg =>
      rw [hpc] at hgo
      obtain ⟨rfl, rfl⟩ := Prod.mk.inj (Option.some.inj hgo)
      refine masked_next hm (by rw [hpc]; rfl) (by cases leg <;> split <;> rfl) fun _ ht => ?_
      rw [hpc]
      cases leg with
      | ends => split at ht <;> cases ht
      | fifo => rfl
    | clear leg =>
      rw [hpc] at hgo
      obtain ⟨rfl, rfl⟩ := Prod.mk.inj (Option.some.inj hgo)
      refine masked_next hm (by rw [hpc]; rfl) rfl fun _ ht => ?_
      rw [hpc]
      cases leg with
      | ends => cases ht
      | fifo => rfl
    | unlock leg =>
      rw [hpc] at hgo
      obtain ⟨rfl, rfl⟩ := Prod.mk.inj (Option.some.inj hgo)
      refine masked_next hm (by rw [hpc]; rfl) (by cases leg <;> rfl) fun _ ht => ?_
      rw [hpc]
      cases leg with
      | ends => cases ht
      | fifo => rfl
    | unmask =>
      have hkind := (hfits.around (by rw [hpc]; rfl)).1
      have hinit : ¬ f.kind = .init := by
        rw [hkind]
        simp
      rw [masked_cons (by rw [hpc]; rfl), if_neg hinit, hpc] at hm
      rw [hpc] at hgo
      obtain ⟨rfl, rfl⟩ := Prod.mk.inj (Option.some.inj hgo)
      exact (masked_blocked rfl).mpr ⟨fun hk hi => hm.1 hk rfl hi, hm.2.1, hm.1 hkind rfl, hm.2.2⟩
    | restore =>
      rw [masked_cons (by rw [hpc]; rfl)] at hm
      rw [hpc] at hgo
      obtain ⟨rfl, rfl⟩ := Prod.mk.inj (Option.some.inj hgo)
      exact hm.2.2
    | body real =>
      rw [hpc] at hgo
      cases hgo
    | blocked mask =>
      rw [hpc] at hgo
      cases hgo
    | handling =>
      rw [hpc] at hgo
      cases hgo

/-- A signal is delivered to the program, a handler, or at a FIFO, and without the lock. -/
theorem signal_outside (h : Shape stack) (hm : Masked saved m stack) {s : Signal}
    (hs : s.blockable = true) (hfree : m s = false) :
    interruptible stack = true ∧ inside stack = false := by
  have hopen : ¬ Blocks m := fun hb => by
    rw [hb s hs] at hfree
    cases hfree
  cases stack with
  | nil => exact ⟨rfl, rfl⟩
  | cons f rest =>
    have hout : f.pc.depth ≠ 1 → inside rest = false → inside (f :: rest) = false := by
      intro hd hin
      refine Bool.eq_false_iff.mpr fun hi => ?_
      rcases inside_cons.mp hi with hone | hrest
      · exact hd hone
      · rw [hin] at hrest
        cases hrest
    cases hpc : f.pc with
    | handling =>
      refine ⟨by simp [interruptible, hpc, Pc.isHandling], hout (by rw [hpc]; simp [Pc.depth]) ?_⟩
      exact h.1.handler (by rw [hpc]; rfl)
    | blocked before =>
      refine ⟨by simp [interruptible, hpc, Pc.isBlocked], hout (by rw [hpc]; simp [Pc.depth]) ?_⟩
      rw [masked_blocked hpc] at hm
      exact Bool.eq_false_iff.mpr fun hi => hopen (hm.2.2.1 hi)
    | _ =>
      rw [masked_cons (by rw [hpc]; rfl)] at hm
      exact absurd hm.2.1 hopen

/-- Every step of a thread keeps its signals blocked, but for those that are restored for `exec`. -/
theorem threadStep_masked (h : LockOk v t th) (hm : Masked v.savedSigmask th.mask th.stack)
    {a : Act} (ha : a ≠ .unblock) (hstep : threadStep v t th a = some (v', th')) :
    Masked v'.savedSigmask th'.mask th'.stack := by
  obtain ⟨m, stack⟩ := th
  cases a with
  | go => exact go_masked h hm hstep
  | call kind =>
    dsimp only [threadStep] at hstep
    split at hstep
    · next hc =>
      simp only [Bool.and_eq_true, decide_eq_true_eq] at hc
      obtain ⟨rfl, rfl⟩ := Prod.mk.inj (Option.some.inj hstep)
      refine (masked_cons rfl).mpr ⟨fun _ ht => (by cases ht), blocks_sigblock m, ?_⟩
      rw [if_neg hc.1.2]
      exact hm
    · cases hstep
  | signal s mask =>
    dsimp only [threadStep] at hstep
    split at hstep
    · obtain ⟨rfl, rfl⟩ := Prod.mk.inj (Option.some.inj hstep)
      exact (masked_handling rfl).mpr hm
    · cases hstep
  | spawn u =>
    dsimp only [threadStep] at hstep
    split at hstep
    · obtain ⟨rfl, rfl⟩ := Prod.mk.inj (Option.some.inj hstep)
      exact hm
    · cases hstep
  | reinit =>
    obtain ⟨f, rest, rfl, hb, hstep⟩ := inBody_some hstep
    obtain ⟨rfl, rfl⟩ := Prod.mk.inj (Option.some.inj hstep)
    obtain ⟨real, hpc⟩ := exists_body hb
    have hblocks := ((masked_cons (by rw [hpc]; rfl)).mp hm).2.1
    refine (masked_cons rfl).mpr ⟨fun _ ht => (by cases ht), hblocks, ?_⟩
    rw [if_pos rfl]
    exact hm
  | antimagic =>
    obtain ⟨f, rest, rfl, hb, hstep⟩ := inBody_some hstep
    obtain ⟨real, hpc⟩ := exists_body hb
    split at hstep
    · cases hstep
    · obtain ⟨rfl, rfl⟩ := Prod.mk.inj (Option.some.inj hstep)
      have hmasked : Pc.masked f.pc = true := by rw [hpc]; rfl
      exact (masked_cons hmasked).mpr ((masked_cons hmasked).mp hm)
  | magic =>
    obtain ⟨f, rest, rfl, hb, hstep⟩ := inBody_some hstep
    obtain ⟨real, hpc⟩ := exists_body hb
    split at hstep
    · cases hstep
    · obtain ⟨rfl, rfl⟩ := Prod.mk.inj (Option.some.inj hstep)
      have hmasked : Pc.masked f.pc = true := by rw [hpc]; rfl
      exact (masked_cons hmasked).mpr ((masked_cons hmasked).mp hm)
  | fifo =>
    obtain ⟨f, rest, rfl, hb, hstep⟩ := inBody_some hstep
    split at hstep
    · next hc =>
      simp only [Bool.and_eq_true, Bool.not_eq_true', decide_eq_true_eq] at hc
      obtain ⟨rfl, rfl⟩ := Prod.mk.inj (Option.some.inj hstep)
      obtain ⟨real, hpc⟩ := exists_body hb
      refine masked_next hm (by rw [hpc]; rfl) rfl fun _ _ => ?_
      unfold Pc.tested
      rw [hc.1.1, hb]
      rfl
    · cases hstep
  | opened =>
    cases stack with
    | nil => cases hstep
    | cons f rest =>
      dsimp only [threadStep, Thread.inTop] at hstep
      split at hstep
      · next mask hpc =>
        obtain ⟨rfl, rfl⟩ := Prod.mk.inj (Option.some.inj hstep)
        have hkind := (h.shape.1.around (by rw [hpc]; rfl)).1
        have hinit : ¬ f.kind = .init := by
          rw [hkind]
          simp
        obtain ⟨hsaved, hbefore, _, hrest⟩ := (masked_blocked hpc).mp hm
        refine (masked_cons rfl).mpr ⟨fun hk _ hi => hsaved hk hi, hbefore, ?_⟩
        rw [if_neg hinit]
        exact hrest
      · cases hstep
  | unblock => exact absurd rfl ha
  | leave =>
    obtain ⟨f, rest, rfl, hb, hstep⟩ := inBody_some hstep
    obtain ⟨real, hpc⟩ := exists_body hb
    split at hstep
    · obtain ⟨rfl, rfl⟩ := Prod.mk.inj (Option.some.inj hstep)
      exact masked_next hm (by rw [hpc]; rfl) rfl fun _ ht => (by cases ht)
    · cases hstep
  | sigreturn =>
    cases stack with
    | nil => cases hstep
    | cons f rest =>
      dsimp only [threadStep, Thread.inTop] at hstep
      split at hstep
      · next hh =>
        obtain ⟨rfl, rfl⟩ := Prod.mk.inj (Option.some.inj hstep)
        refine (masked_handling ?_).mp hm
        cases hpc : f.pc <;> rw [hpc] at hh <;> first | rfl | cases hh
      · cases hstep

/-- A thread that is inside of the lock has it, but for one whose lock is lost. -/
theorem inside_locks (hi : inside stack = true) : 0 < locks stack ∨ ∃ f ∈ stack, f.lost = true := by
  induction stack with
  | nil => cases hi
  | cons f rest ih =>
    rw [locks_cons]
    rcases inside_cons.mp hi with hd | hin
    · cases hlost : f.lost with
      | true => exact Or.inr ⟨f, List.mem_cons_self, hlost⟩
      | false =>
        left
        rw [depth_eq hlost, hd]
        exact Nat.lt_of_lt_of_le Nat.zero_lt_one (Nat.le_add_right _ _)
    · rcases ih hin with hl | ⟨g, hg, hlost⟩
      · exact Or.inl (Nat.lt_of_lt_of_le hl (Nat.le_add_left _ _))
      · exact Or.inr ⟨g, List.mem_cons_of_mem _ hg, hlost⟩

/-- The steps of the others leave the signals of a thread as they are. -/
theorem masked_others (hu : u ≠ t) (h : LockOk v u th)
    (hm : Masked v.savedSigmask th.mask th.stack) (hmoves : Moves t v v') :
    Masked v'.savedSigmask th.mask th.stack := by
  refine masked_saved hm fun hi hb => ?_
  rcases inside_locks hi with hl | hlost
  · have howns : v.mutex = some u := h.accounts.mutex.mpr (by simp [owns, hl])
    rw [(hmoves.counters u hu howns).2.2]
    exact hb
  · have hdead := (h.alone hlost t (Ne.symm hu)).1
    rw [hmoves.alive.1] at hdead
    cases hdead

end LockSignalsLemmas

end Pseudo

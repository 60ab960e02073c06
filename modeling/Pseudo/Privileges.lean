import Mathlib.Data.List.Perm.Subperm
import Pseudo.Credentials

/-!
# Privileges along calls

A process whose emulated effective uid is not 0 is confined: every id that a `set*id` call lets
it take up is its real, effective or saved one. The saved uid is where root comes back from.

Results:
1. `privileges_confined`: how long the ids stay among those held at the start, and for which ids
   they always do.
2. `drop_permanent_iff`: when root's change to another uid is final.
-/

namespace Pseudo

/-- The ids that the permission tests compare with. -/
def IdSet.tested (s : IdSet) : List Id := [s.e, s.r, s.s]

/-- All four ids. -/
def IdSet.held (s : IdSet) : List Id := [s.r, s.e, s.s, s.f]

/-- Every id of `t` is one that `s` holds. -/
def IdSet.Within (t s : IdSet) : Prop := t.held ⊆ s.held

instance IdSet.decidableWithin (t s : IdSet) : Decidable (t.Within s) :=
  List.decidableBAll (fun v => v ∈ s.held) t.held

/-- What a process without privileges may make of its ids. -/
structure IdSet.Confined (t s : IdSet) : Prop where
  real : t.r ∈ s.tested
  effective : t.e ∈ s.tested
  saved : t.s ∈ s.tested
  filesystem : t.f = s.f ∨ t.f ∈ s.tested

/-- The process is not root when it makes the call. -/
def Unprivileged (c : IdClient) (_ : IdCall) : Prop := c.ids.uid.e ≠ 0

instance (c : IdClient) (call : IdCall) : Decidable (Unprivileged c call) :=
  inferInstanceAs (Decidable (_ ≠ _))

/-- The calls by which root becomes the user `u`. -/
def dropCalls (u : Id) : List IdCall := [.setuid u, .setreuid u u, .setresuid u u u]

/-- If the call succeeds, root's rights do not come back, whatever is called afterwards. -/
def DropsRoot (c : IdClient) (call : IdCall) : Prop :=
  (c.call call).2 = .ok → ∀ calls,
    (Run.run IdClient.after (c.after call) calls).ids.uid.e ≠ 0 ∧
      (Run.run IdClient.after (c.after call) calls).ids.uid.f ≠ 0

namespace PrivilegesLemmas

/-! ## Confinement -/

section Confined
variable {s t u : IdSet} {root : Bool} {v rid eid sid : Id}

theorem permits_iff : s.permits false v = true ↔ v ∈ s.tested := by
  simp [IdSet.permits, IdSet.tested, or_assoc]

theorem confined_refl (s : IdSet) : s.Confined s :=
  ⟨by simp [IdSet.tested], by simp [IdSet.tested], by simp [IdSet.tested], Or.inl rfl⟩

theorem tested_of_confined (h : t.Confined s) : t.tested ⊆ s.tested := by
  intro v hv
  simp only [IdSet.tested, List.mem_cons, List.not_mem_nil, or_false] at hv
  rcases hv with rfl | rfl | rfl
  · exact h.effective
  · exact h.real
  · exact h.saved

theorem confined_trans (hut : u.Confined t) (hts : t.Confined s) : u.Confined s := by
  have hsub := tested_of_confined hts
  refine ⟨hsub hut.real, hsub hut.effective, hsub hut.saved, ?_⟩
  rcases hut.filesystem with hf | hf
  · rw [hf]
    exact hts.filesystem
  · exact Or.inr (hsub hf)

theorem tested_subset_held (s : IdSet) : s.tested ⊆ s.held := by
  intro v hv
  simp only [IdSet.tested, IdSet.held, List.mem_cons, List.not_mem_nil, or_false] at hv ⊢
  rcases hv with rfl | rfl | rfl <;> simp

theorem within_of_confined (h : t.Confined s) : t.Within s := by
  have hsub := tested_subset_held s
  intro v hv
  simp only [IdSet.held, List.mem_cons, List.not_mem_nil, or_false] at hv
  rcases hv with rfl | rfl | rfl | rfl
  · exact hsub h.real
  · exact hsub h.effective
  · exact hsub h.saved
  · rcases h.filesystem with hf | hf
    · rw [hf]
      simp [IdSet.held]
    · exact hsub hf

/-! Each of the four shapes, for a process without privileges. -/

theorem setEffective_confined (hroot : root = false) (h : t ∈ s.setEffective root v) :
    t.Confined s := by
  subst hroot
  unfold IdSet.setEffective at h
  split at h
  · rename_i hv
    obtain rfl := Option.some.inj h
    have hself := confined_refl s
    have htested := permits_iff.mp hv
    exact ⟨hself.real, htested, hself.saved, Or.inr htested⟩
  · cases h

/-- Without privileges, `setuid` is `seteuid`. -/
theorem setId_confined (hroot : root = false) (h : t ∈ s.setId root v) : t.Confined s := by
  subst hroot
  unfold IdSet.setId at h
  rw [if_neg Bool.false_ne_true] at h
  exact setEffective_confined rfl h

theorem setFs_confined (hroot : root = false) (h : t ∈ s.setFs root v) : t.Confined s := by
  subst hroot
  unfold IdSet.setFs at h
  split at h
  · rename_i hv
    obtain rfl := Option.some.inj h
    have hself := confined_refl s
    exact ⟨hself.real, hself.effective, hself.saved, Or.inr (permits_iff.mp hv)⟩
  · cases h

theorem setRes_confined (hroot : root = false) (h : t ∈ s.setRes root rid eid sid) :
    t.Confined s := by
  subst hroot
  unfold IdSet.setRes at h
  split at h
  · rename_i hall
    obtain rfl := Option.some.inj h
    have hpick : ∀ {v w : Id}, (v == unset || s.permits false v) = true → w ∈ s.tested →
        (if v ≠ unset then v else w) ∈ s.tested := by
      intro v w hv hw
      split
      · rename_i hne
        refine permits_iff.mp ?_
        simpa [hne] using hv
      · exact hw
    simp only [List.all_cons, List.all_nil, Bool.and_true, Bool.and_eq_true] at hall
    obtain ⟨hr, he, hs⟩ := hall
    have hself := confined_refl s
    exact ⟨hpick hr hself.real, hpick he hself.effective, hpick hs hself.saved,
      Or.inr (hpick he hself.effective)⟩
  · cases h

end Confined

/-! ## One call -/

section Call
variable {c : IdClient} {call : IdCall} {s : Option IdSet}

/-- The ids after a call, which publishing leaves alone. -/
theorem finishUid_ids {touch : IdClient → IdClient} (htouch : ∀ c, (touch c).ids = c.ids) :
    (c.finishUid touch s).1.ids = { c.ids with uid := s.getD c.ids.uid } := by
  cases s with
  | none => rfl
  | some s => exact htouch _

theorem finishGid_ids {touch : IdClient → IdClient} (htouch : ∀ c, (touch c).ids = c.ids) :
    (c.finishGid touch s).1.ids = { c.ids with gid := s.getD c.ids.gid } := by
  cases s with
  | none => rfl
  | some s => exact htouch _

/-- The four uids that a call asks for; the calls for gids ask for none. -/
def askedUid (c : IdClient) : IdCall → Option IdSet
  | .setuid uid => c.ids.uid.setId c.root uid
  | .seteuid euid => c.ids.uid.setEffective c.root euid
  | .setreuid ruid euid => c.ids.uid.setRes c.root ruid euid unset
  | .setresuid ruid euid suid => c.ids.uid.setRes c.root ruid euid suid
  | .setfsuid fsuid => c.ids.uid.setFs c.root fsuid
  | _ => none

def askedGid (c : IdClient) : IdCall → Option IdSet
  | .setgid gid => c.ids.gid.setId c.root gid
  | .setegid egid => c.ids.gid.setEffective c.root egid
  | .setregid rgid egid => c.ids.gid.setRes c.root rgid egid unset
  | .setresgid rgid egid sgid => c.ids.gid.setRes c.root rgid egid sgid
  | .setfsgid fsgid => c.ids.gid.setFs c.root fsgid
  | _ => none

/-- What a call does to the ids. -/
theorem after_ids (c : IdClient) (call : IdCall) : (c.after call).ids =
    ⟨(askedUid c call).getD c.ids.uid, (askedGid c call).getD c.ids.gid⟩ := by
  cases call with
  | setuid _ | seteuid _ | setreuid _ _ | setresuid _ _ _ | setfsuid _ =>
    exact finishUid_ids fun _ => rfl
  | setgid _ | setegid _ | setregid _ _ | setresgid _ _ _ | setfsgid _ =>
    exact finishGid_ids fun _ => rfl

/-- A call that fails changes nothing. -/
theorem call_eperm (h : (c.call call).2 = .eperm) : (c.call call).1 = c := by
  have huid : ∀ (touch : IdClient → IdClient) (s : Option IdSet),
      (c.finishUid touch s).2 = .eperm → (c.finishUid touch s).1 = c := by
    intro touch s h
    cases s with
    | none => rfl
    | some s => cases h
  have hgid : ∀ (touch : IdClient → IdClient) (s : Option IdSet),
      (c.finishGid touch s).2 = .eperm → (c.finishGid touch s).1 = c := by
    intro touch s h
    cases s with
    | none => rfl
    | some s => cases h
  cases call with
  | setuid _ | seteuid _ | setreuid _ _ | setresuid _ _ _ | setfsuid _ => exact huid _ _ h
  | setgid _ | setegid _ | setregid _ _ | setresgid _ _ _ | setfsgid _ => exact hgid _ _ h

/-- The step lemma. -/
theorem after_confined (hroot : Unprivileged c call) :
    (c.after call).ids.uid.Confined c.ids.uid ∧ (c.after call).ids.gid.Confined c.ids.gid := by
  have hno : c.root = false := beq_eq_false_iff_ne.mpr hroot
  have hasked : ∀ {s : IdSet} {asked : Option IdSet}, (∀ t ∈ asked, t.Confined s) →
      (asked.getD s).Confined s := by
    intro s asked h
    cases asked with
    | none => exact confined_refl s
    | some t => exact h t rfl
  rw [after_ids]
  constructor
  · refine hasked fun t ht => ?_
    cases call with
    | setuid _ => exact setId_confined hno ht
    | seteuid _ => exact setEffective_confined hno ht
    | setreuid _ _ | setresuid _ _ _ => exact setRes_confined hno ht
    | setfsuid _ => exact setFs_confined hno ht
    | _ => cases ht
  · refine hasked fun t ht => ?_
    cases call with
    | setgid _ => exact setId_confined hno ht
    | setegid _ => exact setEffective_confined hno ht
    | setregid _ _ | setresgid _ _ _ => exact setRes_confined hno ht
    | setfsgid _ => exact setFs_confined hno ht
    | _ => cases ht

end Call

/-! ## Sequences of calls -/

section Calls
variable {c : IdClient} {calls : List IdCall}

/-- The run lemma. -/
theorem run_confined (h : Run.Guarded IdClient.after Unprivileged c calls) :
    (Run.run IdClient.after c calls).ids.uid.Confined c.ids.uid ∧
      (Run.run IdClient.after c calls).ids.gid.Confined c.ids.gid := by
  refine h.invariant (P := fun d => d.ids.uid.Confined c.ids.uid ∧ d.ids.gid.Confined c.ids.gid)
    (fun d call hd hok => ?_) ⟨confined_refl _, confined_refl _⟩
  obtain ⟨huid, hgid⟩ := after_confined hok
  exact ⟨confined_trans huid hd.1, confined_trans hgid hd.2⟩

/-- Without a 0 among the ids that are tested, the process never becomes root. -/
theorem never_root (h : 0 ∉ c.ids.uid.tested) (calls : List IdCall) :
    Run.Guarded IdClient.after Unprivileged c calls := by
  induction calls generalizing c with
  | nil => trivial
  | cons call calls ih =>
    have hroot : Unprivileged c call := fun he => h (by simp [IdSet.tested, he])
    exact ⟨hroot, ih fun hzero => h (tested_of_confined (after_confined hroot).1 hzero)⟩

/-- A value that none of the four ids has. -/
theorem exists_not_held (s : IdSet) : ∃ v, v ∉ s.held := by
  by_contra hall
  push Not at hall
  have hnodup : ([0, 1, 2, 3, 4] : List Id).Nodup := by decide
  have hlen := (hnodup.subperm fun v _ => hall v).length_le
  exact absurd hlen (by simp [IdSet.held])

/-- Whoever has 0 for a real or saved uid takes it back, and then takes any other. -/
theorem escapes (h : 0 ∈ c.ids.uid.tested) :
    ∃ calls, ¬ (Run.run IdClient.after c calls).ids.uid.Within c.ids.uid := by
  obtain ⟨v, hv⟩ := exists_not_held c.ids.uid
  refine ⟨[.seteuid 0, .setuid v], fun hwithin => hv (hwithin ?_)⟩
  have hpermits : c.ids.uid.permits c.root 0 = true := by
    have hfalse := permits_iff.mpr h
    unfold IdSet.permits at hfalse ⊢
    cases c.root
    · exact hfalse
    · rfl
  have hroot : (c.after (.seteuid 0)).ids.uid = { c.ids.uid with e := 0, f := 0 } := by
    rw [after_ids, askedUid, IdSet.setEffective, if_pos hpermits]
    rfl
  rw [Run.run_cons, Run.run_cons, Run.run_nil, after_ids, askedUid, IdClient.root, hroot]
  simp [IdSet.setId, IdSet.held]

/-- Root's rights do not come back when no id is 0. -/
theorem never_regains (h : 0 ∉ c.ids.uid.tested) (hf : c.ids.uid.f ≠ 0) (calls : List IdCall) :
    (Run.run IdClient.after c calls).ids.uid.e ≠ 0 ∧
      (Run.run IdClient.after c calls).ids.uid.f ≠ 0 := by
  have hconfined := (run_confined (never_root h calls)).1
  refine ⟨fun he => h (he ▸ hconfined.effective), fun hzero => ?_⟩
  rcases hconfined.filesystem with hsame | hmem
  · exact hf (hsame.symm.trans hzero)
  · exact h (hzero ▸ hmem)

end Calls

/-! ## Calls of root -/

section Root
variable {c : IdClient} {u : Id} (hroot : c.ids.uid.e = 0)
include hroot

theorem root_of_effective : c.root = true := beq_iff_eq.mpr hroot

theorem root_setuid : (c.call (.setuid u)).2 = .ok ∧
    (c.after (.setuid u)).ids.uid = ⟨u, u, u, u⟩ := by
  have hasked : c.ids.uid.setId c.root u = some ⟨u, u, u, u⟩ := if_pos (root_of_effective hroot)
  rw [after_ids, askedUid, hasked, IdClient.call, wrapSetuid, hasked]
  exact ⟨rfl, rfl⟩

/-- Root may set any of the three. -/
theorem root_setRes {rid eid sid : Id} : c.ids.uid.setRes c.root rid eid sid =
    some { r := if rid ≠ unset then rid else c.ids.uid.r
           e := if eid ≠ unset then eid else c.ids.uid.e
           s := if sid ≠ unset then sid else c.ids.uid.s
           f := if eid ≠ unset then eid else c.ids.uid.e } := by
  unfold IdSet.setRes
  rw [root_of_effective hroot]
  exact if_pos (by simp [IdSet.permits])

theorem root_setreuid (hset : u ≠ unset) : (c.call (.setreuid u u)).2 = .ok ∧
    (c.after (.setreuid u u)).ids.uid = ⟨u, u, c.ids.uid.s, u⟩ := by
  have hasked : c.ids.uid.setRes c.root u u unset = some ⟨u, u, c.ids.uid.s, u⟩ := by
    rw [root_setRes hroot]
    simp [hset]
  rw [after_ids, askedUid, hasked, IdClient.call, wrapSetreuid, hasked]
  exact ⟨rfl, rfl⟩

theorem root_setresuid (hset : u ≠ unset) : (c.call (.setresuid u u u)).2 = .ok ∧
    (c.after (.setresuid u u u)).ids.uid = ⟨u, u, u, u⟩ := by
  have hasked : c.ids.uid.setRes c.root u u u = some ⟨u, u, u, u⟩ := by
    rw [root_setRes hroot]
    simp [hset]
  rw [after_ids, askedUid, hasked, IdClient.call, wrapSetresuid, hasked]
  exact ⟨rfl, rfl⟩

end Root

theorem dropsRoot_of_ids {c : IdClient} {call : IdCall} {u s : Id} (hu : u ≠ 0) (hs : s ≠ 0)
    (hids : (c.after call).ids.uid = ⟨u, u, s, u⟩) : DropsRoot c call := by
  intro _
  refine never_regains ?_ ?_
  · rw [hids]
    simp only [IdSet.tested, List.mem_cons, List.not_mem_nil, or_false, not_or]
    exact ⟨hu.symm, hu.symm, hs.symm⟩
  · rw [hids]
    exact hu

end PrivilegesLemmas

open PrivilegesLemmas

/-- The ids of a process stay among those it holds as long as its effective uid is not 0 at any
of the calls, and a call that fails changes nothing. Over all sequences of calls the uids do so
exactly when neither the real nor the saved one is 0. -/
theorem privileges_confined (c : IdClient) :
    (∀ call, (c.call call).2 = .eperm → (c.call call).1 = c) ∧
    (∀ calls, Run.Guarded IdClient.after Unprivileged c calls → ∀ pre, pre <+: calls →
      (Run.run IdClient.after c pre).ids.uid.Within c.ids.uid ∧
        (Run.run IdClient.after c pre).ids.gid.Within c.ids.gid) ∧
    (c.ids.uid.e ≠ 0 →
      ((∀ calls, (Run.run IdClient.after c calls).ids.uid.Within c.ids.uid) ↔
        c.ids.uid.r ≠ 0 ∧ c.ids.uid.s ≠ 0)) := by
  refine ⟨fun call => call_eperm, fun calls hcalls pre hpre => ?_, fun he => ?_⟩
  · obtain ⟨rest, rfl⟩ := hpre
    obtain ⟨huid, hgid⟩ := run_confined hcalls.of_append
    exact ⟨within_of_confined huid, within_of_confined hgid⟩
  · have htested : 0 ∉ c.ids.uid.tested ↔ c.ids.uid.r ≠ 0 ∧ c.ids.uid.s ≠ 0 := by
      constructor
      · intro h
        exact ⟨fun hr => h (by simp [IdSet.tested, hr]), fun hs => h (by simp [IdSet.tested, hs])⟩
      · rintro ⟨hr, hs⟩ hzero
        simp only [IdSet.tested, List.mem_cons, List.not_mem_nil, or_false] at hzero
        rcases hzero with h | h | h
        · exact he h.symm
        · exact hr h.symm
        · exact hs h.symm
    rw [← htested]
    constructor
    · intro hall hzero
      obtain ⟨calls, hout⟩ := escapes hzero
      exact hout (hall calls)
    · intro hno calls
      exact within_of_confined (run_confined (never_root hno calls)).1

/-- The user 5 of a program that root owns and that is set-uid. -/
def exSetuid : IdClient := ⟨⟨⟨5, 5, 0, 5⟩, ⟨5, 5, 5, 5⟩⟩, ⟨none, none⟩⟩

/-- He takes root back and becomes the user 7. -/
theorem saved_root_escapes : exSetuid.ids.uid.e ≠ 0 ∧
    ¬ (Run.run IdClient.after exSetuid [.seteuid 0, .setuid 7]).ids.uid.Within
      exSetuid.ids.uid := by
  decide

/-- Until then he is confined. -/
theorem privileges_confined_user :
    (Run.run IdClient.after exSetuid [.setresuid 5 unset 5, .setuid 0]).ids.uid.Within
        exSetuid.ids.uid ∧
      (Run.run IdClient.after exSetuid [.setresuid 5 unset 5, .setuid 0]).ids.gid.Within
        exSetuid.ids.gid :=
  (privileges_confined exSetuid).2.1 [.setresuid 5 unset 5, .setuid 0]
    ⟨by decide, by decide, trivial⟩ _ List.prefix_rfl

/-! ## Dropping root -/

/-- When root changes to another user, the change is final exactly if it does not leave a saved
uid of 0 behind, which `setreuid` keeps. -/
theorem drop_permanent_iff (c : IdClient) (hroot : c.ids.uid.e = 0) (u : Id) (hu : u ≠ 0)
    (hset : u ≠ unset) (call : IdCall) (hcall : call ∈ dropCalls u) :
    DropsRoot c call ↔ (call = .setreuid u u → c.ids.uid.s ≠ 0) := by
  simp only [dropCalls, List.mem_cons, List.not_mem_nil, or_false] at hcall
  rcases hcall with rfl | rfl | rfl
  · exact iff_of_true (dropsRoot_of_ids hu hu (root_setuid hroot).2) fun h => by cases h
  · obtain ⟨hok, hids⟩ := root_setreuid hroot hset
    constructor
    · -- the saved uid is still there to become the effective one
      intro hdrops _ hsaved
      refine (hdrops hok [.seteuid 0]).1 ?_
      rw [Run.run_cons, Run.run_nil, after_ids, askedUid, hids, hsaved]
      simp [IdSet.setEffective, IdSet.permits]
    · intro hsaved
      exact dropsRoot_of_ids hu (hsaved rfl) hids
  · exact iff_of_true (dropsRoot_of_ids hu hu (root_setresuid hroot hset).2) fun h => by cases h

/-- `setresuid(5, 5, 5)` is final, and so is `setreuid(5, 5)` when the saved uid is another. -/
theorem drop_permanent_setresuid :
    DropsRoot exRoot (.setresuid 5 5 5) ∧
      DropsRoot ⟨⟨⟨0, 0, 7, 0⟩, ⟨0, 0, 0, 0⟩⟩, exRoot.env⟩ (.setreuid 5 5) :=
  ⟨(drop_permanent_iff exRoot rfl 5 (by decide) (by decide) (.setresuid 5 5 5)
      (by decide)).mpr fun h => (by cases h),
    (drop_permanent_iff ⟨⟨⟨0, 0, 7, 0⟩, ⟨0, 0, 0, 0⟩⟩, exRoot.env⟩ rfl 5 (by decide) (by decide)
      (.setreuid 5 5) (by decide)).mpr fun _ => (by decide)⟩

/-- After `setreuid(5, 5)` by root, `seteuid(0)` succeeds. -/
theorem setreuid_regains_root :
    (exRoot.call (.setreuid 5 5)).2 = .ok ∧
      ((exRoot.after (.setreuid 5 5)).call (.seteuid 0)).2 = .ok ∧
      ¬ DropsRoot exRoot (.setreuid 5 5) :=
  ⟨rfl, rfl, fun h => (h rfl [.seteuid 0]).1 rfl⟩

end Pseudo

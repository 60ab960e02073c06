import Pseudo.ClientTable

/-!
# The highest client

The comment on `highest_client` calls it the highest index of an active client. That no active
client lies above it is part of `Consistent`; here it is whether one lies at it or above. A growth
of the table sets it one too high, and the loop in `close_client` that is to lower it never takes a
step.

Results:
1. `step_exact_iff`: the steps after which it is still the index of an active client.
2. `highest_exact_iff`: the histories in which it always is.
3. `highest_overestimated`: the two ways to lose it.
-/

namespace Pseudo

open ClientTableLemmas

/-- Some client is active at `highest_client` or above it. -/
def ClientTable.Exact (t : ClientTable) : Prop := ∃ i c, t.highestClient ≤ i ∧ t.session i = some c

/-- What holds of the table whichever slots are closed. -/
structure ClientTable.Bounded (t : ClientTable) : Prop where
  length : t.clients.length = t.maxClients
  highest : ∀ (i : Nat) c, t.session i = some c → i ≤ t.highestClient
  bound : t.highestClient < t.maxClients

/-- Descriptors that are opened are valid. -/
def TableOp.Valid : TableOp → Prop
  | .openClient fd => 0 ≤ fd
  | .closeClient _ => True

/-- A client that comes finds an unused slot, and one that goes is not the highest one. -/
def ClientTable.KeepsHighest (t : ClientTable) : TableOp → Prop
  | .openClient _ => ∃ c ∈ t.clients, c.active = false
  | .closeClient i => i = 0 ∨ i ≠ t.highestClient

instance (t : ClientTable) (op : TableOp) : Decidable (t.KeepsHighest op) :=
  match op with
  | .openClient _ => inferInstanceAs (Decidable (∃ c ∈ t.clients, c.active = false))
  | .closeClient i => inferInstanceAs (Decidable (i = 0 ∨ i ≠ t.highestClient))

theorem ClientTable.Consistent.bounded {t : ClientTable} (h : t.Consistent) : t.Bounded :=
  ⟨h.length, h.highest, h.bound⟩

namespace HighestClientLemmas

variable {t : ClientTable} {fd : Int} {i : Nat}

/-- Closing a slot that is not closed leaves the table alone. -/
theorem closeClient_refused (h : t.highestClient < i ∨ i = 0) : closeClient t i = t := by
  unfold closeClient
  rw [if_pos h]

theorem closeClient_taken (h : t.Bounded) (hi : i ≠ 0) (hle : i ≤ t.highestClient) :
    (closeClient t i).highestClient = t.highestClient ∧
      (closeClient t i).session = Function.update t.session i none := by
  have hlt : i < t.clients.length := by
    rw [h.length]
    exact Nat.lt_of_le_of_lt hle h.bound
  rw [closeClient_eq hlt hle hi]
  refine ⟨rfl, ?_⟩
  rw [session_set hlt, active_unused]
  rfl

theorem bounded_openClient (h : t.Bounded) (hfd : 0 ≤ fd) : (openClient t fd).1.Bounded := by
  obtain ⟨hlength, hhighest, hbound⟩ := openClient_bounds h.length h.highest h.bound hfd
  exact ⟨hlength, hhighest, hbound⟩

theorem bounded_closeClient (h : t.Bounded) : (closeClient t i).Bounded := by
  by_cases hrefused : t.highestClient < i ∨ i = 0
  · rw [closeClient_refused hrefused]
    exact h
  · obtain ⟨hle, hi⟩ := not_or.mp hrefused
    have hle := Nat.le_of_not_lt hle
    obtain ⟨-, hsession⟩ := closeClient_taken h hi hle
    have hlt : i < t.clients.length := by
      rw [h.length]
      exact Nat.lt_of_le_of_lt hle h.bound
    rw [closeClient_eq hlt hle hi] at hsession ⊢
    refine ⟨List.length_set.trans h.length, fun j c hj => ?_, h.bound⟩
    rw [hsession] at hj
    rcases Decidable.em (j = i) with rfl | hne
    · rw [Function.update_self] at hj
      cases hj
    · rw [Function.update_of_ne hne] at hj
      exact h.highest j c hj

/-- A client in an unused slot may be the highest one, and then the counter is its slot. A growth
sets the counter to the slot behind that of the client. -/
theorem exact_openClient_iff (h : t.Bounded) (ht : t.Exact) (hfd : 0 ≤ fd) :
    (openClient t fd).1.Exact ↔ ∃ c ∈ t.clients, c.active = false := by
  have hsession := session_openClient h.length hfd
  have hslot := session_slot h.length fd
  obtain ⟨j, c₀, hj, hc₀⟩ := ht
  rcases openClient_cases h.length fd with ⟨i, c, hi, hc, heq⟩ | ⟨hfull, heq⟩
  · rw [heq] at hsession hslot ⊢
    refine iff_of_true ?_ ⟨c, List.mem_of_getElem? hi, hc⟩
    rcases Nat.lt_or_ge t.highestClient i with hlt | hge
    · refine ⟨i, .accepted fd, ?_, ?_⟩
      · show (if t.highestClient < i then i else t.highestClient) ≤ i
        rw [if_pos hlt]
      · rw [hsession, Function.update_self]
    · refine ⟨j, c₀, ?_, ?_⟩
      · show (if t.highestClient < i then i else t.highestClient) ≤ j
        rw [if_neg (Nat.not_lt.mpr hge)]
        exact hj
      · have hne : j ≠ i := by
          rintro rfl
          rw [hslot] at hc₀
          cases hc₀
        rw [hsession, Function.update_of_ne hne, hc₀]
  · rw [heq] at hsession ⊢
    refine iff_of_false ?_ ?_
    · rintro ⟨k, c, hk, hc⟩
      have hk : t.maxClients + 1 ≤ k := hk
      have hne : k ≠ t.maxClients := by omega
      rw [hsession, Function.update_of_ne hne] at hc
      have hle := h.highest k c hc
      have hbound := h.bound
      omega
    · rintro ⟨c, hmem, hc⟩
      rw [hfull c hmem] at hc
      cases hc

/-- Nothing is active above the highest client, so when it goes the counter stays behind. -/
theorem exact_closeClient_iff (h : t.Bounded) (ht : t.Exact) :
    (closeClient t i).Exact ↔ i = 0 ∨ i ≠ t.highestClient := by
  by_cases hrefused : t.highestClient < i ∨ i = 0
  · rw [closeClient_refused hrefused]
    refine iff_of_true ht ?_
    rcases hrefused with hlt | hi
    · exact Or.inr (Nat.ne_of_gt hlt)
    · exact Or.inl hi
  · obtain ⟨hle, hi⟩ := not_or.mp hrefused
    obtain ⟨hhighest, hsession⟩ := closeClient_taken h hi (Nat.le_of_not_lt hle)
    rw [or_iff_right hi]
    unfold ClientTable.Exact
    rw [hhighest, hsession]
    constructor
    · rintro ⟨j, c, hj, hc⟩ rfl
      rcases Decidable.em (j = t.highestClient) with rfl | hne
      · rw [Function.update_self] at hc
        cases hc
      · rw [Function.update_of_ne hne] at hc
        exact hne (Nat.le_antisymm (h.highest j c hc) hj)
    · intro hne
      obtain ⟨j, c, hj, hc⟩ := ht
      refine ⟨j, c, hj, ?_⟩
      rw [Function.update_of_ne (by omega), hc]

end HighestClientLemmas

open HighestClientLemmas

theorem bounded_step {t : ClientTable} (h : t.Bounded) {op : TableOp} (hop : op.Valid) :
    (t.step op).Bounded := by
  cases op with
  | openClient fd => exact bounded_openClient h hop
  | closeClient i => exact bounded_closeClient h

/-- The step lemma. -/
theorem step_exact_iff {t : ClientTable} (h : t.Bounded) (ht : t.Exact) {op : TableOp}
    (hop : op.Valid) : (t.step op).Exact ↔ t.KeepsHighest op := by
  cases op with
  | openClient fd => exact exact_openClient_iff h ht hop
  | closeClient i => exact exact_closeClient_iff h ht

theorem exact_start {listenFd : Int} (hlisten : 0 ≤ listenFd) (pid : BitVec 32)
    (tag program : Option Bytes) : (ClientTable.start listenFd pid tag program).Exact :=
  ⟨0, ⟨listenFd, pid, tag, program⟩, Nat.le_refl 0,
    session_some.mpr ⟨rfl, active_accepted hlisten⟩⟩

/-- `highest_client` is never above every active client exactly in the histories in which each
client finds an unused slot and the highest one does not go. -/
theorem highest_exact_iff {listenFd : Int} (pid : BitVec 32) (tag program : Option Bytes)
    {ops : List TableOp} (hlisten : 0 ≤ listenFd) (hops : ∀ op ∈ ops, op.Valid) :
    (∀ pre, pre <+: ops →
      (Run.run ClientTable.step (.start listenFd pid tag program) pre).Exact) ↔
    Run.Guarded ClientTable.step ClientTable.KeepsHighest (.start listenFd pid tag program) ops :=
  (Run.guarded_iff_of_valid (P := ClientTable.Exact) hops
    (fun _ _ hop h _ => bounded_step h hop)
    (fun _ _ hop h ht => step_exact_iff h ht hop)
    (consistent_start hlisten pid tag program).bounded
    (exact_start hlisten pid tag program)).symm

/-- Two clients come, and the first one goes. -/
theorem highest_exact_lower :
    (Run.run ClientTable.step (.start 3 7 none none)
      [.openClient 4, .openClient 5, .closeClient 1]).Exact :=
  (highest_exact_iff 7 none none (by decide) (by simp [TableOp.Valid])).mpr (by decide) _
    List.prefix_rfl

/-- A history that keeps the counter right, and then one step more. -/
theorem exact_snoc_iff (ops : List TableOp) (op : TableOp) (hops : ∀ op ∈ ops, op.Valid)
    (hop : op.Valid)
    (h : Run.Guarded ClientTable.step ClientTable.KeepsHighest (.start 3 7 none none) ops) :
    (Run.run ClientTable.step (.start 3 7 none none) (ops ++ [op])).Exact ↔
      (Run.run ClientTable.step (.start 3 7 none none) ops).KeepsHighest op := by
  have hstart : (ClientTable.start 3 7 none none).Consistent :=
    consistent_start (by decide) 7 none none
  obtain ⟨hbounded, hexact⟩ := (h.and_of_forall hops).invariant
    (P := fun t : ClientTable => t.Bounded ∧ t.Exact)
    (fun t op ht hok =>
      ⟨bounded_step ht.1 hok.1, (step_exact_iff ht.1 ht.2 hok.1).mpr hok.2⟩)
    ⟨hstart.bounded, exact_start (by decide) 7 none none⟩
  rw [Run.run_append, Run.run_cons, Run.run_nil]
  exact step_exact_iff hbounded hexact hop

/-- A client comes and goes: only slot 0 is in use, and the counter stays at 1. Sixteen clients
come: the last one gets slot 16, and the counter is 17. -/
theorem highest_overestimated :
    ¬ (Run.run ClientTable.step (.start 3 7 none none) [.openClient 4, .closeClient 1]).Exact ∧
    ¬ (Run.run ClientTable.step (.start 3 7 none none)
      (List.replicate 16 (.openClient 4))).Exact := by
  constructor
  · intro h
    have hkeeps := (exact_snoc_iff [.openClient 4] (.closeClient 1)
      (by simp [TableOp.Valid]) trivial (by decide)).mp h
    exact absurd hkeeps (by decide)
  · intro h
    have hkeeps := (exact_snoc_iff (List.replicate 15 (.openClient 4))
      (.openClient 4) (by simp [TableOp.Valid]) (by simp [TableOp.Valid]) (by decide)).mp h
    exact absurd hkeeps (by decide)

end Pseudo

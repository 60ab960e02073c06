import Pseudo.Library.Printed
import Pseudo.ServeClient

/-!
# The clients that remain

When `serve_client` refuses a shutdown it answers with the process ids of the other clients, and
`pseudo_client_shutdown` prints them as one string. They are printed into a buffer, in pieces of at
most eight bytes with the NUL, so an id of seven digits loses its space and ends the string.

Results:
1. `refusal_eq`: the loop over the table prints the ids of the other clients one behind the other.
2. `cstr_listClients`: the string is the one of the list that `Pseudo.ServeClient` sends.
3. `refusal_exact_iff`: the string names the clients exactly when no id has seven digits.
4. `refusal_loses_client`: a client that is not named.
-/

namespace Pseudo

open Block ClientTableLemmas

/-- `"%d "`. -/
def pidText (pid : BitVec 32) : Bytes := Decimal.printInt pid.toInt ++ [32]

/-- `snprintf` of a text to an offset of the buffer. -/
def snprintfAt (offset size : Nat) (text : Bytes) : Write Byte :=
  ⟨offset, text.take (size - 1) ++ [0]⟩

/-- The loop over the slots with `s` as an offset: what is written to `response_path`, and where
`s` ends. -/
def printPids (t : ClientTable) (i : Nat) : List Nat → Nat → List (Write Byte) × Nat
  | [], s => ([], s)
  | j :: js, s =>
    if (t.client j).active ∧ j ≠ i then
      let text := pidText (t.client j).pid
      let (ws, stop) := printPids t i js (s + text.length)
      (snprintfAt s 8 text :: ws, stop)
    else printPids t i js s

/-- `for (j = 1; j <= highest_client; ++j)`. -/
def refusal (t : ClientTable) (i : Nat) : List (Write Byte) × Nat :=
  printPids t i (List.range' 1 t.highestClient) 0

/-- The path of the answer; `heap` is what the buffer holds before it is written. -/
def nakPath (heap : Nat → Byte) (t : ClientTable) (i : Nat) : Bytes :=
  read (stores heap (refusal t i).1) 0 ((refusal t i).2 + 1)

/-- The process ids of the clients besides the listening socket and the requester, in slot
order. -/
def otherPids (t : ClientTable) (i : Nat) : List (BitVec 32) :=
  (t.slots.filter fun j => decide (j ≠ 0 ∧ j ≠ i)).map fun j => (t.client j).pid

namespace RemainingLemmas

variable {t : ClientTable} {i : Nat} {heap : Nat → Byte}

theorem client_active (t : ClientTable) (j : Nat) :
    (t.client j).active = (t.session j).isSome := by
  unfold ClientTable.client ClientTable.session
  cases h : t.clients[j]? with
  | none => rfl
  | some c =>
    rw [Option.getD_some, Option.filter_some]
    cases c.active <;> rfl

/-- The slots that the loop finds are those in use. -/
theorem listed_slots (ht : t.Consistent) (i : Nat) :
    (List.range' 1 t.highestClient).filter (fun j => (t.client j).active && decide (j ≠ i)) =
      t.slots.filter fun j => decide (j ≠ 0 ∧ j ≠ i) := by
  obtain ⟨k, hk⟩ := Nat.exists_eq_add_of_lt (ht.length ▸ ht.bound)
  have hrange : List.range t.clients.length =
      0 :: (List.range' 1 t.highestClient ++ List.range' (1 + t.highestClient) k) := by
    rw [hk, List.range_eq_range', List.range'_succ, List.range'_append_1]
  -- no slot above the highest client is in use
  have habove : (List.range' (1 + t.highestClient) k).filter (fun j =>
      decide (j ≠ 0 ∧ j ≠ i) && (t.session j).isSome) = [] := by
    refine List.filter_eq_nil_iff.mpr fun j hj hused => ?_
    obtain ⟨c, hc⟩ := Option.isSome_iff_exists.mp (Bool.and_eq_true_iff.mp hused).2
    have hle := ht.highest j c hc
    have hlt := (List.mem_range'_1.mp hj).1
    omega
  rw [ClientTable.slots, List.filter_filter, hrange, List.filter_cons_of_neg (by simp),
    List.filter_append, habove, List.append_nil]
  refine List.filter_congr fun j hj => ?_
  have hpos := (List.mem_range'_1.mp hj).1
  rw [client_active, Bool.and_comm]
  congr 1
  exact decide_eq_decide.mpr (by omega)

theorem printPids_eq (t : ClientTable) (i : Nat) (js : List Nat) (s : Nat) :
    let texts := (js.filter fun j => (t.client j).active && decide (j ≠ i)).map
      fun j => pidText (t.client j).pid
    printPids t i js s = (printed 0 8 s texts, s + texts.flatten.length) := by
  induction js generalizing s with
  | nil => rfl
  | cons j js ih =>
    dsimp only at ih ⊢
    rw [printPids]
    by_cases hj : (t.client j).active = true ∧ j ≠ i
    · have hfilter : ((t.client j).active && decide (j ≠ i)) = true := by simpa using hj
      rw [if_pos hj, List.filter_cons, if_pos hfilter, List.map_cons, List.flatten_cons]
      dsimp only
      rw [ih, printed, List.length_append, Nat.add_assoc]
      rfl
    · have hfilter : ¬ ((t.client j).active && decide (j ≠ i)) = true := by simpa using hj
      rw [if_neg hj, List.filter_cons, if_neg hfilter, ih]

/-- The loop prints the ids of the other clients one behind the other. -/
theorem refusal_eq (ht : t.Consistent) (i : Nat) :
    refusal t i = (printed 0 8 0 ((otherPids t i).map pidText),
      ((otherPids t i).flatMap pidText).length) := by
  have htexts : ((List.range' 1 t.highestClient).filter fun j =>
      (t.client j).active && decide (j ≠ i)).map (fun j => pidText (t.client j).pid) =
      (otherPids t i).map pidText := by
    rw [listed_slots ht, otherPids, List.map_map]
    rfl
  rw [refusal, printPids_eq, htexts, Nat.zero_add, List.flatMap_def]

/-- Two of the slots in use are not listed. -/
theorem length_otherPids (ht : t.Consistent) (hlisten : (t.session 0).isSome) (hi : i ≠ 0)
    (hsession : (t.session i).isSome) :
    ((otherPids t i).length : Int) + 2 = t.activeClients := by
  have hnodup : t.slots.Nodup := List.nodup_range.filter _
  have hperm : t.slots.Perm (0 :: i :: t.slots.filter fun j => decide (j ≠ 0 ∧ j ≠ i)) := by
    refine (List.perm_ext_iff_of_nodup hnodup ?_).mpr fun j => ?_
    · exact List.nodup_cons.mpr ⟨by simp [hi.symm],
        List.nodup_cons.mpr ⟨by simp, hnodup.filter _⟩⟩
    · simp only [List.mem_cons, List.mem_filter, decide_eq_true_eq]
      constructor
      · intro hj
        rcases Decidable.em (j ≠ 0 ∧ j ≠ i) with hother | htwo
        · exact .inr (.inr ⟨hj, hother⟩)
        · have hj : j = 0 ∨ j = i := by omega
          exact hj.imp_right .inl
      · rintro (rfl | rfl | ⟨hj, -⟩)
        · exact mem_slots.mpr hlisten
        · exact mem_slots.mpr hsession
        · exact hj
  have hlen := hperm.length_eq
  rw [length_slots, List.length_cons, List.length_cons] at hlen
  rw [ht.active, hlen, otherPids, List.length_map]
  omega

theorem zero_not_mem_pidText (pid : BitVec 32) : 0 ∉ pidText pid := by
  unfold pidText
  rw [List.mem_append, not_or]
  exact ⟨Decimal.zero_not_mem_printInt _, by decide⟩

theorem length_pidText_lt_iff {pid : BitVec 32} (hpid : 0 ≤ pid.toInt) {k : Nat} (hk : 0 < k) :
    (pidText pid).length < k + 2 ↔ pid.toInt < 10 ^ k := by
  rw [← Decimal.length_printInt_le_iff hpid hk, pidText, List.length_append,
    List.length_singleton]
  omega

/-- A terminated text at the start of what is read. -/
theorem cstr_read {s : Bytes} {n : Nat} (h : Holds heap 0 (s ++ [0])) (hs : IsCString s)
    (hn : s.length < n) : cstr (read heap 0 n) = s := by
  obtain ⟨k, rfl⟩ := Nat.exists_eq_add_of_lt hn
  have hread : read heap 0 (s.length + 1) = s ++ [0] := by
    have hlen : (s ++ [0]).length = s.length + 1 := List.length_append
    rw [← hlen]
    exact h
  rw [Nat.add_right_comm, read_add, hread, List.append_assoc]
  exact cstr_append_nul hs _

/-- What can be read of the answer. -/
theorem cstr_nakPath (ht : t.Consistent) (heap : Nat → Byte) (hne : otherPids t i ≠ []) :
    cstr (nakPath heap t i) = readBack 8 ((otherPids t i).map pidText) := by
  have hsub := readBack_sublist 8 ((otherPids t i).map pidText)
  rw [← List.flatMap_def] at hsub
  rw [nakPath, refusal_eq ht]
  refine cstr_read (terminated_printed (by decide) fun hnil => ?_) (fun h => ?_) ?_
  · exact absurd (List.map_eq_nil_iff.mp hnil) hne
  · obtain ⟨pid, -, hpid⟩ := List.mem_flatMap.mp (hsub.subset h)
    exact zero_not_mem_pidText pid hpid
  · exact Nat.lt_succ_of_le hsub.length_le

/-- The list with zeros for what is not written reads the same. -/
theorem cstr_listPids (pids : List (BitVec 32)) :
    cstr (pids.flatMap listPid ++ [0]) = readBack 8 (pids.map pidText) := by
  induction pids with
  | nil => rfl
  | cons pid pids ih =>
    have hlist : listPid pid =
        (pidText pid).take 7 ++ List.replicate ((pidText pid).length - 7) 0 := rfl
    have hnul : ∀ s : Bytes, s.Sublist (pidText pid) → IsCString s :=
      fun s hs h => zero_not_mem_pidText pid (hs.subset h)
    rw [List.flatMap_cons, List.map_cons, readBack, hlist]
    by_cases hfits : (pidText pid).length < 8
    · rw [if_pos hfits, List.take_of_length_le (by omega),
        show (pidText pid).length - 7 = 0 by omega, List.replicate_zero, List.append_nil,
        List.append_assoc, ← ih]
      unfold cstr
      rw [List.takeWhile_append_of_pos]
      intro b hb
      have hb0 : b ≠ 0 := by
        rintro rfl
        exact zero_not_mem_pidText pid hb
      simpa using hb0
    · obtain ⟨k, hk⟩ : ∃ k, (pidText pid).length - 7 = k + 1 :=
        ⟨(pidText pid).length - 8, by omega⟩
      rw [if_neg hfits, hk, List.replicate_succ, List.append_assoc, List.append_assoc,
        List.cons_append]
      exact cstr_append_nul (hnul _ (List.take_sublist 7 _)) _

end RemainingLemmas

open RemainingLemmas

/-- The answer reads as the list that the model of `serve_client` sends. -/
theorem cstr_listClients {t : ClientTable} {i : Nat} (ht : t.Consistent) (heap : Nat → Byte)
    (hne : otherPids t i ≠ []) : cstr (nakPath heap t i) = cstr (listClients t i ++ [0]) := by
  have hloop : ∀ js : List Nat, (js.flatMap fun j =>
      if (t.client j).active ∧ j ≠ i then listPid (t.client j).pid else []) =
      ((js.filter fun j => (t.client j).active && decide (j ≠ i)).map
        fun j => (t.client j).pid).flatMap listPid := by
    intro js
    induction js with
    | nil => rfl
    | cons j js ih =>
      rw [List.flatMap_cons, ih, List.filter_cons]
      by_cases hj : (t.client j).active = true ∧ j ≠ i
      · rw [if_pos hj, if_pos (by simpa using hj), List.map_cons, List.flatMap_cons]
      · rw [if_neg hj, if_neg (by simpa using hj), List.nil_append]
  have hlist : listClients t i = (otherPids t i).flatMap listPid := by
    rw [otherPids, ← listed_slots ht]
    exact hloop _
  rw [cstr_nakPath ht heap hne, hlist, cstr_listPids]

/-- The answer to a refused shutdown names every other client, each id followed by a space, exactly
when all ids have less than seven digits. It keeps to the buffer in any case. -/
theorem refusal_exact_iff {t : ClientTable} {i : Nat} (ht : t.Consistent)
    (hlisten : (t.session 0).isSome) (hi : i ≠ 0) (hsession : (t.session i).isSome)
    (hmany : 2 < t.activeClients)
    (hpids : ∀ pid ∈ otherPids t i, 0 ≤ pid.toInt ∧ pid.toInt ≤ 4194304) (heap : Nat → Byte) :
    cstr (nakPath heap t i) = (otherPids t i).flatMap pidText ∧
        Block.Within (8 * t.activeClients.toNat) (refusal t i).1 ↔
      ∀ pid ∈ otherPids t i, pid.toInt < 10 ^ 6 := by
  have hcount := length_otherPids ht hlisten hi hsession
  have hne : otherPids t i ≠ [] := by
    refine List.ne_nil_of_length_pos ?_
    omega
  have hwithin : Block.Within (8 * t.activeClients.toNat) (refusal t i).1 := by
    rw [refusal_eq ht]
    refine within_printed (by decide) (fun s hs => ?_) ?_
    · obtain ⟨pid, hpid, rfl⟩ := List.mem_map.mp hs
      obtain ⟨hpos, hmax⟩ := hpids pid hpid
      have hlt := (length_pidText_lt_iff hpos (k := 7) (by decide)).mpr (by omega)
      omega
    · rw [List.length_map]
      omega
  rw [and_iff_left hwithin, cstr_nakPath ht heap hne, List.flatMap_def,
    readBack_eq_iff (by decide), List.forall_mem_map]
  exact forall₂_congr fun pid hpid =>
    length_pidText_lt_iff (hpids pid hpid).1 (k := 6) (by decide)

/-- The listening socket, a requester in slot 1 and clients with these process ids. -/
def exRemaining (pids : List (BitVec 32)) : ClientTable where
  clients := ⟨3, 1, none, none⟩ :: ⟨4, 2, none, none⟩ :: pids.map fun pid => ⟨5, pid, none, none⟩
  activeClients := pids.length + 2
  highestClient := pids.length + 1
  maxClients := pids.length + 2

theorem consistent_exRemaining (pids : List (BitVec 32)) : (exRemaining pids).Consistent where
  length := by simp [exRemaining]
  active := by
    have hpids : ∀ c ∈ pids.map fun pid => (⟨5, pid, none, none⟩ : PseudoClient), c.active := by
      rw [List.forall_mem_map]
      exact fun _ _ => rfl
    rw [exRemaining, List.countP_cons_of_pos rfl, List.countP_cons_of_pos rfl,
      List.countP_eq_length.mpr hpids, List.length_map]
    rfl
  highest i c hc := by
    have hlt := (List.getElem?_eq_some_iff.mp (session_some.mp hc).1).1
    simp only [exRemaining, List.length_cons, List.length_map] at hlt ⊢
    omega
  bound := Nat.lt_succ_self _

theorem otherPids_exRemaining : otherPids (exRemaining [7, 12]) 1 = [7, 12] := by
  decide +kernel

/-- The clients 7 and 12 are named. -/
theorem refusal_names_clients :
    cstr (nakPath (fun _ => 120) (exRemaining [7, 12]) 1) =
        (otherPids (exRemaining [7, 12]) 1).flatMap pidText ∧
      Block.Within (8 * (exRemaining [7, 12]).activeClients.toNat)
        (refusal (exRemaining [7, 12]) 1).1 := by
  refine (refusal_exact_iff (consistent_exRemaining [7, 12]) rfl (by decide) rfl (by decide) ?_
    (fun _ => 120)).mpr ?_
  · rw [otherPids_exRemaining]
    simp
  · rw [otherPids_exRemaining]
    simp

/-- Of the clients 1000000 and 7 only the first one is named, and without a space. -/
theorem refusal_loses_client :
    cstr (nakPath (fun _ => 120) (exRemaining [1000000, 7]) 1) ≠
      (otherPids (exRemaining [1000000, 7]) 1).flatMap pidText := by
  decide +kernel

end Pseudo

import Pseudo.Client

/-!
# The tables of open files

What each function of `pseudo_client.c` does to the entry of a descriptor in `fd_paths` and
`linked_fd_paths`. An entry behind the end of a table reads as a null pointer.

Results:
1. `pathOf_pathSet`, `pathOf_close`, `pathOf_closefrom`: setting and clearing entries.
2. `pathOf_linkedPaths`, `pathOf_renamePath`, `pathOf_unlinkedPath`: following the names of files.
3. `nested_pseudoClientOp`: `linked_fd_paths` is never the longer table, so that clearing an entry
   of `fd_paths` clears the other one too.
4. `clientTables_open`, `clientTables_close`, `clientTables_dup`, `clientTables_didUnlink`: what the
   notices of the wrappers leave.
-/

namespace Pseudo

/-- `linked_nfds` is never greater than `nfds`. -/
def FdTables.Nested (t : FdTables) : Prop := t.linkedFdPaths.length ≤ t.fdPaths.length

instance (t : FdTables) : Decidable t.Nested := inferInstanceAs (Decidable (_ ≤ _))

namespace FdTablesLemmas

variable {t : FdTables} {ps : List (Option Bytes)} {fd : Int} {path : Option Bytes} {n : Nat}
  {p old new : Bytes}

theorem pathOf_of_length_le (h : ps.length ≤ n) : pathOf ps n = none := by
  rw [pathOf, List.getElem?_eq_none h]
  rfl

theorem lt_length_of_pathOf (h : pathOf ps n = some p) : n < ps.length := by
  refine Nat.lt_of_not_le fun hle => ?_
  rw [pathOf_of_length_le hle] at h
  cases h

theorem pathOf_set (ps : List (Option Bytes)) (i n : Nat) :
    pathOf (ps.set i path) n = if i = n ∧ i < ps.length then path else pathOf ps n := by
  unfold pathOf
  rcases Decidable.em (i = n) with rfl | hne
  · rcases Nat.lt_or_ge i ps.length with hlt | hge
    · rw [List.getElem?_set_self hlt, if_pos ⟨rfl, hlt⟩]
      rfl
    · rw [if_neg (by omega), List.set_eq_of_length_le hge]
  · rw [List.getElem?_set_ne hne, if_neg (fun h => hne h.1)]

theorem pathOf_replicate (ps : List (Option Bytes)) (k n : Nat) :
    pathOf (ps ++ List.replicate k none) n = pathOf ps n := by
  unfold pathOf
  rcases Nat.lt_or_ge n ps.length with hlt | hge
  · rw [List.getElem?_append_left hlt]
  · rw [List.getElem?_append_right hge, List.getElem?_eq_none hge, List.getElem?_replicate]
    split <;> rfl

/-! ## 1. Setting and clearing entries -/

theorem pathOf_pathSet (ps : List (Option Bytes)) (fd : Int) (path : Option Bytes) (n : Nat) :
    pathOf (pseudoClientPathSet ps fd path) n = if fd = n then path else pathOf ps n := by
  unfold pseudoClientPathSet
  rcases Decidable.em (fd < 0) with hneg | hpos
  · rw [if_pos hneg, if_neg (by omega)]
  · obtain ⟨i, rfl⟩ := Int.eq_ofNat_of_zero_le (Int.not_lt.mp hpos)
    rw [if_neg (by omega), Int.toNat_natCast]
    simp only [Int.natCast_inj]
    split
    · rw [pathOf_set, pathOf_replicate, List.length_append, List.length_replicate]
      exact if_congr (and_iff_left (by omega)) rfl rfl
    · rw [pathOf_set]
      exact if_congr (and_iff_left (by omega)) rfl rfl

theorem le_length_pathSet (ps : List (Option Bytes)) (fd : Int) (path : Option Bytes) :
    ps.length ≤ (pseudoClientPathSet ps fd path).length := by
  unfold pseudoClientPathSet
  split
  · exact Nat.le_refl _
  · split
    · rw [List.length_set, List.length_append]
      exact Nat.le_add_right _ _
    · exact Nat.le_of_eq List.length_set.symm

/-- The table of a descriptor below `len` does not get longer than that. -/
theorem length_pathSet_le {len : Nat} (hlen : ps.length ≤ len) (hn : n < len)
    (path : Option Bytes) : (pseudoClientPathSet ps n path).length ≤ len := by
  unfold pseudoClientPathSet
  split
  · exact hlen
  · split
    · rw [List.length_set, List.length_append, List.length_replicate, Int.toNat_natCast]
      omega
    · rw [List.length_set]
      exact hlen

theorem pathOf_fdPaths_close (t : FdTables) (fd : Int) (n : Nat) :
    pathOf (pseudoClientClose t fd).fdPaths n = if fd = n then none else pathOf t.fdPaths n := by
  unfold pseudoClientClose
  split
  · rename_i hout
    split
    · rename_i heq
      exact pathOf_of_length_le (by omega)
    · rfl
  · rename_i hin
    rw [pathOf_set]
    exact if_congr (by omega) rfl rfl

theorem pathOf_linkedFdPaths_close (h : t.Nested) (fd : Int) (n : Nat) :
    pathOf (pseudoClientClose t fd).linkedFdPaths n =
      if fd = n then none else pathOf t.linkedFdPaths n := by
  have hle : t.linkedFdPaths.length ≤ t.fdPaths.length := h
  unfold pseudoClientClose
  split
  · rename_i hout
    split
    · rename_i heq
      exact pathOf_of_length_le (by omega)
    · rfl
  · rename_i hin
    rw [pathOf_set]
    split
    · rw [if_pos (by omega)]
    · split
      · rename_i hge heq
        exact pathOf_of_length_le (by omega)
      · rfl

theorem nested_close (h : t.Nested) (fd : Int) : (pseudoClientClose t fd).Nested := by
  unfold pseudoClientClose
  split
  · exact h
  · unfold FdTables.Nested
    rw [List.length_set, List.length_set]
    exact h

/-- The entries of a descriptor in both tables. -/
def entries (t : FdTables) (n : Nat) : Option Bytes × Option Bytes :=
  (pathOf t.fdPaths n, pathOf t.linkedFdPaths n)

theorem entries_close (h : t.Nested) (fd : Int) (n : Nat) :
    entries (pseudoClientClose t fd) n = if fd = n then (none, none) else entries t n := by
  unfold entries
  rw [pathOf_fdPaths_close, pathOf_linkedFdPaths_close h]
  split <;> rfl

theorem nested_closefrom (h : t.Nested) (fd : Int) : (pseudoClientClosefrom t fd).Nested := by
  unfold pseudoClientClosefrom
  split
  · exact h
  · exact Run.run_invariant (fun t i ht => nested_close ht i) h

theorem entries_closefrom (h : t.Nested) (hfd : 0 ≤ fd) (n : Nat) :
    entries (pseudoClientClosefrom t fd) n = if fd ≤ n then (none, none) else entries t n := by
  have hle : t.linkedFdPaths.length ≤ t.fdPaths.length := h
  have hbehind : t.fdPaths.length ≤ n → entries t n = (none, none) := by
    intro hn
    unfold entries
    rw [pathOf_of_length_le hn, pathOf_of_length_le (Nat.le_trans hle hn)]
  unfold pseudoClientClosefrom
  split
  · split
    · exact hbehind (by omega)
    · rfl
  · have hloop := Run.view_run_range' (v := entries) (g := fun _ _ => (none, none))
      (b := fun t i => pseudoClientClose t i) (I := FdTables.Nested)
      (fun t i ht => nested_close ht i)
      (fun t j i ht => by
        rw [entries_close ht]
        exact if_congr (by omega) rfl rfl) h fd.toNat (t.fdPaths.length - fd.toNat) n
    unfold forFds
    rw [hloop]
    split
    · rw [if_pos (by omega)]
    · split
      · exact hbehind (by omega)
      · rfl

/-! ## 2. Following the names of files -/

/-- A loop that gives some descriptors below `hi` a new entry, where the test for a descriptor
does not depend on the entries of others. -/
theorem pathOf_forFds (test : Nat → Option Bytes → Prop) [∀ i e, Decidable (test i e)]
    (entry : Nat → Option Bytes) (lo hi : Nat) (ps : List (Option Bytes))
    (hhi : ∀ i, test i (pathOf ps i) → i < hi) (n : Nat) :
    pathOf (forFds lo hi (fun ps fd =>
      if test fd (pathOf ps fd) then pseudoClientPathSet ps fd (entry fd) else ps) ps) n =
      if lo ≤ n ∧ test n (pathOf ps n) then entry n else pathOf ps n := by
  unfold forFds
  rw [Run.view_run_range' (v := pathOf) (I := fun _ => True)
    (g := fun i e => if test i e then entry i else e) (fun _ _ _ => trivial) ?_ trivial]
  · by_cases htest : test n (pathOf ps n)
    · have hlt := hhi n htest
      simp only [if_pos htest, and_iff_left htest]
      exact if_congr (by omega) rfl rfl
    · rw [if_neg htest, ite_self, if_neg fun h => htest h.2]
  · intro ps j i _
    by_cases htest : test j (pathOf ps j)
    · rw [if_pos htest, pathOf_pathSet]
      rcases Decidable.em (i = j) with rfl | hne
      · rw [if_pos rfl, if_pos rfl, if_pos htest]
      · rw [if_neg hne, if_neg (by omega)]
    · rw [if_neg htest]
      rcases Decidable.em (i = j) with rfl | hne
      · rw [if_pos rfl, if_neg htest]
      · rw [if_neg hne]

theorem pathOf_linkedPaths (t : FdTables) (old new : Bytes) (n : Nat) :
    pathOf (pseudoClientLinkedPaths t old new).linkedFdPaths n =
      if 3 ≤ n ∧ pathOf t.fdPaths n = some old then some new else pathOf t.linkedFdPaths n :=
  pathOf_forFds (fun i _ => pathOf t.fdPaths i = some old) (fun _ => some new) 3
    t.fdPaths.length t.linkedFdPaths (fun _ h => lt_length_of_pathOf h) n

theorem pathOf_fdPaths_renamePath (t : FdTables) (old new : Bytes) (n : Nat) :
    pathOf (pseudoClientRenamePath t old new).fdPaths n =
      if 3 ≤ n ∧ pathOf t.fdPaths n = some old then some new else pathOf t.fdPaths n :=
  pathOf_forFds (fun _ e => e = some old) (fun _ => some new) 3
    t.fdPaths.length t.fdPaths (fun _ h => lt_length_of_pathOf h) n

theorem isSome_renamePath (t : FdTables) (old new : Bytes) (n : Nat) :
    (pathOf (pseudoClientRenamePath t old new).fdPaths n).isSome = (pathOf t.fdPaths n).isSome := by
  rw [pathOf_fdPaths_renamePath]
  split
  · rename_i h
    rw [h.2]
    rfl
  · rfl

theorem pathOf_linkedFdPaths_renamePath (t : FdTables) (old new : Bytes) (n : Nat) :
    pathOf (pseudoClientRenamePath t old new).linkedFdPaths n =
      if (pathOf t.fdPaths n).isSome ∧ pathOf t.linkedFdPaths n = some old then some new
      else pathOf t.linkedFdPaths n := by
  have hloop := pathOf_forFds
    (fun i e => (pathOf (pseudoClientRenamePath t old new).fdPaths i).isSome ∧ e = some old)
    (fun _ => some new) 0 t.linkedFdPaths.length t.linkedFdPaths
    (fun _ h => lt_length_of_pathOf h.2) n
  refine hloop.trans (if_congr ?_ rfl rfl)
  rw [and_iff_right (Nat.zero_le n), isSome_renamePath]

theorem pathOf_unlinkedPath (t : FdTables) (path : Bytes) (n : Nat) :
    pathOf (pseudoClientUnlinkedPath t path).fdPaths n =
      if (pathOf t.linkedFdPaths n).isSome ∧ pathOf t.fdPaths n = some path then
        pathOf t.linkedFdPaths n
      else pathOf t.fdPaths n := by
  have hloop := pathOf_forFds
    (fun i e => (pathOf t.linkedFdPaths i).isSome ∧ e = some path)
    (fun i => pathOf t.linkedFdPaths i) 0 t.linkedFdPaths.length t.fdPaths
    (fun i h => by
      obtain ⟨q, hq⟩ := Option.isSome_iff_exists.mp h.1
      exact lt_length_of_pathOf hq) n
  refine hloop.trans (if_congr ?_ rfl rfl)
  exact and_iff_right (Nat.zero_le n)

/-! ## 3. The lengths of the tables -/

theorem nested_path (h : t.Nested) (fd : Int) (path : Option Bytes) :
    (pseudoClientPath t fd path).Nested :=
  Nat.le_trans h (le_length_pathSet t.fdPaths fd path)

theorem nested_linkedPaths (h : t.Nested) (old new : Bytes) :
    (pseudoClientLinkedPaths t old new).Nested := by
  refine Run.run_invariant (P := fun ps : List (Option Bytes) => ps.length ≤ t.fdPaths.length)
    (fun ps i hps => ?_) h
  split
  · rename_i hi
    exact length_pathSet_le hps (lt_length_of_pathOf hi) _
  · exact hps

theorem nested_unlinkedPath (h : t.Nested) (path : Bytes) :
    (pseudoClientUnlinkedPath t path).Nested := by
  refine Run.run_invariant
    (P := fun ps : List (Option Bytes) => t.linkedFdPaths.length ≤ ps.length)
    (fun ps i hps => ?_) h
  split
  · exact Nat.le_trans hps (le_length_pathSet ps i _)
  · exact hps

theorem nested_renamePath (h : t.Nested) (old new : Bytes) :
    (pseudoClientRenamePath t old new).Nested := by
  have hfd : t.fdPaths.length ≤ (pseudoClientRenamePath t old new).fdPaths.length := by
    refine Run.run_invariant (P := fun ps : List (Option Bytes) => t.fdPaths.length ≤ ps.length)
      (fun ps i hps => ?_) (Nat.le_refl _)
    split
    · exact Nat.le_trans hps (le_length_pathSet ps i _)
    · exact hps
  have hlinked : (pseudoClientRenamePath t old new).linkedFdPaths.length ≤
      t.linkedFdPaths.length := by
    refine Run.run_invariant
      (P := fun ps : List (Option Bytes) => ps.length ≤ t.linkedFdPaths.length)
      (fun ps i hps => ?_) (Nat.le_refl _)
    split
    · rename_i hi
      exact length_pathSet_le hps (Nat.lt_of_lt_of_le (lt_length_of_pathOf hi.2) hps) _
    · exact hps
  exact Nat.le_trans hlinked (Nat.le_trans h hfd)

theorem nested_dispatchTables (h : t.Nested) (env : ClientEnv) (call : ClientCall)
    (sent : Bytes) : (dispatchTables env t call sent).Nested := by
  unfold dispatchTables
  split
  · exact nested_path h _ _
  · exact nested_path h _ _
  · exact nested_close h _
  · refine nested_closefrom (Run.run_invariant (fun t i ht => ?_) h) _
    split
    · exact ht
    · exact nested_close ht i
  · exact nested_unlinkedPath h _
  · exact nested_unlinkedPath h _
  · exact nested_renamePath h _ _
  · exact h

end FdTablesLemmas

open FdTablesLemmas

/-- No call of `pseudo_client_op` makes `linked_fd_paths` the longer table. -/
theorem nested_pseudoClientOp {t : FdTables} (h : t.Nested) {env : ClientEnv} {call : ClientCall}
    {s : ClientStep} (hs : pseudoClientOp env t call = some s) : s.tables.Nested := by
  unfold pseudoClientOp at hs
  dsimp only at hs
  split at hs
  · split at hs
    · cases hs
      exact nested_path h _ _
    · cases hs
      exact h
  · split at hs
    · cases hs
      exact h
    · obtain ⟨sent, -, rfl⟩ := Option.map_eq_some_iff.mp hs
      exact nested_dispatchTables h env call sent.1

/-! ## 4. The notices of the wrappers -/

/-- The tables after a call of `pseudo_client_op`. -/
def clientTables (env : ClientEnv) (t : FdTables) (call : ClientCall) : FdTables :=
  ((pseudoClientOp env t call).map (·.tables)).getD t

/-- The name that an `open` goes by: "sanitise the path to have no trailing slash". -/
def recordedPath (path : Bytes) : Bytes := if stripSlash path then path.dropLast else path

/-- The path is absolute and a C string, and not `//`. -/
def Openable (path : Bytes) : Prop :=
  path.head? = some slash ∧ IsCString path ∧ path ≠ [slash, slash]

instance (path : Bytes) : Decidable (Openable path) := inferInstanceAs (Decidable (_ ∧ _))

namespace FdTablesLemmas

variable {t : FdTables} {path : Bytes}

theorem nested_clientTables (h : t.Nested) (env : ClientEnv) (call : ClientCall) :
    (clientTables env t call).Nested := by
  unfold clientTables
  cases hs : pseudoClientOp env t call with
  | none => exact h
  | some s => exact nested_pseudoClientOp h hs

theorem clientTables_close (env : ClientEnv) (t : FdTables) (fd : Int) :
    clientTables env t { op := .close, fd := fd, path := none, buf := none } =
      pseudoClientClose t fd := by
  unfold clientTables pseudoClientOp
  cases callPath t { op := .close, fd := fd, path := none, buf := none } <;> rfl

theorem clientTables_dup (env : ClientEnv) (t : FdTables) (fd dirfd : Int) :
    clientTables env t { op := .dup, fd := fd, dirfd := dirfd, path := none, buf := none } =
      pseudoClientPath t dirfd (fdPath env.cwd t fd) := by
  unfold clientTables pseudoClientOp
  cases callPath t { op := .dup, fd := fd, dirfd := dirfd, path := none, buf := none } <;> rfl

/-- The two places that take a trailing slash off agree. -/
theorem recordedPath_ignored (hpath : Openable path) :
    (if 2 < path.length ∧ stripSlash path then path.dropLast else path) = recordedPath path := by
  unfold recordedPath
  cases hstrip : stripSlash path with
  | false => rw [if_neg (by simp), if_neg (by simp)]
  | true =>
    rw [if_pos rfl, if_pos]
    refine ⟨Nat.lt_of_not_le fun hle => hpath.2.2 ?_, rfl⟩
    have hslash : 1 < path.length ∧ path.getLast? = some slash := by simpa [stripSlash] using hstrip
    match path, hpath.1, hslash, hle with
    | [b, c], hhead, hlast, _ =>
      have hb : b = slash := Option.some.inj hhead
      have hc : c = slash := Option.some.inj hlast.2
      rw [hb, hc]

theorem cstr_sent (hpath : IsCString path) :
    cstr (if stripSlash path then path.dropLast ++ [0, 0] else path ++ [0]) =
      recordedPath path := by
  unfold recordedPath
  split
  · exact cstr_append_nul (fun h => hpath (List.mem_of_mem_dropLast h)) _
  · exact cstr_append_nul hpath _

theorem clientTables_open (env : ClientEnv) (t : FdTables) (fd : Int) (buf : Option StatBuf)
    (hpath : Openable path) :
    clientTables env t { op := .open, fd := fd, path := some path, buf := buf } =
      pseudoClientPath t fd (some (recordedPath path)) := by
  unfold clientTables pseudoClientOp
  cases hig : pseudoClientIgnorePath env (some path) with
  | true => simp [callPath, Op.neverIgnored, hig, ← recordedPath_ignored hpath]
  | false => simp [callPath, Op.neverIgnored, hig, sentPath, dispatchTables, cstr_sent hpath.2.1]

theorem clientTables_didUnlink (env : ClientEnv) (t : FdTables) (buf : Option StatBuf)
    (hpath : IsCString path) :
    clientTables env t { op := .didUnlink, path := some path, buf := buf } =
      if pseudoClientIgnorePath env (some path) then t
      else pseudoClientUnlinkedPath t (recordedPath path) := by
  unfold clientTables pseudoClientOp
  cases hig : pseudoClientIgnorePath env (some path) with
  | true => simp [callPath, Op.neverIgnored, hig]
  | false => simp [callPath, Op.neverIgnored, hig, sentPath, dispatchTables, cstr_sent hpath]

end FdTablesLemmas

end Pseudo

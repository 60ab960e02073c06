import Mathlib.Logic.Function.Basic
import Pseudo.FdTables

/-!
# The table of open files along the calls of a program

`wrap_openat`, `wrap_close`, `wrap_dup`, `wrap_dup2` and the duplicating part of `wrap_fcntl`, next
to the descriptors of the host. What the host answers is part of each call, so a run goes through
all orders of successes and failures. The descriptors that pseudo keeps for itself, which `OP_CLOSE`
moves away, are not among those of the calls.

Results:
1. `follows_wrapDup`, `follows_wrapClose_iff`, `follows_wrapDup2_iff`: what one call does to the
   agreement of the two.
2. `table_follows_iff`: the table follows the descriptors along a run exactly when every call keeps
   it up.
3. `dup2_loses_path`: a duplication onto the same descriptor.
-/

namespace Pseudo

/-- An open file description, with the path of the `open` that made it, if one did. -/
structure Description where
  path : Option Bytes
  deriving DecidableEq, Repr

/-- The client's tables, and the descriptions that are open in the process. -/
structure Descriptors where
  tables : FdTables
  host : Nat → Option Description

def Descriptors.description (s : Descriptors) (fd : Int) : Option Description :=
  if 0 ≤ fd then s.host fd.toNat else none

/-! ## The host -/

/-- The answer is the descriptor, or none. -/
def Descriptors.realOpen (s : Descriptors) (path : Option Bytes) (answer : Option Nat) :
    Descriptors × Int :=
  match answer with
  | some n => ({ s with host := Function.update s.host n (some ⟨path⟩) }, n)
  | none => (s, -1)

/-- `close` may fail and release the descriptor or not. -/
def Descriptors.realClose (s : Descriptors) (fd : Int) (released : Bool) : Descriptors :=
  if 0 ≤ fd ∧ released then { s with host := Function.update s.host fd.toNat none } else s

/-- `dup` and `F_DUPFD`; they can only succeed for a descriptor that is open. -/
def Descriptors.realDup (s : Descriptors) (fd : Int) (answer : Option Nat) : Descriptors × Int :=
  match s.description fd, answer with
  | some d, some n => ({ s with host := Function.update s.host n (some d) }, n)
  | _, _ => (s, -1)

def Descriptors.realDup2 (s : Descriptors) (oldfd newfd : Int) (ok : Bool) : Descriptors × Int :=
  s.realDup oldfd (if ok ∧ 0 ≤ newfd then some newfd.toNat else none)

/-! ## The wrappers -/

/-- A call of `pseudo_client_op`. -/
def Descriptors.clientOp (s : Descriptors) (env : ClientEnv) (call : ClientCall) : Descriptors :=
  { s with tables := clientTables env s.tables call }

/-- `path` is the canonical path, and `buf` what `stat` found behind it. With `O_TMPFILE` the file
has no name. -/
def wrapOpenat (env : ClientEnv) (s : Descriptors) (path : Bytes) (tmpfile : Bool)
    (buf : Option StatBuf) (answer : Option Nat) : Descriptors :=
  let (s, rc) := s.realOpen (if tmpfile then none else some path) answer
  if rc ≠ -1 then
    if tmpfile then s
    else s.clientOp env { op := .open, fd := rc, path := some path, buf := buf }
  else s

def wrapClose (env : ClientEnv) (s : Descriptors) (fd : Int) (released : Bool) : Descriptors :=
  (s.clientOp env { op := .close, fd := fd, path := none, buf := none }).realClose fd released

def wrapDup (env : ClientEnv) (s : Descriptors) (fd : Int) (answer : Option Nat) : Descriptors :=
  let (s, rc) := s.realDup fd answer
  s.clientOp env { op := .dup, fd := fd, dirfd := rc, path := none, buf := none }

/-- "close existing one first". -/
def wrapDup2 (env : ClientEnv) (s : Descriptors) (oldfd newfd : Int) (ok : Bool) : Descriptors :=
  let s := s.clientOp env { op := .close, fd := newfd, path := none, buf := none }
  let (s, _) := s.realDup2 oldfd newfd ok
  s.clientOp env { op := .dup, fd := oldfd, dirfd := newfd, path := none, buf := none }

/-- `wrap_fcntl` with `F_DUPFD`. -/
def wrapFcntlDupfd (env : ClientEnv) (s : Descriptors) (fd : Int) (answer : Option Nat) :
    Descriptors :=
  let (s, rc) := s.realDup fd answer
  if rc ≠ -1 then s.clientOp env { op := .dup, fd := fd, dirfd := rc, path := none, buf := none }
  else s

inductive FdCall
  | openat (path : Bytes) (tmpfile : Bool) (buf : Option StatBuf) (answer : Option Nat)
  | close (fd : Int) (released : Bool)
  | dup (fd : Int) (answer : Option Nat)
  | dup2 (oldfd newfd : Int) (ok : Bool)
  | fcntlDupfd (fd : Int) (answer : Option Nat)
  deriving DecidableEq, Repr

def Descriptors.step (env : ClientEnv) (s : Descriptors) : FdCall → Descriptors
  | .openat path tmpfile buf answer => wrapOpenat env s path tmpfile buf answer
  | .close fd released => wrapClose env s fd released
  | .dup fd answer => wrapDup env s fd answer
  | .dup2 oldfd newfd ok => wrapDup2 env s oldfd newfd ok
  | .fcntlDupfd fd answer => wrapFcntlDupfd env s fd answer

/-! ## Agreement -/

/-- An entry of `fd_paths` fits what is open: a closed descriptor has none, and the description of
an `open` has its path. -/
def EntryFits (d : Option Description) (entry : Option Bytes) : Prop :=
  match d with
  | none => entry = none
  | some ⟨none⟩ => True
  | some ⟨some path⟩ => entry = some (recordedPath path)

instance : (d : Option Description) → (entry : Option Bytes) → Decidable (EntryFits d entry)
  | none, entry => inferInstanceAs (Decidable (entry = none))
  | some ⟨none⟩, _ => inferInstanceAs (Decidable True)
  | some ⟨some path⟩, entry => inferInstanceAs (Decidable (entry = some (recordedPath path)))

/-- The open-file table follows the descriptors. -/
def Descriptors.Follows (s : Descriptors) : Prop := ∀ n, EntryFits (s.host n) (pathOf s.tables.fdPaths n)

/-- What the callers of the wrappers see to. -/
def FdCall.Valid : FdCall → Prop
  | .openat path .. => Openable path
  | _ => True

instance FdCall.instDecidableValid : (call : FdCall) → Decidable call.Valid
  | .openat .. => inferInstanceAs (Decidable (Openable _))
  | .close .. | .dup .. | .dup2 .. | .fcntlDupfd .. => inferInstanceAs (Decidable True)

/-- Of the calls that can put the table out of step: a `close` releases its descriptor or that has
no path, a `dup2` that succeeds is for two descriptors or for one without a path, and one that
fails finds under the old descriptor what fits the new one. -/
def Descriptors.Keeps (env : ClientEnv) (s : Descriptors) : FdCall → Prop
  | .close fd released => released = true ∨ EntryFits (s.description fd) none
  | .dup2 oldfd newfd ok =>
    newfd < 0 ∨
      (if ok ∧ (s.description oldfd).isSome then
        oldfd = newfd → EntryFits (s.description newfd) none
      else
        EntryFits (s.description newfd) (if oldfd = newfd then none else fdPath env.cwd s.tables oldfd))
  | _ => True

instance (env : ClientEnv) (s : Descriptors) : (call : FdCall) → Decidable (s.Keeps env call)
  | .openat .. | .dup .. | .fcntlDupfd .. => inferInstanceAs (Decidable True)
  | .close .. => inferInstanceAs (Decidable (_ ∨ _))
  | .dup2 .. => inferInstanceAs (Decidable (_ ∨ _))

namespace DescriptorsLemmas

open FdTablesLemmas

variable {env : ClientEnv} {s : Descriptors} {fd oldfd newfd : Int} {n : Nat} {path : Bytes}
  {d : Option Description} {entry : Option Bytes}

/-! ## What a notice does to the table -/

theorem clientOp_close (env : ClientEnv) (s : Descriptors) (fd : Int) :
    s.clientOp env { op := .close, fd := fd, path := none, buf := none } =
      { s with tables := pseudoClientClose s.tables fd } :=
  congrArg (Descriptors.mk · s.host) (clientTables_close env s.tables fd)

theorem clientOp_dup (env : ClientEnv) (s : Descriptors) (fd dirfd : Int) :
    s.clientOp env { op := .dup, fd := fd, dirfd := dirfd, path := none, buf := none } =
      { s with tables := pseudoClientPath s.tables dirfd (fdPath env.cwd s.tables fd) } :=
  congrArg (Descriptors.mk · s.host) (clientTables_dup env s.tables fd dirfd)

theorem clientOp_open (env : ClientEnv) (s : Descriptors) (fd : Int) (buf : Option StatBuf)
    (hpath : Openable path) :
    s.clientOp env { op := .open, fd := fd, path := some path, buf := buf } =
      { s with tables := pseudoClientPath s.tables fd (some (recordedPath path)) } :=
  congrArg (Descriptors.mk · s.host) (clientTables_open env s.tables fd buf hpath)

/-! ## Agreement after a change of one descriptor -/

/-- An entry and a description that are both new fit, or the agreement is gone. -/
theorem follows_update_iff {t : FdTables} {host : Nat → Option Description}
    (h : s.Follows) (hentry : pathOf t.fdPaths n = entry)
    (hother : ∀ m, m ≠ n → pathOf t.fdPaths m = pathOf s.tables.fdPaths m)
    (hhost : host = Function.update s.host n d) :
    (Descriptors.mk t host).Follows ↔ EntryFits d entry := by
  subst hhost
  constructor
  · intro hfollows
    have hn := hfollows n
    dsimp only at hn
    rwa [Function.update_self, hentry] at hn
  · intro hfits m
    dsimp only
    rcases Decidable.em (m = n) with rfl | hne
    · rw [Function.update_self, hentry]
      exact hfits
    · rw [Function.update_of_ne hne, hother m hne]
      exact h m

theorem follows_pathSet_iff {host : Nat → Option Description} (h : s.Follows)
    (hhost : host = Function.update s.host n d) :
    (Descriptors.mk (pseudoClientPath s.tables n entry) host).Follows ↔ EntryFits d entry := by
  refine follows_update_iff h ((pathOf_pathSet _ n _ n).trans (if_pos rfl)) (fun m hm => ?_) hhost
  exact (pathOf_pathSet _ n _ m).trans (if_neg (by omega))

theorem description_natCast (s : Descriptors) (n : Nat) : s.description n = s.host n :=
  if_pos (Int.natCast_nonneg n)

theorem description_of_neg (hfd : fd < 0) : s.description fd = none := if_neg (by omega)

/-- The entry that a duplication copies fits what it duplicates. -/
theorem fits_fdPath (h : s.Follows) (hopen : (s.description fd).isSome) (cwd : Option Bytes) :
    EntryFits (s.description fd) (fdPath cwd s.tables fd) := by
  rcases Int.lt_or_le fd 0 with hneg | hpos
  · rw [description_of_neg hneg] at hopen
    cases hopen
  · unfold fdPath Descriptors.description
    rw [if_pos hpos, if_pos hpos]
    exact h fd.toNat

/-! ## Agreement after a call -/

theorem follows_wrapOpenat (h : s.Follows) (env : ClientEnv) (hpath : Openable path)
    (tmpfile : Bool) (buf : Option StatBuf) (answer : Option Nat) :
    (wrapOpenat env s path tmpfile buf answer).Follows := by
  cases answer with
  | none => exact h
  | some n =>
    have hrc : (n : Int) ≠ -1 := by omega
    cases tmpfile with
    | true =>
      simp only [wrapOpenat, Descriptors.realOpen, if_pos hrc, if_true]
      exact (follows_update_iff h rfl (fun _ _ => rfl) rfl).mpr trivial
    | false =>
      simp only [wrapOpenat, Descriptors.realOpen, if_pos hrc, Bool.false_eq_true, if_false,
        clientOp_open env _ n buf hpath]
      exact (follows_pathSet_iff h rfl).mpr rfl

theorem follows_wrapClose_iff (h : s.Follows) (env : ClientEnv) (fd : Int) (released : Bool) :
    (wrapClose env s fd released).Follows ↔
      released = true ∨ EntryFits (s.description fd) none := by
  unfold wrapClose Descriptors.realClose
  rw [clientOp_close]
  rcases Int.lt_or_le fd 0 with hneg | hpos
  · rw [if_neg (by omega), description_of_neg hneg]
    refine iff_of_true (fun n => ?_) (.inr rfl)
    dsimp only
    rw [pathOf_fdPaths_close, if_neg (by omega)]
    exact h n
  · obtain ⟨n, rfl⟩ := Int.eq_ofNat_of_zero_le hpos
    have hentry : pathOf (pseudoClientClose s.tables n).fdPaths n = none := by
      rw [pathOf_fdPaths_close, if_pos rfl]
    have hother : ∀ m, m ≠ n →
        pathOf (pseudoClientClose s.tables n).fdPaths m = pathOf s.tables.fdPaths m := by
      intro m hm
      rw [pathOf_fdPaths_close, if_neg (by omega)]
    rw [description_natCast]
    cases released with
    | true =>
      rw [if_pos ⟨hpos, rfl⟩]
      exact (follows_update_iff h hentry hother rfl).trans (iff_of_true rfl (.inl rfl))
    | false =>
      rw [if_neg (by simp), or_iff_right (by simp)]
      exact follows_update_iff h hentry hother (Function.update_eq_self n s.host).symm

theorem follows_wrapDup (h : s.Follows) (env : ClientEnv) (fd : Int) (answer : Option Nat) :
    (wrapDup env s fd answer).Follows := by
  unfold wrapDup Descriptors.realDup
  dsimp only
  split
  · rename_i d n hd
    rw [clientOp_dup]
    refine (follows_pathSet_iff h rfl).mpr ?_
    rw [← hd]
    exact fits_fdPath h (by rw [hd]; rfl) env.cwd
  · rw [clientOp_dup]
    exact h

/-- The test of `wrap_fcntl` for -1 is one that `pseudo_client_path_set` makes as well. -/
theorem wrapFcntlDupfd_eq (env : ClientEnv) (s : Descriptors) (fd : Int) (answer : Option Nat) :
    wrapFcntlDupfd env s fd answer = wrapDup env s fd answer := by
  unfold wrapFcntlDupfd wrapDup Descriptors.realDup
  dsimp only
  split
  · exact if_pos (by dsimp only; omega)
  · rw [clientOp_dup]
    rfl

theorem fdPath_close (cwd : Option Bytes) (t : FdTables) (oldfd : Int) (n : Nat) :
    fdPath cwd (pseudoClientClose t n) oldfd =
      if oldfd = n then none else fdPath cwd t oldfd := by
  unfold fdPath
  rw [pathOf_fdPaths_close]
  rcases Int.lt_or_le oldfd 0 with hneg | hpos
  · have hne : oldfd ≠ n := by omega
    have hnot : ¬ 0 ≤ oldfd := by omega
    rw [if_neg hne, if_neg hnot, if_neg hnot]
  · rw [if_pos hpos, if_pos hpos]
    exact if_congr (by omega) rfl rfl

/-- Closing the new descriptor first means that nothing is copied from it onto itself. -/
theorem follows_closed_iff {host : Nat → Option Description} (h : s.Follows) (env : ClientEnv)
    (oldfd : Int) (n : Nat) (hhost : host = Function.update s.host n d) :
    (Descriptors.clientOp ⟨pseudoClientClose s.tables n, host⟩ env
        { op := .dup, fd := oldfd, dirfd := n, path := none, buf := none }).Follows ↔
      EntryFits d (if oldfd = n then none else fdPath env.cwd s.tables oldfd) := by
  rw [clientOp_dup]
  dsimp only
  rw [fdPath_close]
  refine follows_update_iff h ((pathOf_pathSet _ n _ n).trans (if_pos rfl)) (fun m hm => ?_) hhost
  have hne : (n : Int) ≠ m := by omega
  exact (pathOf_pathSet _ n _ m).trans
    ((if_neg hne).trans ((pathOf_fdPaths_close _ n m).trans (if_neg hne)))

theorem realDup_none (s : Descriptors) (fd : Int) : s.realDup fd none = (s, -1) := by
  unfold Descriptors.realDup
  cases s.description fd <;> rfl

theorem follows_wrapDup2_iff (h : s.Follows) (env : ClientEnv) (oldfd newfd : Int) (ok : Bool) :
    (wrapDup2 env s oldfd newfd ok).Follows ↔ s.Keeps env (.dup2 oldfd newfd ok) := by
  unfold wrapDup2 Descriptors.realDup2 Descriptors.Keeps
  rw [clientOp_close]
  dsimp only
  rcases Int.lt_or_le newfd 0 with hneg | hpos
  · refine iff_of_true (fun n => ?_) (.inl hneg)
    rw [if_neg (by omega), realDup_none, clientOp_dup]
    have hentry : pathOf (pseudoClientPath (pseudoClientClose s.tables newfd) newfd
        (fdPath env.cwd (pseudoClientClose s.tables newfd) oldfd)).fdPaths n =
        pathOf s.tables.fdPaths n :=
      (pathOf_pathSet _ newfd _ n).trans ((if_neg (by omega)).trans
        ((pathOf_fdPaths_close _ newfd n).trans (if_neg (by omega))))
    dsimp only
    rw [hentry]
    exact h n
  · obtain ⟨n, rfl⟩ := Int.eq_ofNat_of_zero_le hpos
    have hdesc : (Descriptors.mk (pseudoClientClose s.tables n) s.host).description oldfd =
        s.description oldfd := rfl
    have hfails := follows_closed_iff h env oldfd n (Function.update_eq_self n s.host).symm
    unfold Descriptors.realDup
    rw [or_iff_right (by omega), description_natCast, hdesc]
    cases hd : s.description oldfd with
    | none =>
      have hclosed : ¬ (ok = true ∧ (none : Option Description).isSome = true) := by simp
      rw [if_neg hclosed]
      exact hfails
    | some d =>
      cases ok with
      | false =>
        rw [if_neg (fun hok => by cases hok.1), if_neg (fun hok => by cases hok.1)]
        exact hfails
      | true =>
        rw [if_pos ⟨rfl, hpos⟩, if_pos ⟨rfl, rfl⟩]
        refine (follows_closed_iff h env oldfd n rfl).trans ?_
        rw [← hd]
        rcases Decidable.em (oldfd = n) with rfl | hne
        · rw [if_pos rfl, imp_iff_right rfl, description_natCast]
        · rw [if_neg hne]
          exact iff_of_true (fits_fdPath h (by rw [hd]; rfl) env.cwd) (fun heq => absurd heq hne)

theorem follows_step_iff (h : s.Follows) (env : ClientEnv) {call : FdCall} (hcall : call.Valid) :
    (s.step env call).Follows ↔ s.Keeps env call := by
  cases call with
  | openat path tmpfile buf answer =>
    exact iff_of_true (follows_wrapOpenat h env hcall tmpfile buf answer) trivial
  | close fd released => exact follows_wrapClose_iff h env fd released
  | dup fd answer => exact iff_of_true (follows_wrapDup h env fd answer) trivial
  | dup2 oldfd newfd ok => exact follows_wrapDup2_iff h env oldfd newfd ok
  | fcntlDupfd fd answer =>
    refine iff_of_true ?_ trivial
    unfold Descriptors.step
    dsimp only
    rw [wrapFcntlDupfd_eq]
    exact follows_wrapDup h env fd answer

end DescriptorsLemmas

open DescriptorsLemmas FdTablesLemmas

/-- The open-file table follows the descriptors through a run exactly when each of its calls keeps
them together. -/
theorem table_follows_iff (env : ClientEnv) {s : Descriptors} (h : s.Follows)
    {calls : List FdCall} (hcalls : ∀ call ∈ calls, call.Valid) :
    (∀ pre, pre <+: calls → (Run.run (Descriptors.step env) s pre).Follows) ↔
      Run.Guarded (Descriptors.step env) (Descriptors.Keeps env) s calls :=
  (Run.guarded_iff_of_valid (P := Descriptors.Follows) (I := fun _ => True) hcalls (fun _ _ _ _ _ => trivial)
    (fun _ _ hcall _ hs => follows_step_iff hs env hcall) trivial h).symm

/-- A process in which nothing is open but a terminal as its standard streams. -/
def exDescriptors : Descriptors where
  tables := ⟨[], []⟩
  host n := if n < 3 then some ⟨none⟩ else none

theorem follows_exDescriptors : exDescriptors.Follows := by
  intro n
  unfold exDescriptors
  dsimp only
  rw [pathOf_of_length_le (Nat.zero_le n)]
  split <;> trivial

/-- An open file is duplicated in three ways, and closed. -/
theorem table_follows_copies :
    (Run.run (Descriptors.step exEnv) exDescriptors
      [.openat (ascii ['/', 'a']) false none (some 3), .dup 3 (some 4), .dup2 3 1 true,
        .fcntlDupfd 3 (some 10), .dup (-1) none, .close 3 true]).Follows :=
  (table_follows_iff exEnv follows_exDescriptors (by decide)).mpr (by decide) _ List.prefix_rfl

/-- A duplication onto the same descriptor takes away its path; one that fails for an invalid
descriptor takes away the path of the other, or gives a path to a closed descriptor. -/
theorem dup2_loses_path :
    ¬ (∀ pre, pre <+: [FdCall.openat (ascii ['/', 'a']) false none (some 3), .dup2 3 3 true] →
      (Run.run (Descriptors.step exEnv) exDescriptors pre).Follows) ∧
    ¬ (∀ pre, pre <+: [FdCall.openat (ascii ['/', 'a']) false none (some 3), .dup2 9 3 false] →
      (Run.run (Descriptors.step exEnv) exDescriptors pre).Follows) ∧
    ¬ (∀ pre, pre <+: [FdCall.openat (ascii ['/', 'a']) false none (some 3),
        .dup2 3 50 false] →
      (Run.run (Descriptors.step exEnv) exDescriptors pre).Follows) := by
  refine ⟨fun h => ?_, fun h => ?_, fun h => ?_⟩
  · exact absurd (h _ (List.prefix_refl _) 3) (by decide)
  · exact absurd (h _ (List.prefix_refl _) 3) (by decide)
  · exact absurd (h _ (List.prefix_refl _) 50) (by decide)

end Pseudo

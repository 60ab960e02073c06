import Pseudo.Library.Run
import Pseudo.Library.Stacks

/-!
# The callbacks of nftw

`nftw_wrapper_base.c` keeps the callbacks of all running `nftw` calls, of all threads, in one array.
A call appends its callback and deletes it when it is done; in between, the C library calls
`wrap_callback`, which looks for the last callback of its thread.

Results:
1. `find_eq`, `delete_eq`: what the loops do, on the array split at the thread's last entry.
2. `nested_trace`: a thread never looks for a callback, or deletes one, outside its calls.
3. `stack_storage`: along every interleaving, what the array holds of a thread is the thread's stack
   of running calls.
4. `nftw_serves`: so every callback reaches its own caller.
-/

namespace Pseudo

/-! ## 1. The storage -/

/-- An entry of the array: what the call was given, and its thread. -/
structure NftwEntry (Callback Tid : Type) where
  callback : Callback
  flags : Int
  tid : Tid
  deriving DecidableEq, Repr

section Storage
variable {Callback Tid : Type} [DecidableEq Tid]

/-- The loops that look for the thread's last entry, below the index they have come to. -/
def lastIndex (tid : Tid) (array : List (NftwEntry Callback Tid)) : Nat → Option Nat
  | 0 => none
  | i + 1 =>
    if (array[i]?).any (·.tid = tid) then some i else lastIndex tid array i

/-- `NFTW_APPEND_FN_NAME`. -/
def nftwAppend (array : List (NftwEntry Callback Tid)) (data : NftwEntry Callback Tid) :
    List (NftwEntry Callback Tid) := array ++ [data]

/-- `NFTW_FIND_FN_NAME`: the entry that is copied to `target`. -/
def nftwFind (array : List (NftwEntry Callback Tid)) (tid : Tid) :
    Option (NftwEntry Callback Tid) :=
  (lastIndex tid array array.length).bind fun i => array[i]?

/-- `array[i - 1] = array[i]`. -/
def shiftEntry (array : List (NftwEntry Callback Tid)) (i : Nat) :
    List (NftwEntry Callback Tid) :=
  match array[i]? with
  | some entry => array.set (i - 1) entry
  | none => array

/-- The loop over the entries behind `found_idx`, and the `realloc`. -/
def deleteAt (array : List (NftwEntry Callback Tid)) (foundIdx : Nat) :
    List (NftwEntry Callback Tid) :=
  (Run.run shiftEntry array (List.range' (foundIdx + 1) (array.length - (foundIdx + 1)))).take
    (array.length - 1)

/-- `NFTW_DELETE_FN_NAME`; `none`: "Invalid callback storage content, can't find corresponding
data". -/
def nftwDelete (array : List (NftwEntry Callback Tid)) (tid : Tid) :
    Option (List (NftwEntry Callback Tid)) :=
  match array with
  | [entry] => if entry.tid = tid then some [] else none
  | array => (lastIndex tid array array.length).map (deleteAt array)

end Storage

/-! ## 2. The calls -/

/-- What a thread does to the storage. -/
inductive NftwAction (Callback : Type)
  | append (callback : Callback) (flags : Int)
  | find
  | delete
  deriving DecidableEq, Repr

/-- What happens inside an `nftw` call: callbacks, and further calls that they make. -/
inductive NftwWalk (Callback : Type)
  | done
  | callback (rest : NftwWalk Callback)
  | nftw (fn : Callback) (flag : Int) (inside rest : NftwWalk Callback)

variable {Callback Tid : Type}

/-- `NFTW_WRAP_NAME` around a walk. -/
def nftwTrace : NftwWalk Callback → List (NftwAction Callback)
  | .done => []
  | .callback rest => .find :: nftwTrace rest
  | .nftw fn flag inside rest =>
    .append fn flag :: (nftwTrace inside ++ .delete :: nftwTrace rest)

/-- A thread that makes `nftw` calls, one after the other. -/
def threadTrace (calls : List (Callback × Int × NftwWalk Callback)) :
    List (NftwAction Callback) :=
  calls.flatMap fun call => nftwTrace (.nftw call.1 call.2.1 call.2.2 .done)

/-- One step of one thread. -/
structure NftwStep (Callback Tid : Type) where
  tid : Tid
  action : NftwAction Callback
  deriving DecidableEq, Repr

variable [DecidableEq Tid]

/-- The array after a step; a delete that finds nothing leaves it. -/
def nftwStep (array : List (NftwEntry Callback Tid)) (step : NftwStep Callback Tid) :
    List (NftwEntry Callback Tid) :=
  match step.action with
  | .append callback flags => nftwAppend array ⟨callback, flags, step.tid⟩
  | .find => array
  | .delete => (nftwDelete array step.tid).getD array

/-- The array after some steps. -/
def storage (steps : List (NftwStep Callback Tid)) : List (NftwEntry Callback Tid) :=
  Run.run nftwStep [] steps

/-- What one thread did. -/
def actionsOf (steps : List (NftwStep Callback Tid)) (tid : Tid) : List (NftwAction Callback) :=
  (steps.filter (·.tid = tid)).map (·.action)

/-- The threads' steps in some order, each thread somewhere in its calls. -/
def Interleaved (calls : Tid → List (Callback × Int × NftwWalk Callback))
    (steps : List (NftwStep Callback Tid)) : Prop :=
  ∀ tid, actionsOf steps tid <+: threadTrace (calls tid)

/-- The calls of a thread that are still running, the innermost first. -/
def runningStep (running : List (Callback × Int)) :
    NftwAction Callback → List (Callback × Int)
  | .append callback flags => (callback, flags) :: running
  | .find => running
  | .delete => running.tail

def running (steps : List (NftwStep Callback Tid)) (tid : Tid) : List (Callback × Int) :=
  Run.run runningStep [] (actionsOf steps tid)

/-! ## 3. The loops -/

namespace NftwLemmas

open Stacks

section Loops
variable {before after : List (NftwEntry Callback Tid)} {entry : NftwEntry Callback Tid}

theorem lastIndex_eq (h : ∀ x ∈ after, x.tid ≠ entry.tid) :
    lastIndex entry.tid (before ++ entry :: after) (before ++ entry :: after).length =
      some before.length := by
  -- the loop comes down through the entries behind
  have hdown : ∀ n ≤ after.length, lastIndex entry.tid (before ++ entry :: after)
      (before.length + 1 + n) = some before.length := by
    intro n
    induction n with
    | zero =>
      intro _
      rw [Nat.add_zero, lastIndex, List.getElem?_append_right (Nat.le_refl _), Nat.sub_self]
      simp
    | succ n ih =>
      intro hn
      have hat : (before ++ entry :: after)[before.length + 1 + n]? = some after[n] := by
        rw [List.getElem?_append_right (by omega),
          show before.length + 1 + n - before.length = n + 1 by omega, List.getElem?_cons_succ,
          List.getElem?_eq_getElem]
      rw [← Nat.add_assoc, lastIndex, hat, if_neg]
      · exact ih (Nat.le_of_succ_le hn)
      · simpa using h after[n] (List.getElem_mem _)
  rw [List.length_append, List.length_cons, Nat.add_comm after.length, ← Nat.add_assoc]
  exact hdown after.length (Nat.le_refl _)

/-- The entry that is found. -/
theorem find_eq (h : ∀ x ∈ after, x.tid ≠ entry.tid) :
    nftwFind (before ++ entry :: after) entry.tid = some entry := by
  rw [nftwFind, lastIndex_eq h, Option.bind_some, List.getElem?_append_right (Nat.le_refl _),
    Nat.sub_self, List.getElem?_cons_zero]

omit [DecidableEq Tid] in
/-- The entries behind move up by one. -/
theorem deleteAt_eq : deleteAt (before ++ entry :: after) before.length = before ++ after := by
  unfold deleteAt
  have hlen : (before ++ entry :: after).length - (before.length + 1) = after.length := by
    rw [List.length_append, List.length_cons]
    omega
  rw [hlen]
  have hlast : (before ++ entry :: after).length - 1 = (before ++ after).length := by
    simp only [List.length_append, List.length_cons]
    omega
  rw [hlast]
  clear hlen hlast
  induction after generalizing before entry with
  | nil => simp
  | cons x after ih =>
    have hstep : shiftEntry (before ++ entry :: x :: after) (before.length + 1) =
        before ++ [x] ++ x :: after := by
      have hat : (before ++ entry :: x :: after)[before.length + 1]? = some x := by
        rw [List.getElem?_append_right (by omega)]
        simp
      rw [shiftEntry, hat]
      simp [List.set_append_right]
    have hlen : before.length + 1 = (before ++ [x]).length := by simp
    rw [List.length_cons, List.range'_succ, Run.run_cons, hstep, List.append_cons before x after,
      hlen]
    exact ih

/-- The delete takes out the thread's last entry. -/
theorem delete_eq (h : ∀ x ∈ after, x.tid ≠ entry.tid) :
    nftwDelete (before ++ entry :: after) entry.tid = some (before ++ after) := by
  unfold nftwDelete
  split
  · rename_i e heq
    cases before with
    | nil =>
      obtain ⟨rfl, rfl⟩ := List.cons.inj heq
      rw [if_pos rfl]
      rfl
    | cons b before =>
      have hnil := (List.cons.inj heq).2
      simp at hnil
  · rw [lastIndex_eq h, Option.map_some, deleteAt_eq]

end Loops

/-! ## 4. The threads -/

/-- A find or a delete comes inside a call. -/
def runningOk (running : List (Callback × Int)) : NftwAction Callback → Prop
  | .append _ _ => True
  | .find => running ≠ []
  | .delete => running ≠ []

/-- A walk inside a call keeps to it, and leaves the same calls running. -/
theorem nested_trace (walk : NftwWalk Callback) {calls : List (Callback × Int)}
    (h : calls ≠ []) :
    Run.Guarded runningStep runningOk calls (nftwTrace walk) ∧
      Run.run runningStep calls (nftwTrace walk) = calls := by
  induction walk generalizing calls with
  | done => exact ⟨trivial, rfl⟩
  | callback rest ih => exact ⟨⟨h, (ih h).1⟩, (ih h).2⟩
  | nftw fn flag inside rest ihinside ihrest =>
    obtain ⟨hin, hrun⟩ := @ihinside ((fn, flag) :: calls) (List.cons_ne_nil _ _)
    obtain ⟨hrest, hrunrest⟩ := ihrest h
    refine ⟨⟨trivial, Run.guarded_append.mpr ⟨hin, ?_⟩⟩, ?_⟩
    · show Run.Guarded _ _ (Run.run runningStep _ (nftwTrace inside)) _
      rw [runningStep, hrun]
      exact ⟨List.cons_ne_nil _ _, hrest⟩
    · rw [nftwTrace, Run.run_cons, runningStep, Run.run_append, hrun]
      exact hrunrest

theorem nested_threadTrace (calls : List (Callback × Int × NftwWalk Callback)) :
    Run.Guarded runningStep runningOk [] (threadTrace calls) := by
  induction calls with
  | nil => trivial
  | cons call calls ih =>
    obtain ⟨fn, flag, inside⟩ := call
    obtain ⟨hin, hrun⟩ := @nested_trace Callback inside [(fn, flag)] (List.cons_ne_nil _ _)
    refine ⟨trivial, ?_⟩
    show Run.Guarded _ _ [(fn, flag)] (nftwTrace inside ++ [.delete] ++ threadTrace calls)
    rw [List.append_assoc, Run.guarded_append, hrun]
    exact ⟨hin, List.cons_ne_nil _ _, ih⟩

section Steps
variable {calls : Tid → List (Callback × Int × NftwWalk Callback)}
  {steps before : List (NftwStep Callback Tid)} {step : NftwStep Callback Tid}

theorem actionsOf_concat_self :
    actionsOf (before ++ [step]) step.tid = actionsOf before step.tid ++ [step.action] := by
  simp [actionsOf, List.filter_append]

theorem actionsOf_concat_other {tid : Tid} (h : step.tid ≠ tid) :
    actionsOf (before ++ [step]) tid = actionsOf before tid := by
  simp [actionsOf, List.filter_append, h]

theorem interleaved_begins (h : Interleaved calls steps) (hpre : before <+: steps) :
    Interleaved calls before :=
  fun tid => ((hpre.filter _).map _).trans (h tid)

/-- The next step of a thread comes inside a call if it has to. -/
theorem running_ok (h : Interleaved calls (before ++ [step])) :
    runningOk (running before step.tid) step.action := by
  obtain ⟨rest, hrest⟩ := h step.tid
  have hguarded := nested_threadTrace (calls step.tid)
  rw [← hrest, actionsOf_concat_self, Run.guarded_append, Run.guarded_append] at hguarded
  exact hguarded.1.2.1

/-- The innermost call of the thread is its last entry. -/
theorem exists_innermost {array : List (NftwEntry Callback Tid)} {tid : Tid}
    {calls : List (Callback × Int)}
    (h : (stack (·.tid) array tid).map (fun e => (e.callback, e.flags)) = calls)
    (hne : calls ≠ []) :
    ∃ front entry back, array = front ++ entry :: back ∧ entry.tid = tid ∧
      (∀ x ∈ back, x.tid ≠ entry.tid) ∧ calls.head? = some (entry.callback, entry.flags) ∧
      (stack (·.tid) (front ++ back) tid).map (fun e => (e.callback, e.flags)) = calls.tail := by
  have hstack : stack (·.tid) array tid ≠ [] := by
    intro hnil
    rw [hnil] at h
    exact hne h.symm
  obtain ⟨front, entry, back, rfl, rfl, hback⟩ := exists_last hstack
  rw [stack_top hback, List.map_cons] at h
  exact ⟨front, entry, back, rfl, rfl, hback, by rw [← h]; rfl, by rw [← h]; rfl⟩

/-- What one step does to the stacks in the array. -/
theorem stack_step {array : List (NftwEntry Callback Tid)}
    (h : ∀ tid, (stack (·.tid) array tid).map (fun e => (e.callback, e.flags)) =
      running before tid)
    (hok : runningOk (running before step.tid) step.action) (tid : Tid) :
    (stack (·.tid) (nftwStep array step) tid).map (fun e => (e.callback, e.flags)) =
      running (before ++ [step]) tid := by
  obtain ⟨self, action⟩ := step
  by_cases htid : self = tid
  · subst htid
    rw [running, actionsOf_concat_self, Run.run_append, ← running, ← h self]
    cases action with
    | append callback flags =>
      have hpush := @stack_concat_self _ _ _ (·.tid) array
        (⟨callback, flags, self⟩ : NftwEntry Callback Tid)
      show (stack (·.tid) (array ++ [⟨callback, flags, self⟩]) self).map _ = _
      rw [hpush]
      rfl
    | find => rfl
    | delete =>
      obtain ⟨front, entry, back, rfl, htid, hback, -, hrest⟩ := exists_innermost (h self) hok
      subst htid
      rw [nftwStep, delete_eq hback, Option.getD_some, hrest, ← h]
      rfl
  · rw [running, @actionsOf_concat_other _ _ _ _ ⟨self, action⟩ tid htid, ← running, ← h tid]
    cases action with
    | append callback flags =>
      show (stack (·.tid) (array ++ [⟨callback, flags, self⟩]) tid).map _ = _
      rw [stack_concat_other (by exact htid)]
    | find => rfl
    | delete =>
      obtain ⟨front, entry, back, rfl, rfl, hback, -, -⟩ := exists_innermost (h self) hok
      rw [nftwStep, delete_eq hback, Option.getD_some, stack_other htid]

/-- Along an interleaving, the array holds each thread's running calls. -/
theorem stack_storage (h : Interleaved calls before) (tid : Tid) :
    (stack (·.tid) (storage before) tid).map (fun e => (e.callback, e.flags)) =
      running before tid := by
  induction before using List.reverseRecOn generalizing tid with
  | nil => rfl
  | append_singleton before step ih =>
    have hbefore := ih (interleaved_begins h (List.prefix_append before [step]))
    rw [storage, Run.run_append]
    exact stack_step hbefore (running_ok h) tid

end Steps

end NftwLemmas

open NftwLemmas

/-- What the storage does for the threads along some steps. -/
structure Serves (steps : List (NftwStep Callback Tid)) : Prop where
  /-- A callback finds the innermost call of its thread. -/
  finds : ∀ before tid, before ++ [⟨tid, .find⟩] <+: steps → ∃ entry,
    nftwFind (storage before) tid = some entry ∧
      (running before tid).head? = some (entry.callback, entry.flags)
  /-- A delete takes out that call's entry. -/
  deletes : ∀ before tid, before ++ [⟨tid, .delete⟩] <+: steps → ∃ front entry back,
    storage before = front ++ entry :: back ∧ entry.tid = tid ∧
      (running before tid).head? = some (entry.callback, entry.flags) ∧
      (∀ x ∈ back, x.tid ≠ tid) ∧ nftwDelete (storage before) tid = some (front ++ back)
  /-- The entries of the other threads stay as they are. -/
  keeps : ∀ before step, before ++ [step] <+: steps →
    (storage (before ++ [step])).filter (·.tid ≠ step.tid) =
      (storage before).filter (·.tid ≠ step.tid)
  /-- Nothing is left behind. -/
  empty : ∀ before, before <+: steps → (∀ tid, running before tid = []) → storage before = []

/-- Along every interleaving of threads that make `nftw` calls, every callback reaches its own
caller. -/
theorem nftw_serves (calls : Tid → List (Callback × Int × NftwWalk Callback))
    (steps : List (NftwStep Callback Tid)) (h : Interleaved calls steps) : Serves steps := by
  have hinner : ∀ {before : List (NftwStep Callback Tid)} {step : NftwStep Callback Tid},
      before ++ [step] <+: steps → running before step.tid ≠ [] →
      ∃ front entry back, storage before = front ++ entry :: back ∧ entry.tid = step.tid ∧
        (∀ x ∈ back, x.tid ≠ entry.tid) ∧
        (running before step.tid).head? = some (entry.callback, entry.flags) := by
    intro before step hpre hne
    have hbefore := interleaved_begins h ((List.prefix_append before [step]).trans hpre)
    obtain ⟨front, entry, back, heq, htid, hback, hhead, -⟩ :=
      exists_innermost (stack_storage hbefore step.tid) hne
    exact ⟨front, entry, back, heq, htid, hback, hhead⟩
  refine ⟨fun before tid hpre => ?_, fun before tid hpre => ?_, fun before step hpre => ?_,
    fun before hpre hrunning => ?_⟩
  · obtain ⟨front, entry, back, heq, rfl, hback, hhead⟩ :=
      hinner hpre (running_ok (interleaved_begins h hpre))
    exact ⟨entry, by rw [heq]; exact find_eq hback, hhead⟩
  · obtain ⟨front, entry, back, heq, rfl, hback, hhead⟩ :=
      hinner hpre (running_ok (interleaved_begins h hpre))
    exact ⟨front, entry, back, heq, rfl, hhead, hback, by rw [heq]; exact delete_eq hback⟩
  · have hok := running_ok (interleaved_begins h hpre)
    obtain ⟨self, action⟩ := step
    rw [storage, Run.run_append, ← storage]
    cases action with
    | append callback flags =>
      show (storage before ++ [_]).filter _ = _
      rw [List.filter_append]
      simp
    | find => rfl
    | delete =>
      obtain ⟨front, entry, back, heq, rfl, hback, -⟩ := hinner hpre hok
      show ((nftwDelete (storage before) entry.tid).getD (storage before)).filter _ = _
      rw [heq, delete_eq hback]
      simp [List.filter_append]
  · refine (@Stacks.eq_nil_iff _ _ _ (·.tid) _).mpr fun tid => ?_
    have hstack := stack_storage (interleaved_begins h hpre) tid
    rw [hrunning tid] at hstack
    exact List.map_eq_nil_iff.mp hstack

/-- One thread makes a call from a callback of its own, the other thread makes one call. -/
def exNftwCalls : Bool → List (Char × Int × NftwWalk Char)
  | false => [('a', 0, .callback (.nftw 'b' 1 (.callback .done) .done))]
  | true => [('c', 2, .callback .done)]

/-- Their steps in one of the possible orders. -/
def exNftwSteps : List (NftwStep Char Bool) :=
  [⟨false, .append 'a' 0⟩, ⟨true, .append 'c' 2⟩, ⟨false, .find⟩, ⟨false, .append 'b' 1⟩,
    ⟨false, .find⟩, ⟨true, .find⟩, ⟨false, .delete⟩, ⟨true, .delete⟩, ⟨false, .delete⟩]

theorem nftw_serves_two : storage exNftwSteps = [] :=
  (nftw_serves exNftwCalls exNftwSteps (fun tid => by cases tid <;> decide)).empty exNftwSteps
    List.prefix_rfl (fun tid => by cases tid <;> decide)

end Pseudo

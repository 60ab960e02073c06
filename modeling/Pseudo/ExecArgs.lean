import Mathlib.Data.List.Basic
import Pseudo.Library.Heap

/-!
# The arguments of `execl`, `execlp` and `execle`

`execl_to_v` copies the variadic arguments, up to the null pointer, into an array that it lets grow
as it goes, and may take the environment from behind them. The three wrappers pass the array on.
The counts are those of elements of 8 bytes, so that their sums stay far below `2^64`.

Results:
1. `execLoop_spec`: what the loop leaves, from any point of the copy on.
2. `execlToV_complete`: what the function returns.
3. `variadicExec_eq`: what the wrappers call, and with which arguments.
-/

namespace Pseudo

open Heap

/-! ## 1. The code -/

/-- A pointer that is passed as an argument; the null pointer is 0. -/
abbrev ArgPtr := BitVec 64

/-- The array, and `*envp` where it was asked for. -/
structure ExecArgs where
  argv : Chunk ArgPtr 8
  envp : Option ArgPtr

/-- `va_arg`: it is undefined behind the last argument. -/
def vaArg : List ArgPtr → Except Failure (ArgPtr × List ArgPtr)
  | [] => .error .undefined
  | arg :: ap => .ok (arg, ap)

/-- `while (argv[i-1])`, and the arguments that are left. -/
def execLoop (m : Malloc ArgPtr) (i allocSize : Nat) (argv : Chunk ArgPtr 8)
    (ap : List ArgPtr) : Except Failure (Chunk ArgPtr 8 × List ArgPtr) := do
  let last ← argv.load (i - 1)
  if last = 0 then .ok (argv, ap)
  else
    match ap with
    | [] => .error .undefined
    | arg :: ap =>
      let argv ← argv.store i [arg]
      if allocSize - 1 < i + 1 then
        let argv ← m.realloc argv (allocSize + 256)
        execLoop m (i + 1) (allocSize + 256) argv ap
      else execLoop m (i + 1) allocSize argv ap

/-- `envp`: whether the pointer is not null. Without memory the function returns `NULL`. -/
def execlToV (m : Malloc ArgPtr) (ap : List ArgPtr) (argv0 : ArgPtr) (envp : Bool) :
    Except Failure ExecArgs := do
  let argv ← m.alloc 8 256
  let argv ← argv.store 0 [argv0]
  let (argv, ap) ← execLoop m 1 256 argv ap
  if envp then
    let (env, _) ← vaArg ap
    .ok ⟨argv, some env⟩
  else .ok ⟨argv, none⟩

/-- Whether `pseudo_check_wrappers` and `pseudo_getlock` let the wrapper go on. -/
structure ExeclHost where
  wrappers : Bool
  lock : Bool
  deriving DecidableEq, Repr

/-- What a wrapper does: it returns with `errno` set, or it calls the wrapped function. -/
inductive ExeclOutcome
  | enosys
  | enomem
  | ebusy
  | execv (file : ArgPtr) (argv : Chunk ArgPtr 8)
  | execvp (file : ArgPtr) (argv : Chunk ArgPtr 8)
  | execve (file : ArgPtr) (argv : Chunk ArgPtr 8) (envp : Option ArgPtr)

section

variable (host : ExeclHost) (m : Malloc ArgPtr)

/-- A wrapper; `envp`: whether it asks for the environment. -/
def variadicExec (envp : Bool) (next : ExecArgs → ExeclOutcome) (arg : ArgPtr)
    (ap : List ArgPtr) : Except Failure ExeclOutcome :=
  if host.wrappers then
    match execlToV m ap arg envp with
    | .error .noMemory => .ok .enomem
    | .error e => .error e
    | .ok args => .ok (if host.lock then next args else .ebusy)
  else .ok .enosys

def execl (file arg : ArgPtr) (ap : List ArgPtr) : Except Failure ExeclOutcome :=
  variadicExec host m false (fun args => .execv file args.argv) arg ap

def execlp (file arg : ArgPtr) (ap : List ArgPtr) : Except Failure ExeclOutcome :=
  variadicExec host m false (fun args => .execvp file args.argv) arg ap

def execle (file arg : ArgPtr) (ap : List ArgPtr) : Except Failure ExeclOutcome :=
  variadicExec host m true (fun args => .execve file args.argv args.envp) arg ap

end

/-! ## 2. The loop -/

variable {m : Malloc ArgPtr} {argv : Chunk ArgPtr 8} {ap args done rest : List ArgPtr}
  {argv0 last arg : ArgPtr} {i allocSize : Nat}

/-- Before each test of the loop: the array holds what has been copied, of which `last` is the last,
and there is room for one more. -/
structure ArgsCopied (argv : Chunk ArgPtr 8) (allocSize : Nat) (done : List ArgPtr)
    (last : ArgPtr) : Prop where
  filled : Filled argv (done ++ [last])
  size : argv.size = allocSize
  room : done.length + 1 < allocSize

namespace ExecArgsLemmas

theorem load_last (h : ArgsCopied argv allocSize done last) :
    argv.load (done.length + 1 - 1) = .ok last := by
  rw [Nat.add_sub_cancel]
  exact h.filled.load

/-- The loop body: the next argument, and more room if that was the last place. -/
theorem copied_step (h : ArgsCopied argv allocSize done last) (arg : ArgPtr) :
    ∃ argv', argv.store (done.length + 1) [arg] = .ok argv' ∧
      (¬ allocSize - 1 < done.length + 1 + 1 →
        ArgsCopied argv' allocSize (done ++ [last]) arg) ∧
      (m.realloc argv' (allocSize + 256) = .error .noMemory ∨
        ∃ grown, m.realloc argv' (allocSize + 256) = .ok grown ∧
          ArgsCopied grown (allocSize + 256) (done ++ [last]) arg) := by
  have hlen : (done ++ [last]).length = done.length + 1 := by simp
  have hroom := h.room
  have hsize := h.size
  obtain ⟨argv', hstore, hsize', hfilled⟩ :=
    h.filled.store (t := [arg]) (by rw [hlen, List.length_singleton]; omega)
  rw [hlen] at hstore
  have hlong : (done ++ [last] ++ [arg]).length = done.length + 2 := by simp
  refine ⟨argv', hstore, fun hfit => ⟨hfilled, hsize'.trans hsize, by omega⟩, ?_⟩
  have hbytes := argv'.size_lt
  rcases realloc_spec (m := m) (n := allocSize + 256) (by omega) (by omega) hfilled (by omega)
    with hno | ⟨grown, hgrown, hsize'', hfilled'⟩
  · exact .inl hno
  · exact .inr ⟨grown, hgrown, hfilled', hsize'', by omega⟩

end ExecArgsLemmas

open ExecArgsLemmas

/-- The loop stops at the first null pointer, behind which it leaves the arguments. -/
theorem execLoop_spec (h : ArgsCopied argv allocSize done last)
    (hargs : last :: ap = args ++ 0 :: rest) (hnull : 0 ∉ args) :
    execLoop m (done.length + 1) allocSize argv ap = .error .noMemory ∨
      ∃ argv', execLoop m (done.length + 1) allocSize argv ap = .ok (argv', rest) ∧
        Filled argv' (done ++ args ++ [0]) := by
  -- `last` is the head of what is still to come
  induction args generalizing argv allocSize done last ap with
  | nil =>
    obtain ⟨rfl, rfl⟩ := List.cons.inj hargs
    refine .inr ⟨argv, ?_, by rw [List.append_nil]; exact h.filled⟩
    rw [execLoop.eq_def, load_last h]
    rfl
  | cons last' args ih =>
    obtain ⟨rfl, hap⟩ := List.cons.inj hargs
    obtain ⟨hlast, hnull⟩ := not_or.mp fun hmem => hnull (List.mem_cons.mpr hmem)
    obtain ⟨arg, ap, rfl⟩ : ∃ arg ap', ap = arg :: ap' := by
      cases ap with
      | nil => exact absurd hap (by simp)
      | cons arg ap => exact ⟨arg, ap, rfl⟩
    obtain ⟨argv', hstore, hsame, hgrow⟩ := copied_step (m := m) h arg
    have hdone : done ++ last :: args = done ++ [last] ++ args := by simp
    have hnext : (done ++ [last]).length + 1 = done.length + 1 + 1 := by simp
    rw [execLoop, load_last h]
    simp only [ok_bind, if_neg (Ne.symm hlast), hstore, hdone]
    rw [← hnext] at hsame ⊢
    split
    · rcases hgrow with hno | ⟨grown, hgrown, hcopied⟩
      · exact .inl (by rw [hno, error_bind])
      · rw [hgrown, ok_bind]
        exact ih hcopied hap hnull
    · next hfit => exact ih (hsame hfit) hap hnull

/-! ## 3. The functions -/

namespace ExecArgsLemmas

/-- There is no memory, or everything is copied and the environment is what follows. -/
theorem copied_all {envp : Bool} (hargs : argv0 :: ap = args ++ 0 :: rest) (hnull : 0 ∉ args)
    (henvp : envp = true → rest ≠ []) :
    execlToV m ap argv0 envp = .error .noMemory ∨
      ∃ argv, Filled argv (args ++ [0]) ∧
        execlToV m ap argv0 envp = .ok ⟨argv, if envp then rest.head? else none⟩ := by
  rw [execlToV]
  rcases alloc_spec m 8 256 (by decide) (by decide) with
    hno | ⟨argv, halloc, hsize⟩
  · exact .inl (by rw [hno, error_bind])
  · obtain ⟨argv', hstore, hsize', hfilled⟩ :=
      (filled_nil argv).store (t := [argv0]) (by simp [hsize])
    have hcopied : ArgsCopied argv' 256 [] argv0 := ⟨hfilled, hsize'.trans hsize, by decide⟩
    rw [List.length_nil] at hstore
    rw [halloc, ok_bind, hstore, ok_bind]
    rcases execLoop_spec (m := m) hcopied hargs hnull with hno | ⟨argv'', hloop, hall⟩
    · rw [List.length_nil, Nat.zero_add] at hno
      exact .inl (by rw [hno, error_bind])
    · rw [List.length_nil, Nat.zero_add] at hloop
      rw [List.nil_append] at hall
      refine .inr ⟨argv'', hall, ?_⟩
      rw [hloop, ok_bind]
      cases envp with
      | false => rfl
      | true =>
        obtain ⟨env, more, rfl⟩ := List.exists_cons_of_ne_nil (henvp rfl)
        rfl

end ExecArgsLemmas

/-- If there is memory, no access is out of bounds, the array is the arguments up to the first null
pointer, and the environment is the argument behind it. -/
theorem execlToV_complete {envp : Bool} (hargs : argv0 :: ap = args ++ 0 :: rest)
    (hnull : 0 ∉ args) (henvp : envp = true → rest ≠ [])
    (hmem : execlToV m ap argv0 envp ≠ .error .noMemory) :
    ∃ argv, Filled argv (args ++ [0]) ∧
      execlToV m ap argv0 envp = .ok ⟨argv, if envp then rest.head? else none⟩ :=
  (copied_all hargs hnull henvp).resolve_left hmem

theorem execlToV_complete_four :
    ∃ argv, Filled argv [1, 2, 3, 0] ∧
      execlToV (.ample 0) [2, 3, 0, 7, 8] 1 true = .ok ⟨argv, some 7⟩ := by
  have hargs : ([1, 2, 3, 0, 7, 8] : List ArgPtr) = [1, 2, 3] ++ 0 :: [7, 8] := rfl
  have hok : (execlToV (.ample 0) [2, 3, 0, 7, 8] 1 true).isOk = true := by decide
  refine execlToV_complete hargs (by decide) (fun _ => List.cons_ne_nil 7 [8]) fun hno => ?_
  rw [hno] at hok
  cases hok

/-- A wrapper that is not turned away calls the wrapped function with all of the arguments, unless
there is no memory. -/
theorem variadicExec_eq {host : ExeclHost} {envp : Bool} (next : ExecArgs → ExeclOutcome)
    (hargs : argv0 :: ap = args ++ 0 :: rest) (hnull : 0 ∉ args) (henvp : envp = true → rest ≠ [])
    (hwrappers : host.wrappers = true) (hlock : host.lock = true) :
    variadicExec host m envp next argv0 ap = .ok .enomem ∨
      ∃ argv, Filled argv (args ++ [0]) ∧
        variadicExec host m envp next argv0 ap =
          .ok (next ⟨argv, if envp then rest.head? else none⟩) := by
  rw [variadicExec, if_pos hwrappers]
  rcases copied_all (m := m) hargs hnull henvp with hno | ⟨argv, hfilled, heq⟩
  · exact .inl (by rw [hno])
  · exact .inr ⟨argv, hfilled, by rw [heq]; exact congrArg Except.ok (if_pos hlock)⟩

end Pseudo

import Pseudo.FixedPoint
import Pseudo.PasswdPaths

/-!
# The cached PATH

`pseudo_exec_path` keeps a copy of `PATH` in which `populate_path_segs` has overwritten every colon,
and reads the elements from where they start in it. The copy is also what the next call compares
`PATH` with.

Results:
1. `execStep_current`, `execStep_stale`: after which calls a right cache is still right.
2. `pseudoExecPath_eq`: a right cache searches the elements of `PATH`.
3. `execPath_current_iff`: in which runs the cache is always right.
-/

namespace Pseudo

/-! ## The cache -/

/-- `previous_path` with what has been overwritten in it, `path_segs`, whose entries point into it,
and `path_lens`. -/
structure ExecCache where
  previousPath : Option Bytes
  pathSegs : Option (List (Option Nat))
  pathLens : Option (List Nat)
  deriving DecidableEq, Repr

/-- A fresh process. -/
def ExecCache.empty : ExecCache := ⟨none, none, none⟩

/-- The second loop of `populate_path_segs`, at the place `s` with `len` characters since the last
start: the buffer from `s` on, the starts that are added, and the lengths. -/
def cutPath : Nat → Nat → Bytes → Bytes × List Nat × List Nat
  | _, len, [] => ([], [], [len])
  | s, len, c :: rest =>
    if c = colon then
      let cut := cutPath (s + 1) 0 rest
      (0 :: cut.1, (s + 1) :: cut.2.1, len :: cut.2.2)
    else
      let cut := cutPath (s + 1) (len + 1) rest
      (c :: cut.1, cut.2)

/-- `populate_path_segs`; `allocated`: there was memory for both arrays and the second copy. -/
def populatePathSegs (allocated : Bool) (c : ExecCache) : ExecCache :=
  match c.previousPath with
  | none => ⟨none, none, none⟩
  | some path =>
    if allocated then
      let cut := cutPath 0 0 path
      { previousPath := some cut.1
        pathSegs := some (some 0 :: cut.2.1.map some ++ [none])
        pathLens := some (cut.2.2 ++ [0]) }
    else ⟨some path, none, none⟩

/-- A call: `PATH` when it is made, its arguments, and whether there is memory for the copy of
`PATH` and for what is made of it. -/
structure ExecCall where
  path : Option Bytes
  filename : Option Bytes
  searchPath : Bool
  copied : Bool
  allocated : Bool
  deriving DecidableEq, Repr

/-- The part of `pseudo_exec_path` that updates the cache. -/
def updateExecCache (c : ExecCache) (call : ExecCall) : ExecCache :=
  match call.path with
  | none => { c with previousPath := none, pathSegs := none }
  | some path =>
    if c.previousPath.map cstr ≠ some path then
      populatePathSegs call.allocated
        { c with previousPath := if call.copied then some path else none }
    else c

/-! ## The search -/

/-- What `pseudo_exec_path` asks outside: the file system, `pseudo_path_max`, `pseudo_cwd`,
`st_mode` by `stat`, and what happens to be in a `len` that `pseudo_fix_path` has not set. -/
structure ExecHost where
  fs : Fs
  pathMax : Nat
  cwd : Bytes
  stat : Bytes → Option (BitVec 64)
  unsetLen : Nat

def ExecHost.fixPath (host : ExecHost) (base path : Bytes) (baselen : Nat) : Option Bytes :=
  (pseudoFixPath host.fs host.pathMax base path 0 baselen false).path path

/-- The length that is stored through `lenp`. -/
def ExecHost.fixedLen (host : ExecHost) (base path : Bytes) (baselen : Nat) : Nat :=
  match pseudoFixPath host.fs host.pathMax base path 0 baselen false with
  | .built newpath => newpath.length
  | _ => host.unsetLen

/-- The candidate in one directory of the list. -/
def ExecHost.candidate (host : ExecHost) (filename path : Bytes) (len : Nat) : Option Bytes :=
  -- empty path or . is cwd
  if path = [] ∨ (path.head? = some dot ∧ len = 1) then
    host.fixPath host.cwd filename host.cwd.length
  else if path.head? = some slash then host.fixPath path filename len
  else
    match host.fixPath host.cwd path host.cwd.length with
    | some dir => host.fixPath dir filename (host.fixedLen host.cwd path host.cwd.length)
    | none => none

/-- `!stat(candidate, &buf) && !S_ISDIR(buf.st_mode) && (buf.st_mode & 0111)`. -/
def ExecHost.executable (host : ExecHost) (candidate : Bytes) : Bool :=
  match host.stat candidate with
  | some mode => !sIsdir mode && mode &&& 0o111 ≠ 0
  | none => false

/-- The loop over `path_segs` and `path_lens`, which ends at the null pointer; `read` is what an
entry points at. -/
def searchSegs (host : ExecHost) (read : Nat → Bytes) (filename : Bytes) :
    List (Option Nat) → List Nat → Bytes
  | some place :: segs, len :: lens =>
    match (host.candidate filename (read place) len).filter host.executable with
    | some candidate => candidate
    | none => searchSegs host read filename segs lens
  -- blind guess being as good as anything
  | _, _ => filename

/-- The element that starts at a place. -/
def ExecCache.read (c : ExecCache) (place : Nat) : Bytes :=
  cstr ((c.previousPath.getD []).drop place)

/-- `pseudo_exec_path`: the cache afterwards, and what is returned. -/
def pseudoExecPath (host : ExecHost) (c : ExecCache) (call : ExecCall) :
    ExecCache × Option Bytes :=
  match call.filename with
  | none => (c, none)
  | some filename =>
    let c := updateExecCache c call
    -- absolute paths just get canonicalized
    if filename.head? = some slash then (c, host.fixPath [] filename 0)
    else
      match c.pathSegs with
      | some segs =>
        if call.searchPath then
          (c, some (searchSegs host c.read filename segs (c.pathLens.getD [])))
        else (c, host.fixPath host.cwd filename host.cwd.length)
      | none => (c, host.fixPath host.cwd filename host.cwd.length)

/-! ## What the cache should be -/

/-- The elements of `PATH`, and behind them the null pointer; a null pointer when it is unset. -/
def ExecCache.Lists (c : ExecCache) : Option Bytes → Prop
  | none => c.pathSegs = none
  | some path => ∃ places : List Nat,
      c.pathSegs = some (places.map some ++ [none]) ∧
      places.map c.read = path.splitOn colon ∧
      c.pathLens = some ((path.splitOn colon).map List.length ++ [0])

/-- The cache, and `PATH` at the last call that updated it. -/
structure ExecState where
  cache : ExecCache
  path : Option Bytes
  deriving DecidableEq, Repr

/-- Before the first call. -/
def ExecState.start : ExecState := ⟨.empty, none⟩

def execStep (host : ExecHost) (s : ExecState) (call : ExecCall) : ExecState where
  cache := (pseudoExecPath host s.cache call).1
  path := if call.filename = none then s.path else call.path

def ExecState.Current (s : ExecState) : Prop := s.cache.Lists s.path

/-- The first element of `PATH`. -/
def firstElement (path : Bytes) : Bytes :=
  (path.splitOn colon).head (List.splitOn_ne_nil colon path)

/-- `PATH` is not what the first of several elements was at the last call; and there is memory,
unless it is as at the last call. -/
def ExecCall.Fresh (last : Option Bytes) (call : ExecCall) : Prop :=
  call.filename ≠ none → ∀ path ∈ call.path,
    if last.map firstElement = some path then last = some path
    else call.copied = true ∧ call.allocated = true

instance (last : Option Bytes) (call : ExecCall) : Decidable (call.Fresh last) :=
  inferInstanceAs (Decidable (_ → ∀ path ∈ call.path, ite _ _ _))

/-- The search of a list of directories. -/
def searchElements (host : ExecHost) (filename : Bytes) : List Bytes → Bytes
  | [] => filename
  | dir :: dirs =>
    match (host.candidate filename dir dir.length).filter host.executable with
    | some candidate => candidate
    | none => searchElements host filename dirs

/-- What a call returns that searches `PATH` itself. -/
def execResult (host : ExecHost) (call : ExecCall) : Option Bytes :=
  call.filename.bind fun filename =>
    if filename.head? = some slash then host.fixPath [] filename 0
    else
      match call.path with
      | some path =>
        if call.searchPath then some (searchElements host filename (path.splitOn colon))
        else host.fixPath host.cwd filename host.cwd.length
      | none => host.fixPath host.cwd filename host.cwd.length

namespace ExecPathLemmas

open Cut

/-! ## The split -/

theorem cutPath_of_not_mem {p : Bytes} (h : colon ∉ p) (s len : Nat) :
    cutPath s len p = (p, [], [len + p.length]) := by
  induction p generalizing s len with
  | nil => rfl
  | cons c p ih =>
    obtain ⟨hc, hp⟩ := List.ne_and_not_mem_of_not_mem_cons h
    rw [cutPath, if_neg (Ne.symm hc), ih hp, List.length_cons]
    simp only [Nat.add_assoc, Nat.add_comm 1]

theorem cutPath_append_cons {p : Bytes} (h : colon ∉ p) (s len : Nat) (text : Bytes) :
    cutPath s len (p ++ colon :: text) =
      (p ++ 0 :: (cutPath (s + p.length + 1) 0 text).1,
        (s + p.length + 1) :: (cutPath (s + p.length + 1) 0 text).2.1,
        (len + p.length) :: (cutPath (s + p.length + 1) 0 text).2.2) := by
  induction p generalizing s len with
  | nil => rfl
  | cons c p ih =>
    obtain ⟨hc, hp⟩ := List.ne_and_not_mem_of_not_mem_cons h
    have hs : s + 1 + p.length = s + (c :: p).length := by
      rw [List.length_cons, Nat.add_assoc, Nat.add_comm 1]
    have hlen : len + 1 + p.length = len + (c :: p).length := by
      rw [List.length_cons, Nat.add_assoc, Nat.add_comm 1]
    rw [List.cons_append, cutPath, if_neg (Ne.symm hc), ih hp, hs, hlen]
    rfl

/-- The buffer is cut at its colons; the starts and the lengths are those of the elements. -/
theorem cutPath_eq (s : Nat) (text : Bytes) :
    (cutPath s 0 text).1 = cut colon 0 text ∧
      s :: (cutPath s 0 text).2.1 = starts s (text.splitOn colon) ∧
      (cutPath s 0 text).2.2 = (text.splitOn colon).map List.length := by
  induction text using pieces_induction colon generalizing s with
  | last p hp =>
    rw [cutPath_of_not_mem hp, cut_of_not_mem hp, List.splitOn_eq_singleton hp]
    simp [starts]
  | piece p text hp ih =>
    obtain ⟨hbuf, hstarts, hlens⟩ := ih (s + p.length + 1)
    rw [cutPath_append_cons hp, cut_append_cons hp, List.splitOn_append_cons_self_of_not_mem hp,
      starts, ← hstarts, List.map_cons, ← hlens, ← hbuf, Nat.zero_add]
    exact ⟨rfl, rfl, rfl⟩

/-- With memory, the elements of `PATH` are listed. -/
theorem populatePathSegs_lists {c : ExecCache} {path : Bytes} (hc : c.previousPath = some path)
    (h : IsCString path) :
    (populatePathSegs true c).previousPath = some (cut colon 0 path) ∧
      (populatePathSegs true c).Lists (some path) := by
  obtain ⟨hbuf, hstarts, hlens⟩ := cutPath_eq 0 path
  have hread := str_starts colon [] [] h (Or.inl rfl)
  rw [List.append_nil, List.nil_append] at hread
  unfold populatePathSegs
  rw [hc]
  simp only [if_true, hbuf, hlens]
  refine ⟨trivial, starts 0 (path.splitOn colon), ?_, hread, rfl⟩
  rw [← hstarts, List.map_cons]

/-- What is left without memory. -/
theorem populatePathSegs_failed {c : ExecCache} {allocated : Bool}
    (h : c.previousPath = none ∨ allocated = false) :
    (populatePathSegs allocated c).pathSegs = none := by
  unfold populatePathSegs
  split
  · rfl
  · rename_i path hpath
    rcases h with h | rfl
    · rw [hpath] at h
      cases h
    · rfl

/-! ## One call -/

/-- A string with the elements of its own first element is that element. -/
theorem eq_of_splitOn_eq {path path' : Bytes} (hfirst : firstElement path = path')
    (h : path.splitOn colon = path'.splitOn colon) : path = path' := by
  have hcolon : colon ∉ path' := by
    obtain ⟨rest, _, _, hsep, _⟩ := cut_eq_head colon 0 path
    exact hfirst ▸ hsep
  have hone : path.splitOn colon = [firstElement path] := by
    rw [h, List.splitOn_eq_singleton hcolon, hfirst]
  have hnot := (splitOn_eq_head_iff colon path).mp hone
  rw [List.splitOn_eq_singleton hnot, List.splitOn_eq_singleton hcolon] at h
  exact (List.cons.inj h).1

/-- The copy is the last `PATH`, cut. -/
structure Copied (s : ExecState) : Prop where
  previous : s.cache.previousPath = s.path.map (cut colon 0)
  text : ∀ path ∈ s.path, IsCString path

section Call
variable {host : ExecHost} {s : ExecState} {call : ExecCall}

theorem execStep_none (h : call.filename = none) : execStep host s call = s := by
  unfold execStep pseudoExecPath
  simp only [h, if_true]

theorem execStep_some (h : call.filename ≠ none) :
    execStep host s call = ⟨updateExecCache s.cache call, call.path⟩ := by
  obtain ⟨filename, hname⟩ := Option.ne_none_iff_exists'.mp h
  unfold execStep pseudoExecPath
  rw [if_neg h, hname]
  refine congrArg (ExecState.mk · call.path) ?_
  dsimp only
  split
  · rfl
  · split
    · split <;> rfl
    · rfl

/-- The string that `PATH` is compared with. -/
theorem Copied.compared (hs : Copied s) :
    s.cache.previousPath.map cstr = s.path.map firstElement := by
  rw [hs.previous, Option.map_map]
  cases hpath : s.path with
  | none => rfl
  | some path =>
    have h := str_cut colon (hs.text path hpath) (Or.inl (rfl : [] = []))
    rw [List.append_nil] at h
    exact congrArg some h

/-- A call after which the cache is right. -/
theorem execStep_current (hs : Copied s) (hcur : s.Current)
    (htext : ∀ path ∈ call.path, IsCString path) (h : call.Fresh s.path) :
    Copied (execStep host s call) ∧ (execStep host s call).Current := by
  by_cases hname : call.filename = none
  · rw [execStep_none hname]
    exact ⟨hs, hcur⟩
  · rw [execStep_some hname]
    cases hpath : call.path with
    | none =>
      unfold updateExecCache ExecState.Current
      rw [hpath]
      exact ⟨⟨rfl, fun _ h => (by cases h)⟩, rfl⟩
    | some path =>
      have hfresh := h hname path hpath
      have htext := htext path hpath
      unfold updateExecCache
      rw [hpath]
      simp only [ne_eq, hs.compared]
      split at hfresh
      · -- nothing to do, `PATH` is as at the last call
        rename_i hsame
        rw [if_neg (not_not.mpr hsame), ← hfresh]
        exact ⟨⟨hs.previous, hs.text⟩, hcur⟩
      · rename_i hdiff
        rw [if_pos hdiff, hfresh.1, hfresh.2]
        obtain ⟨hprev, hlists⟩ := populatePathSegs_lists
          (c := { s.cache with previousPath := if true = true then some path else none }) rfl htext
        refine ⟨⟨hprev, fun p hp => ?_⟩, hlists⟩
        obtain rfl := Option.some.inj hp
        exact htext

/-- A call after which it is not. -/
theorem execStep_stale (hs : Copied s) (hcur : s.Current) (h : ¬ call.Fresh s.path) :
    ¬ (execStep host s call).Current := by
  unfold ExecCall.Fresh at h
  push Not at h
  obtain ⟨hname, path, hpath, hno⟩ := h
  rw [execStep_some hname]
  unfold updateExecCache ExecState.Current
  rw [hpath]
  simp only [ne_eq, hs.compared]
  rintro ⟨places, hsegs, hread, hlens⟩
  split at hno
  · -- the cache is still that of the longer list
    rename_i hsame
    rw [if_neg (not_not.mpr hsame)] at hsegs hread
    obtain ⟨last, hlast, hfirst⟩ := Option.map_eq_some_iff.mp hsame
    unfold ExecState.Current at hcur
    rw [hlast] at hcur hno
    obtain ⟨places', hsegs', hread', -⟩ := hcur
    have hplaces : places' = places := by
      have heq := Option.some.inj (hsegs'.symm.trans hsegs)
      exact List.map_injective_iff.mpr (Option.some_injective _) (List.append_cancel_right heq)
    rw [hplaces] at hread'
    exact hno (congrArg some (eq_of_splitOn_eq hfirst (hread'.symm.trans hread)))
  · rename_i hdiff
    rw [if_pos hdiff, populatePathSegs_failed] at hsegs
    · cases hsegs
    · cases hcopied : call.copied with
      | false => exact Or.inl rfl
      | true => exact Or.inr (Bool.eq_false_of_not_eq_true fun hall => hno ⟨hcopied, hall⟩)

end Call

/-! ## The result -/

/-- The loop sees the elements that are read. -/
theorem searchSegs_eq (host : ExecHost) (read : Nat → Bytes) (filename : Bytes)
    (places : List Nat) :
    searchSegs host read filename (places.map some ++ [none])
        ((places.map read).map List.length ++ [0]) =
      searchElements host filename (places.map read) := by
  induction places with
  | nil => rfl
  | cons place places ih =>
    simp only [List.map_cons, List.cons_append, searchSegs, searchElements, ih]

/-- A right cache searches the elements of `PATH`. -/
theorem pseudoExecPath_eq {host : ExecHost} {c : ExecCache} {call : ExecCall}
    (h : call.filename ≠ none → (updateExecCache c call).Lists call.path) :
    (pseudoExecPath host c call).2 = execResult host call := by
  unfold pseudoExecPath execResult
  cases hname : call.filename with
  | none => rfl
  | some filename =>
    have hlists := h (by rw [hname]; exact Option.some_ne_none filename)
    simp only [Option.bind_some]
    split
    · rfl
    · cases hpath : call.path with
      | none =>
        rw [hpath] at hlists
        simp only [show (updateExecCache c call).pathSegs = none from hlists]
      | some path =>
        rw [hpath] at hlists
        obtain ⟨places, hsegs, hread, hlens⟩ := hlists
        simp only [hsegs, hlens, Option.getD_some, ← hread, searchSegs_eq]
        split <;> rfl

end ExecPathLemmas

open ExecPathLemmas

/-! ## The cache along calls -/

/-- The cache is right after every call exactly when no call finds as `PATH` what was only the first
element of it at the last call; then every call returns what it would in a fresh process. -/
theorem execPath_current_iff (host : ExecHost) (calls : List ExecCall)
    (htext : ∀ call ∈ calls, ∀ path ∈ call.path, IsCString path) :
    ((∀ pre, pre <+: calls → (Run.run (execStep host) .start pre).Current) ↔
      Run.Guarded (execStep host) (fun s call => call.Fresh s.path) .start calls) ∧
    (Run.Guarded (execStep host) (fun s call => call.Fresh s.path) .start calls →
      ∀ before call, before ++ [call] <+: calls →
        (pseudoExecPath host (Run.run (execStep host) .start before).cache call).2 =
          (pseudoExecPath host .empty { call with copied := true, allocated := true }).2) := by
  have hiff : Run.Guarded (execStep host) (fun s call => call.Fresh s.path) .start calls ↔
      ∀ pre, pre <+: calls → (Run.run (execStep host) .start pre).Current :=
    Run.guarded_iff_of_valid (I := fun s => s.Current → Copied s)
    (V := fun call => ∀ path ∈ call.path, IsCString path) htext
    (fun s call htext hI hcur hnext => by
      by_cases hfresh : call.Fresh s.path
      · exact (execStep_current (hI hcur) hcur htext hfresh).1
      · exact absurd hnext (execStep_stale (hI hcur) hcur hfresh))
    (fun s call htext hI hcur =>
      ⟨fun hnext => by_contra fun hstale => execStep_stale (hI hcur) hcur hstale hnext,
        fun hfresh => (execStep_current (hI hcur) hcur htext hfresh).2⟩)
    (fun _ => ⟨rfl, fun _ h => (by cases h)⟩) rfl
  refine ⟨hiff.symm, fun hguarded before call hpre => ?_⟩
  have hcall := hiff.mp hguarded (before ++ [call]) hpre
  have hmem : call ∈ calls := hpre.subset (by simp)
  rw [Run.run_append, Run.run_cons, Run.run_nil] at hcall
  rw [pseudoExecPath_eq, pseudoExecPath_eq]
  · rfl
  · -- a fresh process
    intro hname
    have hstart : Copied .start := ⟨rfl, fun _ h => (by cases h)⟩
    have hfirst := (@execStep_current host .start
      { call with copied := true, allocated := true } hstart rfl (htext call hmem)
      fun _ _ _ => by simp [ExecState.start]).2
    rw [execStep_some hname] at hfirst
    exact hfirst
  · intro hname
    rw [execStep_some hname] at hcall
    exact hcall

/-- A host without files. -/
def exExecHost : ExecHost where
  fs := ⟨fun _ => none, fun _ => none⟩
  pathMax := 4096
  cwd := [slash]
  stat := fun _ => none
  unsetLen := 0

/-- A search for `f`, with memory. -/
def exSearch (path : Bytes) : ExecCall := ⟨some path, some (ascii ['f']), true, true, true⟩

/-- `/a:/b` after `/c`. -/
theorem execPath_current_two :
    (Run.run (execStep exExecHost) .start
      [exSearch (ascii ['/', 'c']), exSearch (ascii ['/', 'a', ':', '/', 'b'])]).Current :=
  (execPath_current_iff exExecHost
      [exSearch (ascii ['/', 'c']), exSearch (ascii ['/', 'a', ':', '/', 'b'])]
      (by decide)).1.mpr (by decide) _ List.prefix_rfl

/-- After `/a:/b`, a call with `/a` still searches both. -/
theorem execPath_stale :
    ¬ (Run.run (execStep exExecHost) .start
      [exSearch (ascii ['/', 'a', ':', '/', 'b']), exSearch (ascii ['/', 'a'])]).Current := by
  rintro ⟨places, hsegs, -, hlens⟩
  revert hlens
  decide

end Pseudo

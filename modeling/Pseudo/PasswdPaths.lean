import Pseudo.Library.Cut
import Pseudo.Library.Run
import Pseudo.Message

/-!
# The password search list

`build_passwd_paths` makes the list of directories that hold `etc/passwd` and `etc/group`. Its
entries point at `pseudo_chroot`, into `pseudo_passwd`, which the second of its two passes cuts
up, and at the compiled-in fallback. It runs at startup and on every chroot but that to `/`.

Results:
1. `splitPasswd_eq`: a pass finds the pieces of what the string still is.
2. `buildPasswdPaths_passwd`: a list that is built again has only the first piece.
3. `passwdPaths_current_iff`: after which calls the list is the current one.
-/

namespace Pseudo

/-- `':'`. -/
def colon : Byte := 58

/-- What an entry points at: the copy of a chroot path, of which `pseudo_client_chroot` makes one
after the other, a place in `pseudo_passwd`, or `PSEUDO_PASSWD_FALLBACK`. -/
inductive PasswdPtr
  | chroot (copy : Nat)
  | passwd (place : Nat)
  | fallback
  deriving DecidableEq, Repr

/-- `pseudo_chroot` and the number of its copy, `pseudo_passwd`, `passwd_paths` with its null
pointer, `npasswd_paths`, and how many copies of chroot paths there have been. -/
structure PasswdClient where
  chroot : Option (Nat × Bytes)
  passwd : Option Bytes
  passwdPaths : List (Option PasswdPtr)
  npasswdPaths : Nat
  copies : Nat
  deriving DecidableEq, Repr

/-- `strchr(s, ':')`, where `s` is a place in `buf`. -/
def strchrColon (buf : Bytes) (s : Nat) : Option Nat :=
  if colon ∈ cstr (buf.drop s) then some (s + (cstr (buf.drop s)).idxOf colon) else none

theorem strchrColon_lt {buf : Bytes} {s t : Nat} (h : strchrColon buf s = some t) :
    s ≤ t ∧ t < buf.length := by
  unfold strchrColon at h
  split at h
  · rename_i hmem
    obtain rfl := Option.some.inj h
    have hidx := List.idxOf_lt_length_of_mem hmem
    have hlen : (cstr (buf.drop s)).length ≤ buf.length - s := by
      rw [← List.length_drop]
      exact (List.takeWhile_prefix _).length_le
    omega
  · cases h

/-- `while (s) { … }`: the places that are added, from `s` on, and the string afterwards. `NUL_BYTE`
stores when the list is being filled. -/
def splitPasswd (fill : Bool) (buf : Bytes) (s : Nat) : Bytes × List Nat :=
  match h : strchrColon buf s with
  | none => (buf, [s])
  | some t =>
    have : s ≤ t ∧ t < buf.length := strchrColon_lt h
    let rest := splitPasswd fill (if fill then buf.set t 0 else buf) (t + 1)
    (rest.1, s :: rest.2)
termination_by buf.length - s
decreasing_by
  split
  · rw [List.length_set]
    omega
  · omega

/-- One pass: `pseudo_passwd` afterwards, and the entries. -/
def passwdPass (fallback : Option Bytes) (fill : Bool) (c : PasswdClient) :
    Option Bytes × List PasswdPtr :=
  let chroot := (c.chroot.map fun copy => PasswdPtr.chroot copy.1).toList
  let fallback := (fallback.map fun _ => PasswdPtr.fallback).toList
  match c.passwd with
  | some buf =>
    let split := splitPasswd fill buf 0
    (some split.1, chroot ++ split.2.map PasswdPtr.passwd ++ fallback)
  | none => (none, chroot ++ fallback)

/-- The first pass counts, the second one fills. -/
def buildPasswdPaths (fallback : Option Bytes) (c : PasswdClient) : PasswdClient :=
  let counted := passwdPass fallback false c
  let np := counted.2.length
  let filled := passwdPass fallback true { c with passwd := counted.1 }
  { c with
    passwd := filled.1
    npasswdPaths := np
    passwdPaths :=
      -- internal error: path allocation was inconsistent
      if filled.2.length ≠ np then filled.2.map some
      -- we allocated one extra for a trailing null pointer
      else filled.2.map some ++ [none] }

/-- The part of `pseudo_init_client` that reads `PSEUDO_CHROOT` and `PSEUDO_PASSWD`. -/
def initPasswdPaths (fallback chroot passwd : Option Bytes) : PasswdClient :=
  buildPasswdPaths fallback
    { chroot := chroot.map fun path => (0, path), passwd := passwd, passwdPaths := []
      npasswdPaths := 0, copies := chroot.toList.length }

/-- `allocated`: there was memory for the copy. The old one is freed first. -/
def pseudoClientChroot (fallback : Option Bytes) (allocated : Bool) (c : PasswdClient)
    (path : Bytes) : PasswdClient × Int :=
  if path = [slash] then ({ c with chroot := none }, 0)
  else if ¬ allocated then ({ c with chroot := none }, -1)
  else
    let c := { c with chroot := some (c.copies, path), copies := c.copies + 1 }
    -- Rebuild passwd paths since we've done a chroot
    (buildPasswdPaths fallback c, 0)

/-! ## What the list should be -/

/-- What is read through an entry; nothing once its copy has been freed. -/
def PasswdClient.read (fallback : Option Bytes) (c : PasswdClient) : PasswdPtr → Option Bytes
  | .chroot copy => (c.chroot.filter fun current => current.1 = copy).map (·.2)
  | .passwd place => c.passwd.map fun buf => cstr (buf.drop place)
  | .fallback => fallback

/-- The chroot after some calls. -/
def chrootAfter (chroot : Option Bytes) (calls : List Bytes) : Option Bytes :=
  calls.foldl (fun _ path => if path = [slash] then none else some path) chroot

/-- The chroot, each element of `PSEUDO_PASSWD`, and the fallback. -/
def searchList (fallback chroot passwd : Option Bytes) : List Bytes :=
  chroot.toList ++ (passwd.map fun p => p.splitOn colon).getD [] ++ fallback.toList

/-- The list ends in a null pointer, and what is read through its entries is `list`. -/
def PasswdClient.Lists (fallback : Option Bytes) (c : PasswdClient) (list : List Bytes) : Prop :=
  ∃ entries : List PasswdPtr,
    c.passwdPaths = entries.map some ++ [none] ∧ c.npasswdPaths = entries.length ∧
    entries.map (c.read fallback) = list.map some

/-- The client after some calls that succeed: these have had the memory for their copies. -/
def afterChroots (fallback : Option Bytes) (c : PasswdClient) (calls : List Bytes) :
    PasswdClient :=
  Run.run (fun c path => (pseudoClientChroot fallback true c path).1) c calls

namespace PasswdPathsLemmas

open Cut

/-! ## One pass -/

/-- The search does not see what is in front of `s` or behind the string. -/
theorem strchrColon_string {text : Bytes} (before rest : Bytes) (h : IsCString text)
    (hrest : Ends 0 rest) :
    strchrColon (before ++ (text ++ rest)) before.length =
      if colon ∈ text then some (before.length + text.idxOf colon) else none := by
  have hstr : cstr ((before ++ (text ++ rest)).drop before.length) = text := by
    rw [List.drop_left]
    exact str_append h hrest
  rw [strchrColon, hstr]

/-- A pass finds the pieces of the string that starts at `s`, and cuts them when it fills. -/
theorem splitPasswd_eq (fill : Bool) {text : Bytes} (before rest : Bytes) (h : IsCString text)
    (hrest : Ends 0 rest) :
    splitPasswd fill (before ++ (text ++ rest)) before.length =
      (before ++ ((if fill then cut colon 0 text else text) ++ rest),
        starts before.length (text.splitOn colon)) := by
  induction text using pieces_induction colon generalizing before with
  | last p hp =>
    have hnone : strchrColon (before ++ (p ++ rest)) before.length = none := by
      rw [strchrColon_string before rest h hrest, if_neg hp]
    rw [splitPasswd]
    split
    · rw [List.splitOn_eq_singleton hp, cut_of_not_mem hp, ite_self]
      rfl
    · rename_i t ht
      rw [hnone] at ht
      cases ht
  | piece p text hp ih =>
    have hnul : IsCString p := fun hc => h (List.mem_append_left _ hc)
    have htext : IsCString text :=
      fun hc => h (List.mem_append_right _ (List.mem_cons_of_mem _ hc))
    have hsome : strchrColon (before ++ (p ++ colon :: text ++ rest)) before.length =
        some (before.length + p.length) := by
      rw [strchrColon_string before rest h hrest,
        if_pos (List.mem_append_right _ List.mem_cons_self), List.idxOf_append_of_notMem hp,
        List.idxOf_cons_self, Nat.add_zero]
    have hset : (if fill then (before ++ (p ++ colon :: text ++ rest)).set
          (before.length + p.length) 0 else before ++ (p ++ colon :: text ++ rest)) =
        before ++ (p ++ [if fill then 0 else colon]) ++ (text ++ rest) := by
      cases fill with
      | false => simp
      | true => simp [List.set_append_right]
    have hlen : before.length + p.length + 1 =
        (before ++ (p ++ [if fill then 0 else colon])).length := by
      simp only [List.length_append, List.length_singleton]
      omega
    have hbehind := ih (before ++ (p ++ [if fill then 0 else colon])) htext
    rw [splitPasswd]
    split
    · rename_i hno
      rw [hsome] at hno
      cases hno
    · rename_i t ht
      obtain rfl := Option.some.inj (hsome.symm.trans ht)
      rw [hset, hlen, hbehind, List.splitOn_append_cons_self_of_not_mem hp, starts, ← hlen]
      cases fill with
      | false => simp
      | true => simp [cut_append_cons hp]

/-! ## A build -/

/-- The entries for the chroot copy, some places in `pseudo_passwd` and the fallback. -/
def entries (fallback : Option Bytes) (copy : Option Nat) (places : List Nat) :
    List PasswdPtr :=
  (copy.map PasswdPtr.chroot).toList ++ places.map PasswdPtr.passwd ++
    (fallback.map fun _ => PasswdPtr.fallback).toList

/-- The list was built for this copy and these places. -/
structure BuiltFor (fallback : Option Bytes) (copy : Option Nat) (places : List Nat)
    (c : PasswdClient) : Prop where
  paths : c.passwdPaths = (entries fallback copy places).map some ++ [none]
  count : c.npasswdPaths = (entries fallback copy places).length

section Build
variable {fallback : Option Bytes} {c : PasswdClient} {text rest : Bytes}

/-- A build cuts what the string still is, and lists its pieces. -/
theorem buildPasswdPaths_some (hpasswd : c.passwd = some (text ++ rest)) (h : IsCString text)
    (hrest : Ends 0 rest) :
    (buildPasswdPaths fallback c).passwd = some (cut colon 0 text ++ rest) ∧
      BuiltFor fallback (c.chroot.map (·.1)) (starts 0 (text.splitOn colon))
        (buildPasswdPaths fallback c) := by
  have hpass : ∀ fill, splitPasswd fill (text ++ rest) 0 =
      ((if fill then cut colon 0 text else text) ++ rest, starts 0 (text.splitOn colon)) :=
    fun fill => splitPasswd_eq fill [] rest h hrest
  have hchroot : (c.chroot.map fun copy => PasswdPtr.chroot copy.1) =
      (c.chroot.map (·.1)).map PasswdPtr.chroot := by rw [Option.map_map]; rfl
  have hcount : passwdPass fallback false c = (some (text ++ rest),
      entries fallback (c.chroot.map (·.1)) (starts 0 (text.splitOn colon))) := by
    unfold passwdPass
    simp only [hpasswd, hpass, hchroot]
    rfl
  have hfill : passwdPass fallback true { c with passwd := some (text ++ rest) } =
      (some (cut colon 0 text ++ rest),
        entries fallback (c.chroot.map (·.1)) (starts 0 (text.splitOn colon))) := by
    unfold passwdPass
    simp only [hpass, hchroot]
    rfl
  unfold buildPasswdPaths
  rw [hcount]
  dsimp only
  rw [hfill]
  exact ⟨rfl, if_neg fun hne => hne rfl, rfl⟩

theorem buildPasswdPaths_none (hpasswd : c.passwd = none) :
    (buildPasswdPaths fallback c).passwd = none ∧
      BuiltFor fallback (c.chroot.map (·.1)) [] (buildPasswdPaths fallback c) := by
  have hchroot : (c.chroot.map fun copy => PasswdPtr.chroot copy.1) =
      (c.chroot.map (·.1)).map PasswdPtr.chroot := by rw [Option.map_map]; rfl
  have hpass : ∀ fill, passwdPass fallback fill c =
      (none, entries fallback (c.chroot.map (·.1)) []) := by
    intro fill
    unfold passwdPass
    simp only [hpasswd, hchroot]
    rw [entries, List.map_nil, List.append_nil]
  have hsame : { c with passwd := none } = c := by rw [← hpasswd]
  unfold buildPasswdPaths
  rw [hpass]
  dsimp only
  rw [hsame, hpass]
  exact ⟨rfl, if_neg fun hne => hne rfl, rfl⟩

theorem lists_iff {copy : Option Nat} {places : List Nat} {list : List Bytes}
    (h : BuiltFor fallback copy places c) :
    c.Lists fallback list ↔
      (entries fallback copy places).map (c.read fallback) = list.map some := by
  constructor
  · rintro ⟨others, hpaths, _, hread⟩
    have hsame : others = entries fallback copy places := by
      have heq := List.append_cancel_right (hpaths.symm.trans h.paths)
      exact List.map_injective_iff.mpr (fun _ _ h => Option.some.inj h) heq
    rwa [hsame] at hread
  · exact fun hread => ⟨_, h.paths, h.count, hread⟩

/-- What is read through the entries. -/
theorem map_read (copy : Option Nat) (places : List Nat) :
    (entries fallback copy places).map (c.read fallback) =
      (copy.toList.map fun k => c.read fallback (.chroot k)) ++
        (places.map fun s => c.read fallback (.passwd s)) ++ fallback.toList.map some := by
  unfold entries
  rw [List.map_append, List.map_append, List.map_map]
  congr 1
  · congr 1
    cases copy <;> rfl
  · cases fallback <;> rfl

end Build

/-! ## The calls -/

section Calls
variable {fallback : Option Bytes} {allocated : Bool} {c : PasswdClient} {path : Bytes}

theorem pseudoClientChroot_root :
    pseudoClientChroot fallback allocated c [slash] = ({ c with chroot := none }, 0) := if_pos rfl

/-- The copy of the new path is the last one made. -/
theorem pseudoClientChroot_path (h : path ≠ [slash]) :
    pseudoClientChroot fallback true c path = (buildPasswdPaths fallback
      { c with chroot := some (c.copies, path), copies := c.copies + 1 }, 0) := by
  unfold pseudoClientChroot
  rw [if_neg h, if_neg (by simp)]

/-- A call that succeeds has had the memory that it needed. -/
theorem pseudoClientChroot_succeeds (h : (pseudoClientChroot fallback allocated c path).2 = 0) :
    pseudoClientChroot fallback allocated c path = pseudoClientChroot fallback true c path := by
  cases allocated with
  | true => rfl
  | false =>
    rcases Decidable.em (path = [slash]) with rfl | hpath
    · rw [pseudoClientChroot_root, pseudoClientChroot_root]
    · unfold pseudoClientChroot at h
      rw [if_neg hpath, if_pos (by simp)] at h
      cases h

/-- Leaving the chroot changes `pseudo_chroot` alone. -/
theorem afterChroots_roots {calls : List Bytes} (h : ∀ path ∈ calls, path = [slash])
    (hne : calls ≠ []) : afterChroots fallback c calls = { c with chroot := none } := by
  induction calls generalizing c with
  | nil => exact absurd rfl hne
  | cons path calls ih =>
    obtain rfl := h path List.mem_cons_self
    have hstep : afterChroots fallback c ([slash] :: calls) =
        afterChroots fallback { c with chroot := none } calls := by
      show Run.run _ (pseudoClientChroot fallback true c [slash]).1 calls = _
      rw [pseudoClientChroot_root]
      rfl
    rw [hstep]
    cases calls with
    | nil => rfl
    | cons path' calls =>
      exact ih (fun q hq => h q (List.mem_cons_of_mem _ hq)) (List.cons_ne_nil _ _)

theorem afterChroots_append (calls calls' : List Bytes) :
    afterChroots fallback c (calls ++ calls') =
      afterChroots fallback (afterChroots fallback c calls) calls' := Run.run_append calls calls'

end Calls

theorem chrootAfter_roots {chroot : Option Bytes} {calls : List Bytes}
    (h : ∀ path ∈ calls, path = [slash]) (hne : calls ≠ []) : chrootAfter chroot calls = none := by
  induction calls generalizing chroot with
  | nil => exact absurd rfl hne
  | cons path calls ih =>
    obtain rfl := h path List.mem_cons_self
    cases calls with
    | nil => rfl
    | cons path' calls =>
      exact @ih none (fun q hq => h q (List.mem_cons_of_mem _ hq)) (List.cons_ne_nil _ _)

/-- The last call that sets a chroot. -/
theorem exists_last_path {calls : List Bytes} (h : ¬ ∀ path ∈ calls, path = [slash]) :
    ∃ before path after, calls = before ++ path :: after ∧ path ≠ [slash] ∧
      ∀ q ∈ after, q = [slash] := by
  induction calls with
  | nil => exact absurd (fun path hp => (by cases hp)) h
  | cons path calls ih =>
    by_cases hrest : ∀ q ∈ calls, q = [slash]
    · have hpath : path ≠ [slash] := by
        rintro rfl
        refine h fun q hq => ?_
        rcases List.mem_cons.mp hq with rfl | hq
        · rfl
        · exact hrest q hq
      exact ⟨[], path, calls, rfl, hpath, hrest⟩
    · obtain ⟨before, q, after, rfl, hq, hafter⟩ := ih hrest
      exact ⟨path :: before, q, after, rfl, hq, hafter⟩

/-! ## The first build and the later ones -/

section Builds
variable {fallback chroot passwd : Option Bytes} {c : PasswdClient}
  (hpasswd : ∀ p ∈ passwd, IsCString p)
include hpasswd

variable (fallback chroot) in
/-- The first build lists every piece. -/
theorem initPasswdPaths_built :
    (initPasswdPaths fallback chroot passwd).passwd = passwd.map (cut colon 0) ∧
      BuiltFor fallback (chroot.map fun _ => 0)
        ((passwd.map fun p => starts 0 (p.splitOn colon)).getD [])
        (initPasswdPaths fallback chroot passwd) := by
  have hcopy : (chroot.map fun path => (0, path)).map (·.1) = chroot.map fun _ => 0 := by
    rw [Option.map_map]
    rfl
  cases passwd with
  | none =>
    have h := @buildPasswdPaths_none fallback
      { chroot := chroot.map fun path => (0, path), passwd := none, passwdPaths := []
        npasswdPaths := 0, copies := chroot.toList.length } rfl
    rwa [hcopy] at h
  | some p =>
    have h := @buildPasswdPaths_some fallback
      { chroot := chroot.map fun path => (0, path), passwd := some p, passwdPaths := []
        npasswdPaths := 0, copies := chroot.toList.length } p [] (by rw [List.append_nil])
      (hpasswd p rfl) (Or.inl rfl)
    rwa [hcopy, List.append_nil] at h

/-- A later build finds a string that ends behind the first piece. -/
theorem buildPasswdPaths_passwd (hcut : c.passwd = passwd.map (cut colon 0)) :
    (buildPasswdPaths fallback c).passwd = passwd.map (cut colon 0) ∧
      BuiltFor fallback (c.chroot.map (·.1)) (passwd.map fun _ => 0).toList
        (buildPasswdPaths fallback c) := by
  cases passwd with
  | none => exact buildPasswdPaths_none hcut
  | some p =>
    obtain ⟨rest, hrest, heq, hsep, hsub⟩ := cut_eq_head colon 0 p
    have h := @buildPasswdPaths_some fallback c _ rest (hcut.trans (congrArg some heq))
      (fun hc => hpasswd p rfl (hsub hc)) hrest
    rw [cut_of_not_mem hsep, List.splitOn_eq_singleton hsep, ← heq] at h
    exact h

theorem passwd_afterChroots (hcut : c.passwd = passwd.map (cut colon 0)) (calls : List Bytes) :
    (afterChroots fallback c calls).passwd = passwd.map (cut colon 0) := by
  induction calls generalizing c with
  | nil => exact hcut
  | cons path calls ih =>
    refine ih (c := (pseudoClientChroot fallback true c path).1) ?_
    rcases Decidable.em (path = [slash]) with rfl | hpath
    · rw [pseudoClientChroot_root]
      exact hcut
    · rw [pseudoClientChroot_path hpath]
      exact (buildPasswdPaths_passwd hpasswd
        (c := { c with chroot := some (c.copies, path), copies := c.copies + 1 }) hcut).1

/-- The first build's entries read as the elements. -/
theorem read_pieces (hcut : c.passwd = passwd.map (cut colon 0)) :
    (((passwd.map fun p => starts 0 (p.splitOn colon)).getD []).map fun s =>
      c.read fallback (.passwd s)) = ((passwd.map fun p => p.splitOn colon).getD []).map some := by
  cases passwd with
  | none => rfl
  | some p =>
    have hread : ∀ s, c.read fallback (.passwd s) = some (str 0 ((cut colon 0 p).drop s)) := by
      intro s
      rw [PasswdClient.read, hcut]
      rfl
    have h := str_starts colon [] [] (hpasswd p rfl) (Or.inl rfl)
    rw [List.append_nil, List.nil_append] at h
    have hmap := congrArg (List.map some) h
    rw [List.map_map] at hmap
    simp only [hread, Option.map_some, Option.getD_some]
    exact hmap

variable (fallback) in
/-- The later builds' one entry reads as all elements only if there is one. -/
theorem read_first_iff (hcut : c.passwd = passwd.map (cut colon 0)) :
    ((passwd.map fun _ => 0).toList.map fun s => c.read fallback (.passwd s)) =
        ((passwd.map fun p => p.splitOn colon).getD []).map some ↔
      ∀ p ∈ passwd, colon ∉ p := by
  cases passwd with
  | none => simp
  | some p =>
    have hread : c.read fallback (.passwd 0) =
        some ((p.splitOn colon).head (List.splitOn_ne_nil colon p)) := by
      have h := str_cut colon (hpasswd p rfl) (Or.inl (rfl : [] = []))
      rw [List.append_nil] at h
      rw [PasswdClient.read, hcut]
      exact congrArg some h
    have hsome : ∀ {a b : List Bytes}, a.map some = b.map some ↔ a = b :=
      (List.map_injective_iff.mpr fun _ _ h => Option.some.inj h).eq_iff
    have hiff := splitOn_eq_head_iff colon p
    simp only [Option.map_some, Option.toList_some, List.map_cons, List.map_nil, hread,
      Option.getD_some, Option.mem_def, Option.some.injEq, forall_eq', ← hiff]
    rw [← hsome, eq_comm]
    rfl

end Builds

section Runs
variable {fallback chroot passwd : Option Bytes} {c : PasswdClient} {copy : Option Nat}
  (hpasswd : ∀ p ∈ passwd, IsCString p) (hcut : c.passwd = passwd.map (cut colon 0))
include hpasswd hcut

/-- A list with every piece is right as soon as its entry for the chroot is. -/
theorem lists_first_iff (h : BuiltFor fallback copy
      ((passwd.map fun p => starts 0 (p.splitOn colon)).getD []) c) :
    c.Lists fallback (searchList fallback chroot passwd) ↔
      (copy.toList.map fun k => c.read fallback (.chroot k)) = chroot.toList.map some := by
  rw [lists_iff h, map_read, read_pieces hpasswd hcut, searchList, List.map_append,
    List.map_append]
  constructor
  · intro heq
    exact List.append_cancel_right (List.append_cancel_right heq)
  · intro heq
    rw [heq]

/-- A list that was built again, for the chroot that is set. -/
theorem lists_again_iff {path : Bytes} {k : Nat} (hchroot : c.chroot = some (k, path))
    (h : BuiltFor fallback (some k) (passwd.map fun _ => 0).toList c) :
    c.Lists fallback (searchList fallback (some path) passwd) ↔ ∀ p ∈ passwd, colon ∉ p := by
  have hread : c.read fallback (.chroot k) = some path := by
    rw [PasswdClient.read, hchroot]
    simp
  rw [← read_first_iff fallback hpasswd hcut, lists_iff h, map_read, searchList,
    List.map_append, List.map_append, Option.toList_some, Option.toList_some, List.map_singleton,
    List.map_singleton, hread]
  constructor
  · intro heq
    exact List.append_cancel_left (List.append_cancel_right heq)
  · intro heq
    rw [heq]

omit hcut in
variable (fallback chroot) in
/-- A call that sets a chroot builds the list for it. -/
theorem afterChroots_path (before : List Bytes) {path : Bytes} (hpath : path ≠ [slash]) :
    ∃ k, (afterChroots fallback (initPasswdPaths fallback chroot passwd)
        (before ++ [path])).chroot = some (k, path) ∧
      (afterChroots fallback (initPasswdPaths fallback chroot passwd)
        (before ++ [path])).passwd = passwd.map (cut colon 0) ∧
      BuiltFor fallback (some k) (passwd.map fun _ => 0).toList
        (afterChroots fallback (initPasswdPaths fallback chroot passwd) (before ++ [path])) := by
  have hbefore := @passwd_afterChroots fallback passwd _ hpasswd
    (initPasswdPaths_built fallback chroot hpasswd).1 before
  generalize hc : afterChroots fallback (initPasswdPaths fallback chroot passwd) before = c
    at hbefore
  have hstep : afterChroots fallback (initPasswdPaths fallback chroot passwd) (before ++ [path]) =
      buildPasswdPaths fallback
        { c with chroot := some (c.copies, path), copies := c.copies + 1 } := by
    rw [afterChroots_append, hc]
    exact congrArg Prod.fst (pseudoClientChroot_path hpath)
  rw [hstep]
  exact ⟨c.copies, rfl, buildPasswdPaths_passwd hpasswd
    (c := { c with chroot := some (c.copies, path), copies := c.copies + 1 }) hbefore⟩

end Runs

/-- A list whose chroot has been freed. -/
theorem not_lists_freed {fallback : Option Bytes} {c : PasswdClient} {k : Nat}
    {places : List Nat} {list : List Bytes} (hchroot : c.chroot = none)
    (h : BuiltFor fallback (some k) places c) : ¬ c.Lists fallback list := by
  rw [lists_iff h, map_read]
  intro heq
  have hread : c.read fallback (.chroot k) = none := by
    rw [PasswdClient.read, hchroot]
    rfl
  have hmem : (none : Option Bytes) ∈ list.map some := by
    rw [← heq, ← hread]
    simp
  simp at hmem

end PasswdPathsLemmas

open PasswdPathsLemmas

/-! ## The list along calls -/

/-- After a sequence of calls that succeed, the list is the current one exactly when no chroot was
set while `PSEUDO_PASSWD` has more than one element, and the last call did not leave a chroot. -/
theorem passwdPaths_current_iff (fallback chroot passwd : Option Bytes)
    (hpasswd : ∀ p ∈ passwd, IsCString p) (calls : List Bytes) :
    (afterChroots fallback (initPasswdPaths fallback chroot passwd) calls).Lists fallback
        (searchList fallback (chrootAfter chroot calls) passwd) ↔
      ((∃ p ∈ passwd, colon ∈ p) → ∀ path ∈ calls, path = [slash]) ∧
        (calls.getLast? = some [slash] → chroot = none ∧ ∀ path ∈ calls, path = [slash]) := by
  obtain ⟨hcut, hbuilt⟩ := initPasswdPaths_built fallback chroot hpasswd
  by_cases hroots : ∀ path ∈ calls, path = [slash]
  · rw [and_iff_right fun _ => hroots]
    rcases List.eq_nil_or_concat' calls with rfl | ⟨before, last, rfl⟩
    · -- nothing has happened since the first build
      refine iff_of_true ((lists_first_iff hpasswd hcut hbuilt).mpr ?_) fun h => (by cases h)
      cases chroot <;> simp [initPasswdPaths, buildPasswdPaths, PasswdClient.read, chrootAfter]
    · have hne : before ++ [last] ≠ [] := by simp
      obtain rfl : last = [slash] := hroots last (by simp)
      rw [afterChroots_roots hroots hne, chrootAfter_roots hroots hne,
        lists_first_iff (c := { initPasswdPaths fallback chroot passwd with chroot := none })
          hpasswd hcut ⟨hbuilt.paths, hbuilt.count⟩, List.getLast?_concat]
      simp only [true_imp_iff, and_iff_left hroots]
      cases chroot <;> simp
  · -- the list is that of the last call that set a chroot
    obtain ⟨before, path, after, rfl, hpath, hafter⟩ := exists_last_path hroots
    obtain ⟨k, hchroot, hcut', hbuilt'⟩ := afterChroots_path fallback chroot hpasswd before hpath
    by_cases hne : after = []
    · subst hne
      have hnow : chrootAfter chroot (before ++ [path]) = some path := by
        unfold chrootAfter
        rw [List.foldl_append]
        exact if_neg hpath
      rw [hnow, lists_again_iff hpasswd hcut' hchroot hbuilt', List.getLast?_concat]
      simp only [Option.some.injEq, hpath, false_imp_iff, and_true, hroots, imp_false,
        not_exists, not_and]
    · have hlast : (before ++ path :: after).getLast? = some [slash] := by
        obtain ⟨init, last, rfl⟩ := List.eq_nil_or_concat' after |>.resolve_left hne
        rw [← List.cons_append, ← List.append_assoc, List.getLast?_concat,
          hafter last (List.mem_append_right _ List.mem_cons_self)]
      refine iff_of_false ?_ fun h => hroots (h.2 hlast).2
      rw [List.append_cons, afterChroots_append, afterChroots_roots hafter hne]
      exact not_lists_freed rfl ⟨hbuilt'.paths, hbuilt'.count⟩

/-- `/p`, one directory. -/
def exOneDir : Bytes := ascii ['/', 'p']

/-- `/p:/q`. -/
def exTwoDirs : Bytes := ascii ['/', 'p', ':', '/', 'q']

/-- With one directory, the list is right in `/d` after `/c` was left. -/
theorem passwdPaths_current_one :
    (afterChroots none (initPasswdPaths none none (some exOneDir))
        [ascii ['/', 'c'], [slash], ascii ['/', 'd']]).Lists none
      (searchList none (some (ascii ['/', 'd'])) (some exOneDir)) :=
  (passwdPaths_current_iff none none (some exOneDir) (by simp; decide)
    [ascii ['/', 'c'], [slash], ascii ['/', 'd']]).mpr ⟨by simp; decide, by decide⟩

/-- With two, the second one is missing in `/c`, and once `/c` is left, the list still points at
its path. -/
theorem chroot_loses_passwd :
    ¬ (afterChroots none (initPasswdPaths none none (some exTwoDirs)) [ascii ['/', 'c']]).Lists
        none (searchList none (some (ascii ['/', 'c'])) (some exTwoDirs)) ∧
      ¬ (afterChroots none (initPasswdPaths none none (some exTwoDirs))
        [ascii ['/', 'c'], [slash]]).Lists none (searchList none none (some exTwoDirs)) := by
  have hpasswd : ∀ p ∈ some exTwoDirs, IsCString p := by
    simp
    decide
  obtain ⟨k, hchroot, hcut, hbuilt⟩ := afterChroots_path none none hpasswd []
    (show ascii ['/', 'c'] ≠ [slash] by decide)
  constructor
  · intro h
    have hone := (lists_again_iff hpasswd hcut hchroot hbuilt).mp h exTwoDirs rfl
    exact absurd hone (by decide)
  · exact not_lists_freed rfl ⟨hbuilt.paths, hbuilt.count⟩

end Pseudo

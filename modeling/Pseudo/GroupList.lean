import Mathlib.Algebra.GroupWithZero.Nat
import Mathlib.Algebra.Order.BigOperators.Group.List
import Mathlib.Algebra.Order.Group.Nat
import Mathlib.Data.List.TakeWhile
import Pseudo.Library.Fill
import Pseudo.Message

/-!
# The groups of a user

`wrap_getgrouplist` reads the group file with a buffer that it doubles, and starts again, as long
as a line does not fit. `wrap_getgroups` calls it and mends its return code.

Results:
1. `growLoop_eq`: what has been found when the loop ends.
2. `wrapGetgrouplist_eq`: what the function returns and stores.
3. `getgrouplist_iff`: when it counts and fills exactly.
-/

namespace Pseudo

open Fill

/-! ## 1. The code -/

abbrev Gid := BitVec 32

/-- `struct group`: `gr_gid` and `gr_mem`, and the bytes that `fgetgrent_r` needs for its line. -/
structure GroupEntry where
  gid : Gid
  mem : List Bytes
  room : Nat
  deriving DecidableEq, Repr

/-- What `wrap_getgrent_r` returns other than 0: -1 without a file, `ERANGE` for a line that does
not fit in the buffer, and `ENOENT` at the end. -/
inductive GrentError
  | noFile
  | erange
  | enoent
  deriving DecidableEq, Repr

/-- `groups`, `found` and `found_group`. -/
structure Tally where
  groups : Nat → Gid
  found : Nat
  foundGroup : Bool

/-- `if (found < *ngroups) groups[found] = gid; ++found;` -/
def Tally.add (ngroups : Int) (gid : Gid) (t : Tally) : Tally :=
  { t with
    groups := if (t.found : Int) < ngroups then Function.update t.groups t.found gid else t.groups
    found := t.found + 1 }

section

variable (ngroups : Int) (user : Bytes) (group : Gid)

/-- The loop over `gr_mem`. -/
def memberLoop (gid : Gid) : List Bytes → Tally → Tally
  | [], t => t
  | member :: members, t =>
    if member = user then
      let t := t.add ngroups gid
      memberLoop gid members { t with foundGroup := if gid = group then true else t.foundGroup }
    else memberLoop gid members t

/-- The loop over the file, up to the first error of `wrap_getgrent_r`. -/
def grentLoop (buflen : Nat) : List GroupEntry → Tally → Tally × GrentError
  | [], t => (t, .enoent)
  | g :: file, t =>
    if g.room ≤ buflen then grentLoop buflen file (memberLoop ngroups user group g.gid g.mem t)
    else (t, .erange)

/-- From `found = 0` to `endgrent`. -/
def grentScan (file : Option (List GroupEntry)) (buflen : Nat) (t : Tally) : Tally × GrentError :=
  let t := { t with found := 0, foundGroup := false }
  match file with
  | none => (t, .noFile)
  | some file => grentLoop ngroups user group buflen file t

end

/-- `PSEUDO_PWD_MAX` -/
def pseudoPwdMax : Nat := 4096

/-- `buflen`, when it has been doubled some times. -/
def grbuflen (k : Nat) : Nat := pseudoPwdMax * 2 ^ k

theorem grbuflen_lt_succ (k : Nat) : grbuflen k < grbuflen (k + 1) := by
  have hpos : 0 < 2 ^ k := Nat.two_pow_pos k
  simp only [grbuflen, pseudoPwdMax, Nat.pow_succ]
  omega

/-- A scan that ends with `ERANGE` has come to a line that does not fit. -/
theorem grentScan_erange {ngroups : Int} {user : Bytes} {group : Gid}
    {file : Option (List GroupEntry)} {buflen : Nat} {t : Tally}
    (h : (grentScan ngroups user group file buflen t).2 = .erange) :
    ∃ g ∈ file.getD [], buflen < g.room := by
  cases file with
  | none => cases h
  | some file =>
    simp only [grentScan] at h
    generalize ({ t with found := 0, foundGroup := false } : Tally) = t0 at h
    rw [Option.getD_some]
    induction file generalizing t0 with
    | nil => cases h
    | cons g file ih =>
      rw [grentLoop] at h
      split at h
      · obtain ⟨g', hmem, hroom⟩ := ih _ h
        exact ⟨g', List.mem_cons_of_mem _ hmem, hroom⟩
      · exact ⟨g, List.mem_cons_self, by omega⟩

/-- The lines are longer, in all, than a buffer that one of them does not fit in. -/
theorem grentScan_erange_lt {ngroups : Int} {user : Bytes} {group : Gid}
    {file : Option (List GroupEntry)} {buflen : Nat} {t : Tally}
    (h : (grentScan ngroups user group file buflen t).2 = .erange) :
    buflen < ((file.getD []).map GroupEntry.room).sum := by
  obtain ⟨g, hmem, hroom⟩ := grentScan_erange h
  exact Nat.lt_of_lt_of_le hroom (List.le_sum_of_mem (List.mem_map_of_mem hmem))

/-- The `do` loop, whenever `rc` is `ERANGE`. `gives`: the sizes that `realloc` has memory for. -/
def growLoop (gives : Nat → Bool) (ngroups : Int) (user : Bytes) (group : Gid)
    (file : Option (List GroupEntry)) (k : Nat) (t : Tally) : Tally :=
  if gives (grbuflen k) then
    match h : grentScan ngroups user group file (grbuflen k) t with
    | (t, .erange) =>
      have := grentScan_erange_lt (congrArg Prod.snd h)
      growLoop gives ngroups user group file (k + 1) t
    | (t, _) => t
  else t
termination_by ((file.getD []).map GroupEntry.room).sum - grbuflen k
decreasing_by
  have hlt := grbuflen_lt_succ k
  omega

/-- What is returned, `groups` and `*ngroups`. -/
structure GrouplistResult where
  rc : Int
  groups : Nat → Gid
  ngroups : Int

def wrapGetgrouplist (gives : Nat → Bool) (file : Option (List GroupEntry)) (user : Bytes)
    (group : Gid) (groups : Nat → Gid) (ngroups : Int) : GrouplistResult :=
  let t := growLoop gives ngroups user group file 0 ⟨groups, 0, false⟩
  let t := if t.foundGroup then t else t.add ngroups group
  { rc := if (t.found : Int) ≥ ngroups then -1 else t.found
    groups := t.groups
    ngroups := t.found }

/-- `wrap_getgroups`. `p`: `pw_name` of what `wrap_getpwuid` finds; `gid`: what `wrap_getgid`
returns. -/
def wrapGetgroups (gives : Nat → Bool) (file : Option (List GroupEntry)) (p : Option Bytes)
    (gid : Gid) (list : Nat → Gid) (size : Int) : Int × (Nat → Gid) :=
  match p with
  | some user =>
    let r := wrapGetgrouplist gives file user gid list size
    (if size = 0 ∨ r.ngroups ≤ size then r.ngroups else r.rc, r.groups)
  | none => (-1, list)

/-! ## 2. What there is to count -/

/-- The gids of the entries that list the user, once for each listing. -/
def listing (user : Bytes) (file : List GroupEntry) : List Gid :=
  file.flatMap fun g => (g.mem.filter (· = user)).map fun _ => g.gid

/-- The listings, and the primary group if it is not among them. -/
def groupsOf (user : Bytes) (group : Gid) (file : List GroupEntry) : List Gid :=
  if group ∈ listing user file then listing user file else listing user file ++ [group]

/-- `getgrouplist` counts and fills exactly. -/
structure CountsAndFills (groups : List Gid) (n0 : Nat) (before : Nat → Gid) (r : GrouplistResult) :
    Prop where
  stored : ∀ i < min n0 groups.length, groups[i]? = some (r.groups i)
  bounded : ∀ i, n0 ≤ i → r.groups i = before i
  counted : r.ngroups = groups.length
  returned : r.rc = if groups.length ≤ n0 then (groups.length : Int) else -1

/-- `getgroups` counts exactly. -/
def GetgroupsCounts (groups : List Gid) (rc : Int → Int) : Prop :=
  ∀ size, rc size = if size = 0 ∨ (groups.length : Int) ≤ size then (groups.length : Int) else -1

/-- One of the first buffers, all of which `realloc` gives, is large enough for the line. -/
def Readable (gives : Nat → Bool) (g : GroupEntry) : Prop :=
  ∃ k, (∀ j ≤ k, gives (grbuflen j) = true) ∧ g.room ≤ grbuflen k

open Classical in
/-- The entries before the first line that no buffer is large enough for. -/
noncomputable def readable (gives : Nat → Bool) (file : List GroupEntry) : List GroupEntry :=
  file.takeWhile fun g => decide (Readable gives g)

namespace GroupListLemmas

variable {gives : Nat → Bool} {ngroups : Int} {user : Bytes} {group gid : Gid} {mem : Nat → Gid}

/-! ## 3. The loops -/

/-- The variables of the loops, when some gids have been found. -/
def tallied (ngroups : Int) (group : Gid) (mem : Nat → Gid) (l : List Gid) : Tally :=
  ⟨fill ngroups l mem, l.length, decide (group ∈ l)⟩

theorem listing_cons (g : GroupEntry) (file : List GroupEntry) :
    listing user (g :: file) =
      (g.mem.filter (· = user)).map (fun _ => g.gid) ++ listing user file :=
  List.flatMap_cons

theorem listing_append (file file' : List GroupEntry) :
    listing user (file ++ file') = listing user file ++ listing user file' :=
  List.flatMap_append

theorem add_tallied (l : List Gid) :
    { (tallied ngroups group mem l).add ngroups gid with
      foundGroup := if gid = group then true else (tallied ngroups group mem l).foundGroup } =
      tallied ngroups group mem (l ++ [gid]) := by
  simp only [tallied, Tally.add, fill_append_singleton, List.length_append, List.length_singleton,
    List.mem_append, List.mem_singleton, Tally.mk.injEq, true_and]
  by_cases h : gid = group
  · simp [h]
  · simp [h, Ne.symm h]
    rfl

theorem memberLoop_tallied (members : List Bytes) (l : List Gid) :
    memberLoop ngroups user group gid members (tallied ngroups group mem l) =
      tallied ngroups group mem (l ++ (members.filter (· = user)).map fun _ => gid) := by
  induction members generalizing l with
  | nil => simp [memberLoop]
  | cons member members ih =>
    rw [memberLoop]
    split
    · rename_i h
      have hadd := @add_tallied ngroups group gid mem l
      simp only [Tally.add] at hadd ⊢
      rw [hadd, ih, List.filter_cons_of_pos (by simpa using h), List.map_cons, List.append_assoc,
        List.singleton_append]
    · rename_i h
      rw [ih, List.filter_cons_of_neg (by simpa using h)]

/-- A scan finds what the lines list that fit in the buffer, up to the first that does not. -/
theorem grentLoop_tallied (buflen : Nat) (file : List GroupEntry) (l : List Gid) :
    grentLoop ngroups user group buflen file (tallied ngroups group mem l) =
      (tallied ngroups group mem
          (l ++ listing user (file.takeWhile fun g => decide (g.room ≤ buflen))),
        if ∀ g ∈ file, g.room ≤ buflen then .enoent else .erange) := by
  induction file generalizing l with
  | nil => simp [grentLoop, listing]
  | cons g file ih =>
    rw [grentLoop]
    split
    · rename_i h
      rw [memberLoop_tallied, ih, List.takeWhile_cons_of_pos (by simpa using h), listing_cons,
        List.append_assoc]
      simp only [List.forall_mem_cons, h, true_and]
    · rename_i h
      rw [List.takeWhile_cons_of_neg (by simpa using h), if_neg fun hall => h (hall g (by simp))]
      simp [listing]

theorem listing_takeWhile (p : GroupEntry → Bool) (file : List GroupEntry) :
    listing user (file.takeWhile p) <+: listing user file := by
  obtain ⟨rest, hrest⟩ := List.takeWhile_prefix (l := file) p
  exact ⟨listing user rest, by rw [← listing_append, hrest]⟩

/-- A scan stores over what a scan with a smaller buffer has stored. -/
theorem grentScan_tallied {l : List Gid} {file : Option (List GroupEntry)} {buflen : Nat}
    (h : l <+: listing user ((file.getD []).takeWhile fun g => decide (g.room ≤ buflen))) :
    (grentScan ngroups user group file buflen (tallied ngroups group mem l)).1 =
      tallied ngroups group mem
        (listing user ((file.getD []).takeWhile fun g => decide (g.room ≤ buflen))) := by
  cases file with
  | none =>
    obtain rfl : l = [] := List.prefix_nil.mp h
    simp [grentScan, tallied, listing]
  | some file =>
    rw [Option.getD_some] at h ⊢
    have hstart : ({ tallied ngroups group mem l with found := 0, foundGroup := false } : Tally) =
        tallied ngroups group (fill ngroups l mem) [] := by
      simp [tallied]
    rw [grentScan, hstart, grentLoop_tallied, List.nil_append, tallied, tallied,
      fill_fill ngroups h.length_le]

/-- When all lines fit, the scan ends at the end of the file. -/
theorem grentScan_ends {file : Option (List GroupEntry)} {buflen : Nat} {l : List Gid}
    (h : (grentScan ngroups user group file buflen (tallied ngroups group mem l)).2 ≠ .erange) :
    ∀ g ∈ file.getD [], g.room ≤ buflen := by
  cases file with
  | none => exact fun _ hg => by cases hg
  | some file =>
    have hstart : ({ tallied ngroups group mem l with found := 0, foundGroup := false } : Tally) =
        tallied ngroups group (fill ngroups l mem) [] := by
      simp [tallied]
    rw [grentScan, hstart, grentLoop_tallied] at h
    by_contra hno
    exact h (if_neg hno)

theorem grbuflen_mono : StrictMono grbuflen := strictMono_nat_of_lt_succ grbuflen_lt_succ

/-- What the buffers before the `k`th were large enough for. -/
def readBefore (k : Nat) (file : List GroupEntry) : List GroupEntry :=
  file.takeWhile fun g => decide (∃ j < k, g.room ≤ grbuflen j)

theorem readBefore_succ (k : Nat) (file : List GroupEntry) :
    readBefore (k + 1) file = file.takeWhile fun g => decide (g.room ≤ grbuflen k) := by
  unfold readBefore
  congr 1
  funext g
  refine decide_eq_decide.mpr ⟨?_, fun h => ⟨k, Nat.lt_succ_self k, h⟩⟩
  rintro ⟨j, hj, hroom⟩
  exact Nat.le_trans hroom (grbuflen_mono.monotone (Nat.le_of_lt_succ hj))

/-- The same, when `realloc` has no memory for the `k`th. -/
theorem readable_of_fails {k : Nat} (hbefore : ∀ j < k, gives (grbuflen j) = true)
    (hfails : gives (grbuflen k) ≠ true) (file : List GroupEntry) :
    readable gives file = readBefore k file := by
  unfold readable readBefore
  congr 1
  funext g
  refine decide_eq_decide.mpr ⟨?_, ?_⟩
  · rintro ⟨j, hgives, hroom⟩
    refine ⟨j, Nat.lt_of_not_le fun hle => hfails (hgives k hle), hroom⟩
  · rintro ⟨j, hj, hroom⟩
    exact ⟨j, fun i hi => hbefore i (Nat.lt_of_le_of_lt hi hj), hroom⟩

/-- The same, when the `k`th is large enough for the whole file. -/
theorem readable_of_fits {k : Nat} (hgives : ∀ j ≤ k, gives (grbuflen j) = true)
    {file : List GroupEntry} (hfits : ∀ g ∈ file, g.room ≤ grbuflen k) :
    readable gives file = file :=
  open Classical in
  List.takeWhile_eq_self_iff.mpr fun g hg => decide_eq_true ⟨k, hgives, hfits g hg⟩

theorem readBefore_begins (k : Nat) (file : List GroupEntry) :
    listing user (readBefore k file) <+: listing user (readBefore (k + 1) file) := by
  have h : readBefore k file = (readBefore (k + 1) file).takeWhile fun g =>
      decide (∃ j < k, g.room ≤ grbuflen j) := by
    unfold readBefore
    rw [List.takeWhile_takeWhile]
    congr 1
    funext g
    refine decide_eq_decide.mpr ⟨fun ⟨j, hj, hroom⟩ => ?_, fun hboth => ?_⟩
    · exact ⟨decide_eq_true ⟨j, hj, hroom⟩, decide_eq_true ⟨j, Nat.lt_succ_of_lt hj, hroom⟩⟩
    · exact of_decide_eq_true hboth.1
  rw [h]
  exact listing_takeWhile _ _

/-- What has been found when the loop ends. -/
theorem growLoop_eq (file : Option (List GroupEntry)) (k : Nat)
    (hbefore : ∀ j < k, gives (grbuflen j) = true) :
    growLoop gives ngroups user group file k
        (tallied ngroups group mem (listing user (readBefore k (file.getD [])))) =
      tallied ngroups group mem (listing user (readable gives (file.getD []))) := by
  rw [growLoop]
  split
  · rename_i hgives
    have hupto : ∀ j ≤ k, gives (grbuflen j) = true := fun j hj =>
      (Nat.lt_or_eq_of_le hj).elim (hbefore j) fun heq => heq ▸ hgives
    have hbegins := @readBefore_begins user k (file.getD [])
    rw [readBefore_succ] at hbegins
    have hscan := @grentScan_tallied ngroups user group mem _ file _ hbegins
    split
    · rename_i t hrun
      have hlong := grentScan_erange_lt (congrArg Prod.snd hrun)
      have hgrows := grbuflen_lt_succ k
      rw [hrun, ← readBefore_succ] at hscan
      obtain rfl : t = _ := hscan
      exact growLoop_eq file (k + 1) fun j hj => hupto j (Nat.le_of_lt_succ hj)
    · rename_i t rc hne hrun
      have hends : ∀ g ∈ file.getD [], g.room ≤ grbuflen k :=
        grentScan_ends fun herange => hne (by rw [← herange, hrun])
      rw [hrun, List.takeWhile_eq_self_iff.mpr fun g hg => decide_eq_true (hends g hg)] at hscan
      obtain rfl : t = _ := hscan
      rw [readable_of_fits hupto hends]
  · rename_i hfails
    rw [readable_of_fails hbefore hfails]
termination_by ((file.getD []).map GroupEntry.room).sum - grbuflen k
decreasing_by omega

/-- What `wrap_getgrouplist` returns and stores. -/
theorem wrapGetgrouplist_eq (file : Option (List GroupEntry)) :
    wrapGetgrouplist gives file user group mem ngroups =
      { rc := if ((groupsOf user group (readable gives (file.getD []))).length : Int) ≥ ngroups
          then -1 else (groupsOf user group (readable gives (file.getD []))).length
        groups := fill ngroups (groupsOf user group (readable gives (file.getD []))) mem
        ngroups := (groupsOf user group (readable gives (file.getD []))).length } := by
  have hloop := @growLoop_eq gives ngroups user group mem file 0
    (fun j hj => absurd hj (Nat.not_lt_zero j))
  have hnone : readBefore 0 (file.getD []) = [] := by
    unfold readBefore
    cases file.getD [] <;> simp
  have hstart : tallied ngroups group mem (listing user (readBefore 0 (file.getD []))) =
      ⟨mem, 0, false⟩ := by
    rw [hnone]
    simp [tallied, listing]
  rw [hstart] at hloop
  unfold wrapGetgrouplist
  rw [hloop]
  generalize readable gives (file.getD []) = read
  unfold groupsOf
  split
  · rename_i h
    simp [tallied, h]
  · rename_i h
    simp [tallied, h, Tally.add, fill_append_singleton]

/-! ## 4. What is missing -/

/-- A part of the file that has as many groups has the same. -/
theorem groupsOf_eq_of_length {file file' : List GroupEntry}
    (hbegins : listing user file <+: listing user file')
    (hlength : (groupsOf user group file).length = (groupsOf user group file').length) :
    groupsOf user group file = groupsOf user group file' := by
  obtain ⟨rest, hrest⟩ := hbegins
  simp only [groupsOf, ← hrest, List.mem_append] at hlength ⊢
  by_cases hfound : group ∈ listing user file
  · simp only [hfound, true_or, if_true, List.length_append] at hlength ⊢
    obtain rfl : rest = [] := List.eq_nil_of_length_eq_zero (by omega)
    simp
  · by_cases hlater : group ∈ rest
    · simp only [hfound, hlater, false_or, if_true, if_false, List.length_append,
        List.length_singleton] at hlength ⊢
      obtain ⟨a, rfl⟩ := List.length_eq_one_iff.mp (by omega : rest.length = 1)
      rw [List.mem_singleton.mp hlater]
    · simp only [hfound, hlater, or_self, if_false, List.length_append,
        List.length_singleton] at hlength ⊢
      obtain rfl : rest = [] := List.eq_nil_of_length_eq_zero (by omega)
      simp

/-- `getgrouplist` is exact when it has read what it counts, but for one capacity. -/
theorem countsAndFills_iff (l l' : List Gid) (n0 : Nat) :
    CountsAndFills l n0 mem
        { rc := if (l'.length : Int) ≥ n0 then -1 else l'.length
          groups := fill n0 l' mem
          ngroups := l'.length } ↔
      (l'.length = l.length ∧ ∀ i < min n0 l.length, l[i]? = l'[i]?) ∧ l.length ≠ n0 := by
  constructor
  · rintro ⟨hstored, -, hcounted, hreturned⟩
    dsimp only at hstored hcounted hreturned
    have hlength : l'.length = l.length := Int.ofNat.inj hcounted
    refine ⟨⟨hlength, fun i hi => ?_⟩, fun heq => ?_⟩
    · have hfill : l'[i]? = some (fill n0 l' mem i) := fill_getElem? (by omega) (by omega) mem
      rw [hstored i hi, hfill]
    · rw [hlength, heq, if_pos (Int.le_refl _), if_pos (Nat.le_refl _)] at hreturned
      omega
  · rintro ⟨⟨hlength, hsame⟩, hne⟩
    refine ⟨fun i hi => ?_, fun i hi => fill_of_le (by omega) _ _, by simp [hlength], ?_⟩
    · have hfill : l'[i]? = some (fill n0 l' mem i) := fill_getElem? (by omega) (by omega) mem
      rw [hsame i hi, hfill]
    · dsimp only
      rcases Nat.lt_or_gt_of_ne hne with hlt | hgt
      · rw [if_neg (by omega), if_pos (by omega), hlength]
      · rw [if_pos (by omega), if_neg (by omega)]

/-- `wrap_getgroups` mends the return code for the exact fit. -/
theorem wrapGetgroups_eq (file : Option (List GroupEntry)) (size : Int) :
    (wrapGetgroups gives file (some user) group mem size).1 =
      if size = 0 ∨ ((groupsOf user group (readable gives (file.getD []))).length : Int) ≤ size then
        ((groupsOf user group (readable gives (file.getD []))).length : Int)
      else -1 := by
  simp only [wrapGetgroups, wrapGetgrouplist_eq]
  split
  · rfl
  · rename_i h
    rw [if_pos (by omega)]

end GroupListLemmas

/-! ## 5. The result -/

open GroupListLemmas in
/-- When `getgrouplist` counts and fills exactly, and `getgroups` counts exactly. -/
theorem getgrouplist_iff (gives : Nat → Bool) (file : Option (List GroupEntry)) (user : Bytes)
    (group : Gid) (groups list : Nat → Gid) (n0 : Nat) :
    (CountsAndFills (groupsOf user group (file.getD [])) n0 groups
        (wrapGetgrouplist gives file user group groups n0) ∧
      GetgroupsCounts (groupsOf user group (file.getD []))
        fun size => (wrapGetgroups gives file (some user) group list size).1) ↔
      groupsOf user group (readable gives (file.getD [])) = groupsOf user group (file.getD []) ∧
        (groupsOf user group (file.getD [])).length ≠ n0 := by
  rw [wrapGetgrouplist_eq, countsAndFills_iff]
  constructor
  · rintro ⟨⟨⟨hlength, -⟩, hne⟩, -⟩
    exact ⟨groupsOf_eq_of_length (listing_takeWhile _ _) hlength, hne⟩
  · rintro ⟨heq, hne⟩
    refine ⟨⟨⟨by rw [heq], fun i _ => by rw [heq]⟩, hne⟩, fun size => ?_⟩
    dsimp only
    rw [wrapGetgroups_eq, heq]

/-- `root:x:0:root` -/
def exRootGroup : GroupEntry := { gid := 0, mem := [[114, 111, 111, 116]], room := 40 }

open GroupListLemmas in
/-- `root` has one group, and there is room for one. -/
theorem getgrouplist_exact_fit :
    groupsOf [114, 111, 111, 116] 0 [exRootGroup] = [0] ∧
      (wrapGetgrouplist (fun _ => true) (some [exRootGroup]) [114, 111, 111, 116] 0
        (fun _ => 7) 1).rc = -1 ∧
      ¬ CountsAndFills (groupsOf [114, 111, 111, 116] 0 [exRootGroup]) 1 (fun _ => 7)
        (wrapGetgrouplist (fun _ => true) (some [exRootGroup]) [114, 111, 111, 116] 0
          (fun _ => 7) 1) := by
  have hread : readable (fun _ => true) [exRootGroup] = [exRootGroup] :=
    readable_of_fits (k := 0) (fun _ _ => rfl) (by decide)
  have hone : groupsOf [114, 111, 111, 116] 0 [exRootGroup] = [0] := by decide
  have hrc : (wrapGetgrouplist (fun _ => true) (some [exRootGroup]) [114, 111, 111, 116] 0
      (fun _ => 7) 1).rc = -1 := by
    rw [wrapGetgrouplist_eq, Option.getD_some, hread, hone]
    rfl
  refine ⟨hone, hrc, fun h => ?_⟩
  have hreturned := h.returned
  rw [hrc, hone] at hreturned
  exact absurd hreturned (by decide)

end Pseudo

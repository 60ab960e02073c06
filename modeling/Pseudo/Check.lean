import Pseudo.Attributes
import Pseudo.Library.Run
import Pseudo.Lookup

/-!
# Repairing the database: `pseudo_db_check`

The `-B` and `-C` modes of the server scan `files` against the host: rows with another inode
than the host's are renumbered during the scan, rows of another type or without a file are
marked with the process id and removed after it.

Results:
1. `scan_progress`: what the scan has done to each row.
2. `pseudoDbCheck_repaired_iff`: exactly when a repair leaves the rows it should, and a second
   check finds nothing to do.
3. `repair_removes_marked_row`: a row that happens to carry the process id as its mark goes.
-/

namespace Pseudo

open Table

/-! ## The check -/

/-- `struct stat`, as far as the check reads it. -/
structure HostStat where
  dev : BitVec 64
  ino : BitVec 64
  mode : BitVec 32
  deriving DecidableEq, Repr

/-- The host filesystem; `none` when `lstat` fails. -/
abbrev Lstat := Bytes → Option HostStat

/-- `pdb_file`: the message of a row. -/
def pdbFile (r : FileRow) : MsgHeader :=
  { MsgHeader.zero with dev := columnInt64 r.dev, ino := r.ino, uid := r.uid, gid := r.gid,
                        mode := columnInt64 r.mode, rdev := columnInt64 r.rdev,
                        pathlen := r.path.length + 1 }

/-- `fixup_needed`: 0, 1 and 2. -/
inductive Fixup
  | none | renumber | delete
  deriving DecidableEq, Repr

/-- The message with the host's inode, and what has to be fixed. -/
def fixupNeeded (lstat : Lstat) (m : MsgHeader) (path : Bytes) : MsgHeader × Fixup :=
  match lstat path with
  | none => (m, .delete)
  | some buf =>
    let (m, fixup) :=
      if buf.ino ≠ m.ino then ({ m with ino := buf.ino }, Fixup.renumber) else (m, .none)
    let (m, fixup) :=
      if buf.dev ≠ m.dev then ({ m with dev := buf.dev }, .renumber) else (m, fixup)
    let fixup := if sIslnk (buf.mode.setWidth 64) ≠ sIslnk m.mode then .delete else fixup
    let fixup := if sIsdir (buf.mode.setWidth 64) ≠ sIsdir m.mode then .delete else fixup
    (m, fixup)

/-- `EXIT_FAILURE`. -/
def exitFailure : Int := 1

structure CheckState where
  db : Db
  errors : Int
  deleteSome : Bool
  deriving DecidableEq, Repr

/-- One row of the scan. In fixup mode, either delete (mismatches) or correct (dev/ino). -/
def checkFile (sq : Sqlite) (lstat : Lstat) (cookie : BitVec 32) (fix : Bool) (s : CheckState)
    (r : FileRow) : CheckState :=
  if 0 < (pdbFile r).pathlen then
    match fixupNeeded lstat (pdbFile r) r.path with
    | (_, .none) => s
    | (m, .renumber) =>
      if fix then { s with db := pdbUpdateInode sq s.db m r.path }
      else { s with errors := exitFailure }
    | (m, .delete) =>
      if fix then
        let (db, rc) := pdbMayUnlinkFile s.db m r.path cookie
        { db := db, deleteSome := true, errors := if rc ≠ 0 then exitFailure else s.errors }
      else { s with errors := exitFailure }
  else s

/-- The scan visits the rows in the order of the table, and sees each as it is by then. -/
def scan (sq : Sqlite) (lstat : Lstat) (cookie : BitVec 32) (fix : Bool) (s : CheckState)
    (i : Nat) : CheckState :=
  match s.db.files[i]? with
  | some r => checkFile sq lstat cookie fix s r
  | none => s

/-- Delete all files attached to a given cookie. -/
def pdbDidUnlinkFiles (db : Db) (deleting : BitVec 32) : Db :=
  if deleting = 0 then db
  else pdbClearUnusedXattrs { db with files := delete (fun r => r.deleting == deleting) db.files }

/-- `cookie` is the process id; the result is the exit status. -/
def pseudoDbCheck (sq : Sqlite) (lstat : Lstat) (cookie : BitVec 32) (fix : Bool) (db : Db) :
    Db × Int :=
  let s := Run.run (scan sq lstat cookie fix) ⟨db, 0, false⟩ (List.range db.files.length)
  -- and now delete files marked for deletion
  (if s.deleteSome then pdbDidUnlinkFiles s.db cookie else s.db, s.errors)

/-! ## What a repair is to leave -/

/-- The file is there, and `S_ISLNK` and `S_ISDIR` agree with the host. -/
def agrees (lstat : Lstat) (r : FileRow) : Bool :=
  match lstat r.path with
  | none => false
  | some buf =>
    sIslnk (buf.mode.setWidth 64) == sIslnk (columnInt64 r.mode) &&
      sIsdir (buf.mode.setWidth 64) == sIsdir (columnInt64 r.mode)

/-- A row after the repair: the inode is the host's. -/
structure RepairedRow (lstat : Lstat) (r r' : FileRow) : Prop where
  path : r'.path = r.path
  uid : r'.uid = r.uid
  gid : r'.gid = r.gid
  mode : r'.mode = r.mode
  rdev : r'.rdev = r.rdev
  inode : ∃ buf, lstat r.path = some buf ∧ columnInt64 r'.dev = buf.dev ∧ r'.ino = buf.ino

/-- A successful repair leaves the rows that agree with the host, and a second check reports
nothing and changes nothing. -/
def Converges (sq : Sqlite) (lstat : Lstat) (cookie : BitVec 32) (db : Db) : Prop :=
  (pseudoDbCheck sq lstat cookie true db).2 = 0 →
    List.Forall₂ (RepairedRow lstat) (db.files.filter (agrees lstat))
      (pseudoDbCheck sq lstat cookie true db).1.files ∧
    pseudoDbCheck sq lstat cookie false (pseudoDbCheck sq lstat cookie true db).1 =
      ((pseudoDbCheck sq lstat cookie true db).1, 0)

/-- The rows that agree with the host share no path with one that does not; when there are such,
none carries the process id as its mark; and their device numbers fit. -/
structure Repairable (lstat : Lstat) (cookie : BitVec 32) (t : List FileRow) : Prop where
  apart : ∀ r ∈ t, agrees lstat r = true → ∀ q ∈ t, agrees lstat q = false → q.path ≠ r.path
  unmarked : (∃ q ∈ t, agrees lstat q = false) → ∀ r ∈ t, agrees lstat r = true →
    r.deleting ≠ cookie
  fits : ∀ r ∈ t, agrees lstat r = true → ∀ buf, lstat r.path = some buf → DevFits buf.dev

namespace CheckLemmas

variable {sq : Sqlite} {lstat : Lstat} {cookie : BitVec 32} {fix : Bool} {s : CheckState}
  {r r' q : FileRow} {buf : HostStat} {t t' : List FileRow}

/-! ## One row -/

/-- The row has the host's inode already. -/
def upToDate (buf : HostStat) (r : FileRow) : Bool :=
  buf.dev == columnInt64 r.dev && buf.ino == r.ino

/-- The host's inode, as `files` holds it. -/
def hostKey (buf : HostStat) : BitVec 32 × BitVec 64 := (bindInt buf.dev, buf.ino)

theorem key_of_upToDate (h : upToDate buf r = true) : r.key = hostKey buf := by
  simp only [upToDate, Bool.and_eq_true, beq_iff_eq] at h
  simp [FileRow.key, hostKey, h.1, h.2]

theorem fixupNeeded_none (hb : lstat r.path = none) :
    fixupNeeded lstat (pdbFile r) r.path = (pdbFile r, .delete) := by
  rw [fixupNeeded, hb]

/-- The file is there: the message gets the host's inode, and a wrong type outweighs a wrong
inode. -/
theorem fixupNeeded_some (hb : lstat r.path = some buf) :
    fixupNeeded lstat (pdbFile r) r.path =
      ({ pdbFile r with dev := buf.dev, ino := buf.ino },
        if agrees lstat r then if upToDate buf r then .none else .renumber else .delete) := by
  have hino : (if buf.ino ≠ (pdbFile r).ino then
      ({ pdbFile r with ino := buf.ino }, Fixup.renumber) else (pdbFile r, .none)) =
      ({ pdbFile r with ino := buf.ino }, if buf.ino = r.ino then .none else .renumber) := by
    rcases Decidable.em (buf.ino = r.ino) with he | he <;> simp [pdbFile, he]
  have hdev : ∀ fixup : Fixup, (if buf.dev ≠ (pdbFile r).dev then
      ({ pdbFile r with dev := buf.dev, ino := buf.ino }, Fixup.renumber)
        else ({ pdbFile r with ino := buf.ino }, fixup)) =
      ({ pdbFile r with dev := buf.dev, ino := buf.ino },
        if buf.dev = columnInt64 r.dev then fixup else .renumber) := by
    intro fixup
    rcases Decidable.em (buf.dev = columnInt64 r.dev) with he | he <;> simp [pdbFile, he]
  have hmode : (pdbFile r).mode = columnInt64 r.mode := rfl
  unfold fixupNeeded agrees upToDate
  rw [hb]
  dsimp only
  rw [hino]
  dsimp only
  rw [hdev]
  dsimp only
  rw [hmode]
  congr 1
  grind

theorem agrees_congr (hpath : r'.path = r.path) (hmode : r'.mode = r.mode) :
    agrees lstat r' = agrees lstat r := by
  unfold agrees
  rw [hpath, hmode]

/-- `deleting = cookie` for the rows of the path. -/
def mark (cookie : BitVec 32) (path : Bytes) (t : List FileRow) : List FileRow :=
  update (atPath path) (fun r => { r with deleting := cookie }) t

/-- The host's inode for the rows of the path. -/
def renumber (buf : HostStat) (path : Bytes) (t : List FileRow) : List FileRow :=
  update (atPath path) (fun r => { r with dev := bindInt buf.dev, ino := buf.ino }) t

/-- A row that does not agree is marked, with every row of its path. -/
theorem checkFile_delete (sq : Sqlite) (cookie : BitVec 32) (h : agrees lstat r = false)
    (hr : r ∈ s.db.files) :
    (checkFile sq lstat cookie true s r).db.files = mark cookie r.path s.db.files ∧
      (checkFile sq lstat cookie true s r).deleteSome = true ∧
      (checkFile sq lstat cookie true s r).errors = s.errors := by
  have hdelete : ∃ m, fixupNeeded lstat (pdbFile r) r.path = (m, .delete) ∧ m.pathlen ≠ 0 := by
    cases hb : lstat r.path with
    | none => exact ⟨_, fixupNeeded_none hb, by simp [pdbFile]⟩
    | some buf =>
      refine ⟨_, by rw [fixupNeeded_some hb, h]; rfl, ?_⟩
      simp [pdbFile]
  obtain ⟨m, hm, hlen⟩ := hdelete
  have hmarked : pdbMayUnlinkFile s.db m r.path cookie =
      ({ s.db with files := mark cookie r.path s.db.files }, 0) := by
    unfold pdbMayUnlinkFile
    rw [if_neg hlen]
    dsimp only
    rw [if_pos]
    · rfl
    · refine Nat.pos_of_ne_zero fun h0 => ?_
      have := count_eq_zero.mp h0 r hr
      simp at this
  unfold checkFile
  rw [if_pos (by simp [pdbFile]), hm]
  dsimp only
  rw [if_pos rfl, hmarked]
  exact ⟨rfl, rfl, rfl⟩

/-- A row that agrees is renumbered, with every row of its path, if it has to be. -/
theorem checkFile_agrees (sq : Sqlite) (cookie : BitVec 32) (s : CheckState)
    (h : agrees lstat r = true) (hb : lstat r.path = some buf) :
    (checkFile sq lstat cookie true s r).db.files =
        (if upToDate buf r then s.db.files else renumber buf r.path s.db.files) ∧
      (checkFile sq lstat cookie true s r).deleteSome = s.deleteSome ∧
      (checkFile sq lstat cookie true s r).errors = s.errors := by
  unfold checkFile
  rw [if_pos (by simp [pdbFile]), fixupNeeded_some hb, h, if_pos rfl]
  cases hu : upToDate buf r with
  | true => exact ⟨rfl, rfl, rfl⟩
  | false =>
    refine ⟨?_, rfl, rfl⟩
    dsimp only
    rw [if_neg (by simp), if_neg (by simp)]
    dsimp only
    rw [if_pos rfl]
    dsimp only
    rw [pdbUpdateInode_files, if_neg (by simp [pdbFile])]
    simp only [setInode, signedIno_eq]
    rfl

/-! ## The scan -/

/-- What the scan changes in a row: the inode, and the mark once a row of the path that does not
agree was visited. -/
structure Seen (lstat : Lstat) (cookie : BitVec 32) (visited : List FileRow) (r r' : FileRow) :
    Prop where
  path : r'.path = r.path
  uid : r'.uid = r.uid
  gid : r'.gid = r.gid
  mode : r'.mode = r.mode
  rdev : r'.rdev = r.rdev
  deleting : r'.deleting =
    if visited.any fun q => !agrees lstat q && q.path == r.path then cookie else r.deleting

/-- The row has the host's inode. -/
def Settled (lstat : Lstat) (r : FileRow) : Prop :=
  ∃ buf, lstat r.path = some buf ∧ r.key = hostKey buf

/-- The scan of `t` before row `i`. -/
structure Progress (lstat : Lstat) (cookie : BitVec 32) (t : List FileRow) (i : Nat)
    (s : CheckState) : Prop where
  length : t.length = s.db.files.length
  seen : ∀ (j : Nat) r r', t[j]? = some r → s.db.files[j]? = some r' →
    Seen lstat cookie (t.take i) r r'
  settled : ∀ (j : Nat) r r', t[j]? = some r → s.db.files[j]? = some r' → j < i →
    agrees lstat r = true → Settled lstat r'
  deleteSome : s.deleteSome = (t.take i).any fun q => !agrees lstat q
  errors : s.errors = 0

theorem seen_mark (h : Seen lstat cookie t r r') (hq : agrees lstat q = false) :
    Seen lstat cookie (t ++ [q]) r
      (if atPath q.path r' then { r' with deleting := cookie } else r') := by
  rcases Decidable.em (r.path = q.path) with hp | hp
  · have hp' : atPath q.path r' = true := by rw [atPath_iff, h.path, hp]
    rw [if_pos hp']
    exact ⟨h.path, h.uid, h.gid, h.mode, h.rdev, by simp [hq, hp]⟩
  · have hp' : ¬ atPath q.path r' = true := by rw [atPath_iff, h.path]; exact hp
    rw [if_neg hp']
    refine ⟨h.path, h.uid, h.gid, h.mode, h.rdev, ?_⟩
    rw [h.deleting, List.any_append]
    simp [Ne.symm hp]

theorem seen_append (h : Seen lstat cookie t r r') (hq : agrees lstat q = true) :
    Seen lstat cookie (t ++ [q]) r r' := by
  refine ⟨h.path, h.uid, h.gid, h.mode, h.rdev, ?_⟩
  rw [h.deleting, List.any_append]
  simp [hq]

theorem seen_renumber (h : Seen lstat cookie t r r') (path : Bytes) (buf : HostStat) :
    Seen lstat cookie t r
      (if atPath path r' then { r' with dev := bindInt buf.dev, ino := buf.ino } else r') := by
  split
  · exact ⟨h.path, h.uid, h.gid, h.mode, h.rdev, h.deleting⟩
  · exact h

theorem take_succ_of_getElem? {i : Nat} {q : FileRow} (hq : t[i]? = some q) :
    t.take (i + 1) = t.take i ++ [q] := by
  rw [List.take_add_one, hq]
  rfl

/-- The step at a row that does not agree. -/
theorem progress_delete {i : Nat} {q q' : FileRow} (h : Progress lstat cookie t i s)
    (hq : t[i]? = some q) (hq' : s.db.files[i]? = some q') (ha : agrees lstat q = false) :
    Progress lstat cookie t (i + 1) (checkFile sq lstat cookie true s q') := by
  have hqs := h.seen i q q' hq hq'
  have hagree : agrees lstat q' = agrees lstat q := agrees_congr hqs.path hqs.mode
  have htake := take_succ_of_getElem? hq
  obtain ⟨hfiles, hsome, herrors⟩ := checkFile_delete sq cookie (hagree.trans ha)
    (List.mem_of_getElem? hq')
  refine ⟨?_, fun j r r' hr hr' => ?_, fun j r r' hr hr' hj hagr => ?_, ?_, ?_⟩
  · rw [hfiles, h.length]
    simp [mark, update]
  · rw [hfiles, mark, getElem?_update, Option.map_eq_some_iff] at hr'
    obtain ⟨r₁, hr₁, rfl⟩ := hr'
    rw [htake, hqs.path]
    exact seen_mark (h.seen j r r₁ hr hr₁) ha
  · rw [hfiles, mark, getElem?_update, Option.map_eq_some_iff] at hr'
    obtain ⟨r₁, hr₁, rfl⟩ := hr'
    have hji : j ≠ i := by
      rintro rfl
      rw [hq] at hr
      obtain rfl := Option.some.inj hr
      rw [ha] at hagr
      exact absurd hagr (by simp)
    have hset := h.settled j r r₁ hr hr₁ (by omega) hagr
    split
    · exact hset
    · exact hset
  · rw [hsome, htake, List.any_append]
    simp [ha]
  · rw [herrors, h.errors]

/-- The rows after a row that agrees was visited. -/
theorem checkFile_rows {i : Nat} {q' : FileRow} {buf : HostStat}
    (hq' : s.db.files[i]? = some q') (ha : agrees lstat q' = true)
    (hb : lstat q'.path = some buf) (j : Nat) (r' : FileRow)
    (hr' : (checkFile sq lstat cookie true s q').db.files[j]? = some r') :
    ∃ r₁, s.db.files[j]? = some r₁ ∧ (r₁ = r' ∧ (j = i → upToDate buf r' = true) ∨
      r' = if atPath q'.path r₁ then { r₁ with dev := bindInt buf.dev, ino := buf.ino }
        else r₁) := by
  rw [(checkFile_agrees sq cookie s ha hb).1] at hr'
  split at hr'
  · rename_i hu
    refine ⟨r', hr', Or.inl ⟨rfl, ?_⟩⟩
    rintro rfl
    rw [hq'] at hr'
    exact Option.some.inj hr' ▸ hu
  · rw [renumber, getElem?_update, Option.map_eq_some_iff] at hr'
    obtain ⟨r₁, hr₁, he⟩ := hr'
    exact ⟨r₁, hr₁, Or.inr he.symm⟩

/-- The step at a row that agrees. -/
theorem progress_agrees {i : Nat} {q q' : FileRow} (h : Progress lstat cookie t i s)
    (hq : t[i]? = some q) (hq' : s.db.files[i]? = some q') (ha : agrees lstat q = true) :
    Progress lstat cookie t (i + 1) (checkFile sq lstat cookie true s q') := by
  have hqs := h.seen i q q' hq hq'
  have hagree : agrees lstat q' = true := (agrees_congr hqs.path hqs.mode).trans ha
  have htake := take_succ_of_getElem? hq
  obtain ⟨buf, hb⟩ : ∃ buf, lstat q'.path = some buf := by
    rw [hqs.path]
    unfold agrees at ha
    split at ha
    · exact absurd ha (by simp)
    · rename_i buf hb
      exact ⟨buf, hb⟩
  obtain ⟨hfiles, hsome, herrors⟩ := checkFile_agrees sq cookie s hagree hb
  refine ⟨?_, fun j r r' hr hr' => ?_, fun j r r' hr hr' hj hagr => ?_, ?_, ?_⟩
  · rw [hfiles, h.length]
    split
    · rfl
    · simp [renumber, update]
  · rw [htake]
    obtain ⟨r₁, hr₁, ⟨rfl, _⟩ | rfl⟩ := checkFile_rows hq' hagree hb j r' hr'
    · exact seen_append (h.seen j r r₁ hr hr₁) ha
    · exact seen_append (seen_renumber (h.seen j r r₁ hr hr₁) _ _) ha
  · obtain ⟨r₁, hr₁, ⟨rfl, hu⟩ | rfl⟩ := checkFile_rows hq' hagree hb j r' hr'
    · rcases Nat.lt_succ_iff_lt_or_eq.mp hj with hj | rfl
      · exact h.settled j r r₁ hr hr₁ hj hagr
      · obtain rfl : q' = r₁ := Option.some.inj (hq'.symm.trans hr₁)
        exact ⟨buf, hb, key_of_upToDate (hu rfl)⟩
    · split
      · rename_i hp
        exact ⟨buf, by rw [← hb, atPath_iff.mp hp], rfl⟩
      · rename_i hp
        rcases Nat.lt_succ_iff_lt_or_eq.mp hj with hj | rfl
        · exact h.settled j r r₁ hr hr₁ hj hagr
        · obtain rfl : q' = r₁ := Option.some.inj (hq'.symm.trans hr₁)
          exact absurd (atPath_iff.mpr rfl) hp
  · rw [hsome, h.deleteSome, htake, List.any_append]
    simp [ha]
  · rw [herrors, h.errors]

/-- The step lemma. -/
theorem scan_step {i : Nat} (h : Progress lstat cookie t i s) (hi : i < t.length) :
    Progress lstat cookie t (i + 1) (scan sq lstat cookie true s i) := by
  obtain ⟨q, hq⟩ : ∃ q, t[i]? = some q := ⟨_, List.getElem?_eq_getElem hi⟩
  obtain ⟨q', hq'⟩ : ∃ q', s.db.files[i]? = some q' :=
    ⟨_, List.getElem?_eq_getElem (h.length ▸ hi)⟩
  rw [scan, hq']
  cases ha : agrees lstat q with
  | false => exact progress_delete h hq hq' ha
  | true => exact progress_agrees h hq hq' ha

/-- The run lemma: what the scan has done to each row. -/
theorem scan_progress (sq : Sqlite) (lstat : Lstat) (cookie : BitVec 32) (db : Db) {i : Nat}
    (hi : i ≤ db.files.length) :
    Progress lstat cookie db.files i
      (Run.run (scan sq lstat cookie true) ⟨db, 0, false⟩ (List.range i)) := by
  induction i with
  | zero =>
    refine ⟨rfl, fun j r r' hr hr' => ?_, fun j _ _ _ _ hj => absurd hj (Nat.not_lt_zero j), rfl,
      rfl⟩
    obtain rfl := Option.some.inj (hr.symm.trans hr')
    exact ⟨rfl, rfl, rfl, rfl, rfl, rfl⟩
  | succ i ih =>
    rw [List.range_succ, Run.run_append]
    exact scan_step (ih (by omega)) (by omega)

/-- Some row does not agree with the host. -/
def anyWrong (lstat : Lstat) (t : List FileRow) : Bool := t.any fun q => !agrees lstat q

/-- The rows that stay after the scan. -/
def stays (lstat : Lstat) (cookie : BitVec 32) (t : List FileRow) (r' : FileRow) : Bool :=
  !(anyWrong lstat t && r'.deleting == cookie)

/-- A row of the table and what the scan makes of it. -/
structure Visited (lstat : Lstat) (cookie : BitVec 32) (t : List FileRow) (r r' : FileRow) :
    Prop where
  mem : r ∈ t
  seen : Seen lstat cookie t r r'
  settled : agrees lstat r = true → Settled lstat r'

/-- The scan, and the removal of the marked rows. -/
theorem pseudoDbCheck_fix (sq : Sqlite) (lstat : Lstat) (hcookie : cookie ≠ 0) (db : Db) :
    (pseudoDbCheck sq lstat cookie true db).2 = 0 ∧
    ∃ t', List.Forall₂ (Visited lstat cookie db.files) db.files t' ∧
      (pseudoDbCheck sq lstat cookie true db).1.files =
        t'.filter (stays lstat cookie db.files) := by
  have h := scan_progress sq lstat cookie db (Nat.le_refl _)
  unfold pseudoDbCheck
  dsimp only
  generalize Run.run (scan sq lstat cookie true) ⟨db, 0, false⟩ (List.range db.files.length) = s
    at h ⊢
  have hsome : s.deleteSome = anyWrong lstat db.files := by
    rw [h.deleteSome, List.take_length]
    rfl
  refine ⟨h.errors, s.db.files, ?_, ?_⟩
  · refine forall₂_of_getElem? h.length fun j r r' hr hr' => ?_
    have hseen := h.seen j r r' hr hr'
    rw [List.take_length] at hseen
    obtain ⟨hj, _⟩ := List.getElem?_eq_some_iff.mp hr
    exact ⟨List.mem_of_getElem? hr, hseen, h.settled j r r' hr hr' hj⟩
  · rw [hsome]
    cases hw : anyWrong lstat db.files with
    | true =>
      rw [if_pos rfl, pdbDidUnlinkFiles, if_neg hcookie]
      refine List.filter_congr fun r _ => ?_
      simp [stays, hw]
    | false =>
      rw [if_neg (by simp), List.filter_eq_self.mpr]
      simp [stays, hw]

/-- A row that does not agree never stays. -/
theorem agrees_of_stays (h : Visited lstat cookie t r r') (hs : stays lstat cookie t r' = true) :
    agrees lstat r = true := by
  cases ha : agrees lstat r with
  | true => rfl
  | false =>
    have hwrong : anyWrong lstat t = true := List.any_eq_true.mpr ⟨r, h.mem, by simp [ha]⟩
    have hmarked : t.any (fun q => !agrees lstat q && q.path == r.path) = true :=
      List.any_eq_true.mpr ⟨r, h.mem, by simp [ha]⟩
    have hd := h.seen.deleting
    rw [if_pos hmarked] at hd
    simp [stays, hwrong, hd] at hs

/-- A row stays unless it carries the mark, or shares its path with a row that does not agree. -/
theorem stays_iff (h : Visited lstat cookie t r r') : stays lstat cookie t r' = true ↔
    (∀ q ∈ t, agrees lstat q = false → q.path ≠ r.path) ∧
      ((∃ q ∈ t, agrees lstat q = false) → r.deleting ≠ cookie) := by
  have hwrong : anyWrong lstat t = true ↔ ∃ q ∈ t, agrees lstat q = false := by
    simp [anyWrong]
  have hd := h.seen.deleting
  constructor
  · intro hs
    have hno : (∃ q ∈ t, agrees lstat q = false) → r'.deleting ≠ cookie := by
      intro hex he
      simp [stays, hwrong.mpr hex, he] at hs
    refine ⟨fun q hq ha hp => ?_, fun hex hr => ?_⟩
    · rw [if_pos (List.any_eq_true.mpr ⟨q, hq, by simp [ha, hp]⟩)] at hd
      exact hno ⟨q, hq, ha⟩ hd
    · refine hno hex ?_
      rw [hd]
      split
      · rfl
      · exact hr
  · rintro ⟨hapart, hmark⟩
    cases hw : anyWrong lstat t with
    | false => simp [stays, hw]
    | true =>
      rw [if_neg] at hd
      · have hne := hmark (hwrong.mp hw)
        simp [stays, hd, hne]
      · rw [List.any_eq_true]
        rintro ⟨q, hq, hcond⟩
        simp only [Bool.and_eq_true, Bool.not_eq_true', beq_iff_eq] at hcond
        exact hapart q hq hcond.1 hcond.2

/-- A second check has nothing to do for rows that agree and have the host's inode. -/
theorem pseudoDbCheck_clean {db : Db} (h : ∀ r ∈ db.files, agrees lstat r = true ∧
      ∃ buf, lstat r.path = some buf ∧ columnInt64 r.dev = buf.dev ∧ r.ino = buf.ino) :
    pseudoDbCheck sq lstat cookie false db = (db, 0) := by
  have hstep : ∀ i, scan sq lstat cookie false ⟨db, 0, false⟩ i = ⟨db, 0, false⟩ := by
    intro i
    unfold scan
    dsimp only
    split
    · rename_i r hr
      obtain ⟨ha, buf, hb, hdev, hino⟩ := h r (List.mem_of_getElem? hr)
      have hu : upToDate buf r = true := by
        simp [upToDate, hdev, hino]
      unfold checkFile
      rw [if_pos (by simp [pdbFile]), fixupNeeded_some hb, ha, hu]
      rfl
    · rfl
  have hrun : ∀ is, Run.run (scan sq lstat cookie false) ⟨db, 0, false⟩ is = ⟨db, 0, false⟩ := by
    intro is
    induction is with
    | nil => rfl
    | cons i is ih => rw [Run.run_cons, hstep, ih]
  unfold pseudoDbCheck
  rw [hrun]
  rfl

end CheckLemmas

open CheckLemmas

/-- A repair converges exactly when the rows that agree with the host are apart from the others,
do not carry the process id, and have device numbers that fit. -/
theorem pseudoDbCheck_repaired_iff (sq : Sqlite) (lstat : Lstat) (cookie : BitVec 32) (db : Db)
    (hcookie : cookie ≠ 0) : Converges sq lstat cookie db ↔ Repairable lstat cookie db.files := by
  obtain ⟨hrc, t', hvisited, hfiles⟩ := pseudoDbCheck_fix sq lstat hcookie db
  unfold Converges
  rw [imp_iff_right hrc, hfiles]
  constructor
  · rintro ⟨hrows, _⟩
    have hall := (forall₂_filter_length hvisited fun _ _ => agrees_of_stays).2
      hrows.length_eq.symm
    have hstay : ∀ r ∈ db.files, agrees lstat r = true →
        (∀ q ∈ db.files, agrees lstat q = false → q.path ≠ r.path) ∧
          ((∃ q ∈ db.files, agrees lstat q = false) → r.deleting ≠ cookie) := by
      intro r hr ha
      obtain ⟨r', _, hv, hs⟩ := exists_right hall hr
      exact (stays_iff hv).mp (hs ha)
    refine ⟨fun r hr ha => (hstay r hr ha).1, fun hex r hr ha => (hstay r hr ha).2 hex,
      fun r hr ha buf hb => ?_⟩
    obtain ⟨r', hr', hrep⟩ := exists_right hrows (List.mem_filter.mpr ⟨hr, ha⟩)
    obtain ⟨hr't, hs⟩ := List.mem_filter.mp hr'
    obtain ⟨r₁, _, hv⟩ := exists_left hvisited hr't
    obtain ⟨buf₁, hb₁, hkey⟩ := hv.settled (agrees_of_stays hv hs)
    obtain ⟨buf₂, hb₂, hdev, _⟩ := hrep.inode
    rw [hrep.path] at hb₁
    obtain rfl := Option.some.inj (hb.symm.trans hb₁)
    obtain rfl := Option.some.inj (hb.symm.trans hb₂)
    have hdev' : r'.dev = bindInt buf.dev := congrArg Prod.fst hkey
    rw [hdev'] at hdev
    exact hdev
  · rintro ⟨hapart, hunmarked, hfits⟩
    have hfilter := List.rel_filter (R := Visited lstat cookie db.files)
      (p := agrees lstat) (q := stays lstat cookie db.files) (fun r r' hv => by
        refine ⟨fun ha => (stays_iff hv).mpr ⟨hapart r hv.mem ha, fun hex => ?_⟩,
          agrees_of_stays hv⟩
        exact hunmarked hex r hv.mem ha) hvisited
    have hkept : List.Forall₂ (fun r r' => agrees lstat r = true ∧
        Visited lstat cookie db.files r r') (db.files.filter (agrees lstat))
        (t'.filter (stays lstat cookie db.files)) :=
      (List.forall₂_and_left _ _).mpr ⟨fun r hr => (List.mem_filter.mp hr).2, hfilter⟩
    have hrepair : ∀ r r', agrees lstat r = true ∧ Visited lstat cookie db.files r r' →
        RepairedRow lstat r r' := by
      rintro r r' ⟨ha, hv⟩
      obtain ⟨buf, hb, hkey⟩ := hv.settled ha
      rw [hv.seen.path] at hb
      have hdev : r'.dev = bindInt buf.dev := congrArg Prod.fst hkey
      have hino : r'.ino = buf.ino := congrArg Prod.snd hkey
      refine ⟨hv.seen.path, hv.seen.uid, hv.seen.gid, hv.seen.mode, hv.seen.rdev, buf, hb, ?_,
        hino⟩
      rw [hdev]
      exact hfits r hv.mem ha buf hb
    refine ⟨hkept.imp hrepair, pseudoDbCheck_clean fun r' hr' => ?_⟩
    rw [hfiles] at hr'
    obtain ⟨r, _, ha, hv⟩ := exists_left hkept hr'
    have hrep := hrepair r r' ⟨ha, hv⟩
    rw [agrees_congr hrep.path hrep.mode, hrep.path]
    exact ⟨ha, hrep.inode⟩

/-- The host has `/a`, but no `/b`. -/
def exHost : Lstat := fun path =>
  if path = ascii ['/', 'a'] then some ⟨1, 6, 0o100644⟩ else none

/-- Both files are recorded; `/a` has another inode and the mark. -/
def exStaleRows (deleting : BitVec 32) : Db where
  files := [{ exRow (ascii ['/', 'a']) 5 with deleting := deleting }, exRow (ascii ['/', 'b']) 7]
  xattrs := []
  oldmsg := ⟨0, []⟩

/-- `/a` is renumbered and `/b` removed. -/
theorem repair_converges : Converges .inOrder exHost 7 (exStaleRows 0) := by
  refine (pseudoDbCheck_repaired_iff _ _ _ _ (by decide)).mpr ⟨by decide, by decide, ?_⟩
  intro r _ _ buf hb
  unfold exHost at hb
  split at hb
  · obtain rfl := Option.some.inj hb
    decide
  · exact absurd hb (by simp)

/-- A client with the same process id had marked `/a`: its row goes as well. -/
theorem repair_removes_marked_row : ¬ Converges .inOrder exHost 7 (exStaleRows 7) := by
  intro h
  have hlen := (h (by decide)).1.length_eq
  exact absurd hlen (by decide)

end Pseudo

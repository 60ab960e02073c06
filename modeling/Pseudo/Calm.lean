import Pseudo.Refused

/-!
# Lookups that pass the checks

The lookups are functions of two rows, one found for the path and one for the inode. When both
pass the sanity checks, nothing but the operation itself changes the tables.

Results:
1. `lookup_hits`: the lookups as a function of the two rows.
2. `aborts_iff`: the row for which a request is refused.
3. `Calm.checked`: rows that pass the checks leave the tables as they are.
-/

namespace Pseudo

open Table

/-! ## The rows that are found -/

/-- The rows that the lookups settle on; `exact` when one row stands for both. -/
structure Hits where
  exact : Bool
  path : Option FileRow
  ino : Option FileRow

/-- The message gives a device and an inode. -/
def Request.HasInode (req : Request) : Prop := req.hdr.dev ≠ 0 ∧ req.hdr.ino ≠ 0

instance (req : Request) : Decidable req.HasInode := inferInstanceAs (Decidable (_ ∧ _))

/-- The message gives a path. -/
def Request.HasPath (req : Request) : Prop := req.msg.pathlen ≠ 0

instance (req : Request) : Decidable req.HasPath := inferInstanceAs (Decidable (_ ≠ _))

/-- The row that the lookup by path and inode finds. -/
def exactRow (sq : Sqlite) (files : List FileRow) (req : Request) : Option FileRow :=
  if req.HasPath ∧ req.HasInode then
    select sq.files (fun r => atPath req.path r && atKey req.hdr.key r) files
  else none

/-- The row that the lookup by path finds. -/
def pathRow (sq : Sqlite) (files : List FileRow) (req : Request) : Option FileRow :=
  if req.HasPath then select sq.files (atPath req.path) files else none

/-- The inode that the search for it depends on is not zero. -/
def searchesInode (req : Request) : Option FileRow → Prop
  | none => req.HasInode
  | some r => columnInt64 r.dev ≠ 0 ∧ r.ino ≠ 0

instance (req : Request) (path : Option FileRow) : Decidable (searchesInode req path) := by
  cases path <;> exact inferInstanceAs (Decidable (_ ∧ _))

/-- The row that the lookup by inode finds. -/
def inoRow (sq : Sqlite) (files : List FileRow) (req : Request) : Option FileRow :=
  if searchesInode req (pathRow sq files req) then select sq.files (atKey req.hdr.key) files
  else none

def hits (sq : Sqlite) (files : List FileRow) (req : Request) : Hits :=
  match exactRow sq files req with
  | some r => ⟨true, some r, some r⟩
  | none => ⟨false, pathRow sq files req, inoRow sq files req⟩

/-- What the lookups leave for these rows. -/
def Hits.lookup (h : Hits) (req : Request) : Lookup :=
  if h.exact then
    { msg := req.hdr, byPath := (h.path.map req.msg.readRow).getD .zero,
      byIno := (h.ino.map req.msg.readRow).getD req.hdr, pathByIno := h.ino.map (·.path),
      foundPath := h.path.isSome, foundIno := h.ino.isSome, foundExact := true }
  else
    { msg := (h.path.map req.msg.takeRow).getD req.msg,
      byPath := (h.path.map req.msg.takeRow).getD .zero,
      byIno := (h.ino.map req.hdr.readRow).getD req.hdr, pathByIno := h.ino.map (·.path),
      foundPath := h.path.isSome, foundIno := h.ino.isSome, foundExact := false }

section Hits
variable {sq : Sqlite} {files : List FileRow} {db : Db} {req : Request} {r : FileRow}

theorem exactRow_some (h : exactRow sq files req = some r) :
    req.HasPath ∧ req.HasInode ∧ r ∈ files ∧ r.path = req.path ∧ r.key = req.hdr.key := by
  unfold exactRow at h
  split at h
  · rename_i hcond
    have hp := prop_of_select h
    rw [Bool.and_eq_true, atPath_iff, atKey_iff] at hp
    exact ⟨hcond.1, hcond.2, mem_of_select h, hp.1, hp.2⟩
  · cases h

theorem findExact_eq (hreq : req.Proper) :
    findExact sq db req = (exactRow sq db.files req).map req.msg.readRow := by
  have hdev : req.msg.dev = req.hdr.dev := by rw [hreq.msg_eq]
  have hino : req.msg.ino = req.hdr.ino := by rw [hreq.msg_eq]
  have hiff : req.HasPath ∧ req.HasInode ↔
      req.msg.pathlen ≠ 0 ∧ req.hdr.dev ≠ 0 ∧ req.hdr.ino ≠ 0 := Iff.rfl
  unfold findExact exactRow
  rw [hdev, hino]
  by_cases hcond : req.HasPath ∧ req.HasInode
  · rw [if_pos hcond, if_pos (hiff.mp hcond), pdbFindFileExact, hreq.key]
  · rw [if_neg hcond, if_neg (mt hiff.mpr hcond)]
    rfl

theorem pdbFindFilePath_eq : pdbFindFilePath sq db req.msg req.path =
    (pathRow sq db.files req).map req.msg.takeRow := by
  unfold pdbFindFilePath pathRow
  by_cases hpath : req.HasPath
  · rw [if_pos hpath, if_neg (show ¬ req.msg.pathlen = 0 from hpath)]
    rfl
  · rw [if_neg hpath, if_pos (Decidable.of_not_not hpath)]
    rfl

/-- The lookups read nothing of the tables but the rows that are hit. -/
theorem lookup_hits (hreq : req.Proper) :
    lookup sq db req = (hits sq db.files req).lookup req := by
  unfold lookup hits
  rw [findExact_eq hreq]
  cases hex : exactRow sq db.files req with
  | some r =>
    obtain ⟨_, _, _, hp, _⟩ := exactRow_some hex
    simp only [Option.map_some, Hits.lookup, if_true, Option.getD_some, Option.isSome_some, hp]
  | none =>
    rw [pdbFindFilePath_eq]
    have hino : findIno sq db req (((pathRow sq db.files req).map req.msg.takeRow).getD req.msg) =
        (inoRow sq db.files req).map fun r => (req.hdr.readRow r, r.path) := by
      unfold findIno inoRow pdbFindFileDev
      have hcond : ((((pathRow sq db.files req).map req.msg.takeRow).getD req.msg).dev ≠ 0 ∧
          (((pathRow sq db.files req).map req.msg.takeRow).getD req.msg).ino ≠ 0) ↔
          searchesInode req (pathRow sq db.files req) := by
        cases pathRow sq db.files req with
        | none =>
          rw [Option.map_none, Option.getD_none, hreq.msg_eq]
          exact Iff.rfl
        | some r => exact Iff.rfl
      by_cases h : searchesInode req (pathRow sq db.files req)
      · rw [if_pos (hcond.mpr h), if_pos h]
      · rw [if_neg (mt hcond.mp h), if_neg h]
        rfl
    simp only [Option.map_none, hino, Hits.lookup, Bool.false_eq_true, if_false, Option.map_map,
      Option.isSome_map]
    cases inoRow sq db.files req <;> rfl

theorem exactRow_none (h : exactRow sq files req = none) (hpath : req.HasPath)
    (hino : req.HasInode) (hr : r ∈ files) (hp : r.path = req.path) : r.key ≠ req.hdr.key := by
  intro hk
  unfold exactRow at h
  rw [if_pos ⟨hpath, hino⟩] at h
  have hno := select_eq_none_iff.mp h r hr
  rw [atPath_iff.mpr hp, atKey_iff.mpr hk] at hno
  cases hno

theorem hits_exact (h : (hits sq files req).exact = true) : ∃ r ∈ files, req.HasPath ∧
    req.HasInode ∧ r.path = req.path ∧ r.key = req.hdr.key ∧
    hits sq files req = ⟨true, some r, some r⟩ := by
  unfold hits at h ⊢
  cases hex : exactRow sq files req with
  | none =>
    rw [hex] at h
    cases h
  | some r =>
    obtain ⟨hpath, hino, hr, hp, hk⟩ := exactRow_some hex
    exact ⟨r, hr, hpath, hino, hp, hk, rfl⟩

theorem hits_not_exact (h : (hits sq files req).exact = false) :
    exactRow sq files req = none ∧
      hits sq files req = ⟨false, pathRow sq files req, inoRow sq files req⟩ := by
  unfold hits at h ⊢
  cases hex : exactRow sq files req with
  | none => exact ⟨rfl, rfl⟩
  | some r =>
    rw [hex] at h
    cases h

theorem hits_path (h : (hits sq files req).path = some r) :
    r ∈ files ∧ req.HasPath ∧ r.path = req.path := by
  cases hex : (hits sq files req).exact with
  | true =>
    obtain ⟨s, hs, hpath, _, hp, _, he⟩ := hits_exact hex
    rw [he] at h
    obtain rfl := Option.some.inj h
    exact ⟨hs, hpath, hp⟩
  | false =>
    rw [(hits_not_exact hex).2] at h
    have hrow : pathRow sq files req = some r := h
    unfold pathRow at hrow
    split at hrow
    · rename_i hpath
      exact ⟨mem_of_select hrow, hpath, atPath_iff.mp (prop_of_select hrow)⟩
    · cases hrow

theorem hits_ino (h : (hits sq files req).ino = some r) : r ∈ files ∧ r.key = req.hdr.key := by
  cases hex : (hits sq files req).exact with
  | true =>
    obtain ⟨s, hs, _, _, _, hk, he⟩ := hits_exact hex
    rw [he] at h
    obtain rfl := Option.some.inj h
    exact ⟨hs, hk⟩
  | false =>
    rw [(hits_not_exact hex).2] at h
    have hrow : inoRow sq files req = some r := h
    unfold inoRow at hrow
    split at hrow
    · exact ⟨mem_of_select hrow, atKey_iff.mp (prop_of_select hrow)⟩
    · cases hrow

/-- The rows that a table without a trace of the file hits. -/
theorem hits_nothing (hpath : req.HasPath → ∀ r ∈ files, r.path ≠ req.path)
    (hkey : req.HasInode → ∀ r ∈ files, r.key ≠ req.hdr.key) :
    hits sq files req = ⟨false, none, none⟩ := by
  have hexact : exactRow sq files req = none := by
    unfold exactRow
    split
    · rename_i hcond
      refine select_eq_none_iff.mpr fun r hr => ?_
      rw [atPath_eq_false.mpr (hpath hcond.1 r hr), Bool.false_and]
    · rfl
  have hrow : pathRow sq files req = none := by
    unfold pathRow
    split
    · rename_i hcond
      exact select_eq_none_iff.mpr fun r hr => atPath_eq_false.mpr (hpath hcond r hr)
    · rfl
  have hino : inoRow sq files req = none := by
    unfold inoRow
    rw [hrow]
    split
    · rename_i hcond
      exact select_eq_none_iff.mpr fun r hr => atKey_eq_false.mpr (hkey hcond r hr)
    · rfl
  unfold hits
  rw [hexact, hrow, hino]

end Hits

/-! ## Rows that pass the checks -/

/-- The check by path keeps the row. -/
structure PathFits (req : Request) (r : FileRow) : Prop where
  expected : ¬ (r.ino ≠ req.hdr.ino ∧ req.hdr.ino ≠ 0 ∧ req.hdr.op ≠ .exec ∧ r.deleting ≠ 0)
  type : typeMismatch (req.hdr.readRow r) req.hdr = false

/-- The check by inode keeps the row, and the request is not refused for it. -/
structure InoFits (req : Request) (r : FileRow) : Prop where
  live : req.hdr.op ≠ .didUnlink → req.HasPath → pathMismatch req r.path = true → r.deleting ≠ 0
  type : typeMismatch (req.hdr.readRow r) req.hdr = false

/-- Both rows pass. -/
structure Calm (req : Request) (h : Hits) : Prop where
  path : ∀ r, h.path = some r → PathFits req r
  ino : ∀ r, h.ino = some r → InoFits req r

section Calm
variable {sq : Sqlite} {files : List FileRow} {db : Db} {req : Request} {r : FileRow}

theorem calm_nothing : Calm req ⟨false, none, none⟩ :=
  ⟨fun _ h => (by cases h), fun _ h => (by cases h)⟩

theorem pathFits_of_key (hk : r.key = req.hdr.key)
    (htype : typeMismatch (req.hdr.readRow r) req.hdr = false) : PathFits req r :=
  ⟨fun h => h.1 ((congrArg Prod.snd hk).trans (signedIno_eq _)), htype⟩

theorem lookup_foundPath (hreq : req.Proper) :
    (lookup sq db req).foundPath = (hits sq db.files req).path.isSome := by
  rw [lookup_hits hreq, Hits.lookup]
  split <;> rfl

theorem lookup_foundIno (hreq : req.Proper) :
    (lookup sq db req).foundIno = (hits sq db.files req).ino.isSome := by
  rw [lookup_hits hreq, Hits.lookup]
  split <;> rfl

/-- Only the row's mode is compared. -/
theorem typeMismatch_readRow {h h' : MsgHeader} (hm : h.mode = columnInt64 r.mode) :
    typeMismatch h h' = typeMismatch (req.hdr.readRow r) h' := by
  unfold typeMismatch
  rw [hm]
  rfl

theorem lookup_msg_hasPath (hreq : req.Proper) :
    (lookup sq db req).msg.pathlen ≠ 0 ↔ req.HasPath := by
  refine ⟨lookup_pathlen, fun hpath => ?_⟩
  rw [lookup_hits hreq, Hits.lookup]
  split
  · show req.hdr.pathlen ≠ 0
    have hle := hreq.pathlen_le
    unfold Request.HasPath at hpath
    omega
  · cases (hits sq db.files req).path with
    | none => exact hpath
    | some r => exact hpath

theorem pathFits_iff (hreq : req.Proper) (h : (hits sq db.files req).path = some r) :
    PathFits req r ↔ expectedGone req (lookup sq db req) = false ∧
      typeMismatch (lookup sq db req).byPath req.hdr = false := by
  have hmsgIno : req.msg.ino = req.hdr.ino := by rw [hreq.msg_eq]
  have hmode : (lookup sq db req).byPath.mode = columnInt64 r.mode := by
    rw [lookup_hits hreq, Hits.lookup, h]
    split <;> rfl
  rw [@typeMismatch_readRow req r _ _ hmode]
  have hgone : expectedGone req (lookup sq db req) = true ↔
      (r.ino ≠ req.hdr.ino ∧ req.hdr.ino ≠ 0 ∧ req.hdr.op ≠ .exec ∧ r.deleting ≠ 0) := by
    cases hex : (hits sq db.files req).exact with
    | true =>
      obtain ⟨s, _, _, _, _, hk, he⟩ := hits_exact hex
      rw [he] at h
      obtain rfl := Option.some.inj h
      have hino : s.ino = req.hdr.ino := (congrArg Prod.snd hk).trans (signedIno_eq _)
      rw [lookup_hits hreq, he]
      simp [expectedGone, Hits.lookup, MsgHeader.readRow, hmsgIno, hino]
    | false =>
      rw [lookup_hits hreq, Hits.lookup, hex, h]
      simp [expectedGone, MsgHeader.takeRow, MsgHeader.readRow, and_assoc]
  constructor
  · intro hfits
    exact ⟨Bool.eq_false_iff.mpr (mt hgone.mp hfits.expected), hfits.type⟩
  · rintro ⟨hno, htype⟩
    exact ⟨fun hg => Bool.eq_false_iff.mp hno (hgone.mpr hg), htype⟩

/-- A request is refused for a row of its inode that has another path and no mark. -/
theorem aborts_iff (hreq : req.Proper) (h : (hits sq db.files req).ino = some r) :
    aborts req (lookup sq db req) = true ↔ req.hdr.op ≠ .didUnlink ∧ req.HasPath ∧
      pathMismatch req r.path = true ∧ r.deleting = 0 := by
  have hdeleting : (lookup sq db req).byIno.deleting = r.deleting := by
    rw [lookup_hits hreq, Hits.lookup, h]
    split <;> rfl
  have hrow : (lookup sq db req).pathByIno = some r.path := by
    rw [lookup_hits hreq, Hits.lookup, h]
    split <;> rfl
  unfold aborts
  rw [lookup_foundIno hreq, h, hrow, hdeleting]
  have hlen := @lookup_msg_hasPath sq db req hreq
  simp only [Option.isSome_some, Bool.true_and, Bool.and_eq_true, bne_iff_ne, hlen, beq_iff_eq,
    and_assoc]

theorem inoFits_iff (hreq : req.Proper) (h : (hits sq db.files req).ino = some r) :
    InoFits req r ↔ aborts req (lookup sq db req) = false ∧
      typeMismatch (lookup sq db req).byIno req.hdr = false := by
  have hmode : (lookup sq db req).byIno.mode = columnInt64 r.mode := by
    rw [lookup_hits hreq, Hits.lookup, h]
    split <;> rfl
  have haborts := aborts_iff hreq h
  rw [@typeMismatch_readRow req r _ _ hmode]
  constructor
  · intro hfits
    refine ⟨Bool.eq_false_iff.mpr fun ha => ?_, hfits.type⟩
    obtain ⟨hop, hpath, hmm, hzero⟩ := haborts.mp ha
    exact hfits.live hop hpath hmm hzero
  · rintro ⟨hno, htype⟩
    exact ⟨fun hop hpath hmm hzero =>
      Bool.eq_false_iff.mp hno (haborts.mpr ⟨hop, hpath, hmm, hzero⟩), htype⟩

/-- Nothing is refused for an inode that is not found. -/
theorem aborts_none (hreq : req.Proper) (h : (hits sq db.files req).ino = none) :
    aborts req (lookup sq db req) = false := by
  unfold aborts
  rw [lookup_foundIno hreq, h]
  rfl

theorem Calm.live (hreq : req.Proper) (h : Calm req (hits sq db.files req)) :
    aborts req (lookup sq db req) = false := by
  cases hino : (hits sq db.files req).ino with
  | none => exact aborts_none hreq hino
  | some r => exact ((inoFits_iff hreq hino).mp (h.ino r hino)).1

/-- Rows that pass the checks leave the tables as they are. -/
theorem Calm.checked (hreq : req.Proper) (h : Calm req (hits sq db.files req)) :
    checked sq db req = ⟨lookup sq db req, db, (lookup sq db req).foundPath,
      (lookup sq db req).foundIno⟩ := by
  have hpath : checkPath db req (lookup sq db req) = (db, (lookup sq db req).foundPath) := by
    unfold checkPath
    split
    · rename_i hcond
      have hfp := hcond.1
      rw [lookup_foundPath hreq] at hfp
      obtain ⟨r, hr⟩ := Option.isSome_iff_exists.mp hfp
      obtain ⟨hgone, htype⟩ := (pathFits_iff hreq hr).mp (h.path r hr)
      simp only [clearMarked, hgone, htype, Bool.false_eq_true, if_false, hcond.1]
    · rfl
  have hino : checkIno db req (lookup sq db req) = (db, (lookup sq db req).foundIno) := by
    cases hfi : (lookup sq db req).foundIno with
    | false => exact checkIno_absent hfi
    | true =>
      obtain ⟨p, hp⟩ := lookup_pathByIno hfi
      rw [checkIno_some hp]
      split
      · rw [lookup_foundIno hreq] at hfi
        obtain ⟨r, hr⟩ := Option.isSome_iff_exists.mp hfi
        simp only [((inoFits_iff hreq hr).mp (h.ino r hr)).2, Bool.false_eq_true, if_false]
      · rw [hfi]
  exact checked_of_checks hpath hino

end Calm

end Pseudo

import Pseudo.Record
import Pseudo.Refused

/-!
# Messages about the only file of the table

What `pseudo_op` does for messages with a path when `files` holds at most the row of their file:
the searches by path and by inode agree, no check objects, and the operation works on that row.

Results:
1. `aboutFile_live`: none of them is refused.
2. `handle_mknod`, `handle_creat`, `handle_chmod`, `handle_chown`: the table afterwards.
3. `handle_stat`: the answer of `OP_STAT`.
-/

namespace Pseudo

open Table

/-- The message is about the file of the row: path, inode, and whether it is a directory or a
symbolic link agree. -/
structure About (req : Request) (r : FileRow) : Prop where
  path : r.path = req.path
  key : r.key = req.hdr.key
  dir : sIsdir (columnInt64 r.mode) = sIsdir req.hdr.mode
  lnk : sIslnk (columnInt64 r.mode) = sIslnk req.hdr.mode

/-- The operations considered: they come with a path of their own. -/
def Op.aboutFile : Op → Bool
  | .mknod | .creat | .chmod | .chown | .stat => true
  | _ => false

/-- A header with the values of the row. -/
structure HasRow (h : MsgHeader) (r : FileRow) : Prop where
  uid : h.uid = r.uid
  gid : h.gid = r.gid
  mode : h.mode = columnInt64 r.mode
  rdev : h.rdev = columnInt64 r.rdev
  key : h.key = r.key

namespace OneFileLemmas

variable {sq : Sqlite} {db : Db} {req : Request} {r : FileRow}

theorem hasRow_readRow {msg : MsgHeader} (h : r.key = msg.key) : HasRow (msg.readRow r) r :=
  ⟨rfl, rfl, rfl, rfl, h.symm⟩

theorem hasRow_takeRow {msg : MsgHeader} : HasRow (msg.takeRow r) r :=
  ⟨rfl, rfl, rfl, rfl, by simp [MsgHeader.takeRow, MsgHeader.key, FileRow.key]⟩

/-- What the lookups and checks leave when the row is there. -/
structure Found (db : Db) (req : Request) (r : FileRow) (c : Checked) : Prop where
  live : aborts req c.lk = false
  db : c.db = db
  foundPath : c.foundPath = true
  exact : c.foundIno = true → c.lk.foundExact = true
  byIno : c.foundIno = true → HasRow c.lk.byIno r
  byPath : HasRow c.lk.byPath r ∧ c.lk.byPath.result = req.hdr.result

/-- A row found by path and inode together passes every check. -/
theorem found_match (hmsg : req.msg = req.hdr) (hdid : req.hdr.op ≠ .didUnlink)
    (hren : req.hdr.op ≠ .rename) (h : About req r)
    (hlk : lookup sq db req =
      { msg := req.hdr, byPath := req.msg.readRow r, byIno := req.msg.readRow r,
        pathByIno := some req.path, foundPath := true, foundIno := true, foundExact := true }) :
    Found db req r (checked sq db req) := by
  have hhas : HasRow (req.msg.readRow r) r := hasRow_readRow (h.key.trans (by rw [hmsg]))
  have hmatch : typeMismatch (req.msg.readRow r) req.hdr = false := by
    simp [typeMismatch, hhas.mode, h.dir, h.lnk]
  have hgone : (req.msg.readRow r).ino = req.hdr.ino := by rw [hmsg]; rfl
  have hpath : checkPath db req (lookup sq db req) = (db, true) := by
    unfold checkPath clearMarked expectedGone
    simp [hlk, hdid, hmatch, hgone]
  have hino : checkIno db req (lookup sq db req) = (db, true) := by
    unfold checkIno
    simp [hlk, hdid, hmatch]
  rw [checked_of_checks hpath hino]
  refine ⟨?_, rfl, rfl, fun _ => by rw [hlk], fun _ => ?_, ?_⟩
  · have hno : pathMismatch req req.path = false := by
      unfold pathMismatch
      cases hop' : req.hdr.op <;> simp_all
    simp [aborts, hlk, hno]
  · rw [hlk]
    exact hhas
  · rw [hlk]
    exact ⟨hhas, by rw [hmsg]; rfl⟩

/-- The search by path and inode finds the row. -/
theorem found_exact (hmsg : req.msg = req.hdr) (hop : req.hdr.op.aboutFile = true)
    (hdb : db.files = [r]) (h : About req r) (hex : (lookup sq db req).foundExact = true) :
    Found db req r (checked sq db req) := by
  obtain ⟨_, r', hr', _, _, hlk⟩ := lookup_exact hex
  rw [hdb, List.mem_singleton] at hr'
  subst hr'
  refine found_match hmsg ?_ ?_ h hlk
  all_goals
    rintro he
    rw [he] at hop
    exact absurd hop (by decide)

/-- The search by inode is left out when the row found by path has no device or no inode. -/
theorem stale_foundIno (hst : (lookup sq db req).Stale)
    (hzero : (lookup sq db req).msg.dev = 0 ∨ (lookup sq db req).msg.ino = 0) :
    (lookup sq db req).foundIno = false := by
  obtain ⟨hfp, hfe⟩ := hst
  unfold lookup at hfp hfe hzero ⊢
  cases hex : findExact sq db req with
  | some found => simp [hex] at hfe
  | none =>
    simp only [hex] at hzero ⊢
    rw [findIno, if_neg]
    · rfl
    · rintro ⟨hdev, hino⟩
      rcases hzero with h | h
      · exact hdev h
      · exact hino h

/-- The row is found by its path only: the message has no device or no inode. -/
theorem found_stale (hmsg : req.msg = req.hdr) (hop : req.hdr.op.aboutFile = true)
    (hdb : db.files = [r]) (h : About req r) (hst : (lookup sq db req).Stale) :
    Found db req r (checked sq db req) := by
  obtain ⟨r', hr', _, hlen, hkey, hlkmsg, hby⟩ := lookup_stale hst
  rw [hdb, List.mem_singleton] at hr'
  subst hr'
  rw [hmsg] at hkey hlkmsg hby
  have hdevino : req.hdr.dev = 0 ∨ req.hdr.ino = 0 := by
    by_contra hne
    rw [not_or] at hne
    exact hkey hne.1 hne.2 h.key
  obtain ⟨hrdev, hrino⟩ := Prod.ext_iff.mp h.key
  have hrdev : r'.dev = bindInt req.hdr.dev := hrdev
  have hrino : r'.ino = req.hdr.ino := hrino.trans (signedIno_eq _)
  have hzero : (lookup sq db req).msg.dev = 0 ∨ (lookup sq db req).msg.ino = 0 := by
    rw [hlkmsg]
    rcases hdevino with hz | hz
    · refine Or.inl ?_
      simp only [MsgHeader.takeRow, hrdev, hz]
      decide
    · exact Or.inr (hrino.trans hz)
  have hfi := stale_foundIno hst hzero
  have hhas : HasRow (req.hdr.takeRow r') r' := hasRow_takeRow
  have hmatch : typeMismatch (req.hdr.takeRow r') req.hdr = false := by
    simp [typeMismatch, hhas.mode, h.dir, h.lnk]
  have hgone : (req.hdr.takeRow r').ino = req.hdr.ino := hrino
  have hdid : req.hdr.op ≠ .didUnlink := by
    rintro he
    rw [he] at hop
    exact absurd hop (by decide)
  have hpath : checkPath db req (lookup sq db req) = (db, true) := by
    unfold checkPath clearMarked expectedGone
    simp [hst.1, hby, hdid, hmatch, hgone]
  rw [checked_of_checks hpath (checkIno_absent hfi)]
  refine ⟨?_, rfl, rfl, fun hno => absurd hno (by simp), fun hno => absurd hno (by simp), ?_⟩
  · simp [aborts, hfi]
  · rw [hby]
    exact ⟨hhas, rfl⟩

theorem found (sq : Sqlite) (hmsg : req.msg = req.hdr) (hop : req.hdr.op.aboutFile = true)
    (hlen : req.hdr.pathlen ≠ 0) (hdb : db.files = [r]) (h : About req r) :
    Found db req r (checked sq db req) := by
  rcases lookup_cases sq db req with hex | hst | hab
  · exact found_exact hmsg hop hdb h hex
  · exact found_stale hmsg hop hdb h hst
  · have hno := (lookup_absent hab).1 (by rwa [hmsg]) r (by simp [hdb])
    exact absurd h.path hno

/-- What the lookups and checks leave when the table is empty. -/
structure Missing (db : Db) (req : Request) (c : Checked) : Prop where
  live : aborts req c.lk = false
  db : c.db = db
  foundPath : c.foundPath = false
  foundIno : c.foundIno = false
  msg : c.lk.msg = req.hdr

theorem missing (sq : Sqlite) (hreq : req.Proper) (hmsg : req.msg = req.hdr)
    (hdb : db.files = []) : Missing db req (checked sq db req) := by
  have hno : ∀ r ∈ db.files, False := by
    intro r hr
    rw [hdb] at hr
    exact absurd hr List.not_mem_nil
  have hfp : (lookup sq db req).foundPath = false := by
    rcases lookup_cases sq db req with hex | hst | hab
    · obtain ⟨_, r, hr, _⟩ := lookup_exact hex
      exact absurd (hno r hr) id
    · obtain ⟨r, hr, _⟩ := lookup_stale hst
      exact absurd (hno r hr) id
    · exact hab
  have hfi : (lookup sq db req).foundIno = false := by
    cases hfi : (lookup sq db req).foundIno with
    | false => rfl
    | true =>
      obtain ⟨r, hr, _⟩ := lookup_ino hreq hfi
      exact absurd (hno r hr) id
  have hpath : checkPath db req (lookup sq db req) = (db, false) := by
    unfold checkPath
    simp [hfp]
  rw [checked_of_checks hpath (checkIno_absent hfi)]
  exact ⟨by simp [aborts, hfi], rfl, rfl, rfl, (lookup_absent hfp).2.1.trans hmsg⟩

/-- An operation that is not refused, and marks no descriptor. -/
theorem handle_live (hop : req.hdr.op.aboutFile = true)
    (hlive : aborts req (checked sq db req).lk = false) :
    handle sq db req = (opAction sq req (checked sq db req)).run req.path := by
  have hdesc : req.hdr.op.onDescriptor = false := by
    cases hop' : req.hdr.op <;> simp_all [Op.aboutFile, Op.onDescriptor]
  exact handle_acts hdesc hlive

theorem msg_pathlen (sq : Sqlite) (db : Db) (hmsg : req.msg = req.hdr)
    (hlen : req.hdr.pathlen ≠ 0) :
    (checked sq db req).lk.msg.pathlen ≠ 0 := by
  rw [show (checked sq db req).lk = lookup sq db req from rfl, lookup_msg_pathlen hmsg]
  exact hlen

end OneFileLemmas

open OneFileLemmas

section Handle
variable (sq : Sqlite) {db : Db} {req : Request} {row : Option FileRow}
  (hreq : req.Proper) (hmsg : req.msg = req.hdr) (hlen : req.hdr.pathlen ≠ 0)
  (hdb : db.files = row.toList) (hrow : ∀ r, row = some r → About req r)
include hreq hmsg hlen hdb hrow

theorem aboutFile_live (hop : req.hdr.op.aboutFile = true) :
    aborts req (lookup sq db req) = false := by
  cases row with
  | none => exact (missing sq hreq hmsg hdb).live
  | some r => exact (found sq hmsg hop hlen hdb (hrow r rfl)).live

/-- `OP_MKNOD` replaces the row. -/
theorem handle_mknod (hop : req.hdr.op = .mknod) :
    (handle sq db req).db.files = [linkRow req.hdr req.path] := by
  have habout : req.hdr.op.aboutFile = true := by rw [hop]; rfl
  have hact : ∀ c, opAction sq req c = opMknod req c := by
    intro c
    rw [opAction, hop]
  have hlen' := msg_pathlen sq db hmsg hlen
  cases row with
  | none =>
    have hm := missing sq hreq hmsg hdb
    rw [handle_live habout hm.live, hact, run_files, opMknod_files, opLink_files]
    simp [hm.foundPath, hm.foundIno, hm.db, hdb, opMknod]
  | some r =>
    have hf := found sq hmsg habout hlen hdb (hrow r rfl)
    have hgone : (opLink req (checked sq db req)).db.files = [] := by
      rw [opLink_files, if_pos ⟨hf.foundPath, hlen'⟩, hf.db, hdb]
      simp [delete, (hrow r rfl).path]
    rw [handle_live habout hf.live, hact, run_files, opMknod_files, hgone]
    split <;> rfl

/-- `OP_CREAT` leaves a row that is there. -/
theorem handle_creat (hop : req.hdr.op = .creat) :
    (handle sq db req).db.files = [row.getD (linkRow req.hdr req.path)] := by
  have habout : req.hdr.op.aboutFile = true := by rw [hop]; rfl
  have hact : ∀ c, opAction sq req c = opCreat c := by
    intro c
    rw [opAction, hop]
  cases row with
  | none =>
    have hm := missing sq hreq hmsg hdb
    have hlk : (lookup sq db req).msg = req.hdr := hm.msg
    rw [handle_live habout hm.live, hact, run_files, opCreat_files]
    simp [hm.foundPath, hm.foundIno, hm.db, hlk, hdb, opCreat]
  | some r =>
    have hf := found sq hmsg habout hlen hdb (hrow r rfl)
    rw [handle_live habout hf.live, hact, run_files, opCreat_files,
      if_neg (fun h => h.2 (hf.exact h.1)), hf.db, hdb]
    simp [hf.foundPath, opCreat]

/-- The common part of `OP_CHMOD` and `OP_CHOWN`: the row gets the merged header's values, and a
new one those of the message. -/
theorem handle_change (merge : MsgHeader → MsgHeader) (new : Checked → MsgHeader)
    (habout : req.hdr.op.aboutFile = true)
    (hact : ∀ c, opAction sq req c = opChange merge (new c) c)
    (hnew : ∀ c, c.lk.msg = req.hdr → new c = req.hdr) (hkey : ∀ h, (merge h).key = h.key)
    {change : FileRow → FileRow}
    (hchange : ∀ r h, HasRow h r → r.setMeta (merge h) = change r) :
    (handle sq db req).db.files = [(row.map change).getD (linkRow req.hdr req.path)] := by
  cases row with
  | none =>
    have hm := missing sq hreq hmsg hdb
    rw [handle_live habout hm.live, hact, run_files, opChange_files, opChange_link]
    simp [hm.foundPath, hm.foundIno, hm.db, hdb, hnew _ hm.msg]
  | some r =>
    have hf := found sq hmsg habout hlen hdb (hrow r rfl)
    have hupdate : ∀ h, HasRow h r →
        update (atKey (merge h).key) (fun r => r.setMeta (merge h)) [r] = [change r] := by
      intro h hh
      rw [hkey, hh.key, ← hchange r h hh]
      simp [update]
    rw [handle_live habout hf.live, hact, run_files, opChange_files, opChange_link, hf.db, hdb,
      Option.toList_some, if_pos (Or.inl hf.foundPath), if_pos hf.foundPath]
    split
    · rename_i hfi
      rw [hupdate _ (hf.byIno hfi)]
      rfl
    · rw [hupdate _ hf.byPath.1]
      rfl

/-- `OP_CHMOD` changes the permissions of the row. -/
theorem handle_chmod (hop : req.hdr.op = .chmod) :
    (handle sq db req).db.files = [(row.map fun r =>
      { r with mode := bindInt (mergeMode req.hdr.mode (columnInt64 r.mode)) }).getD
        (linkRow req.hdr req.path)] := by
  refine handle_change sq hreq hmsg hlen hdb hrow
    (fun h => { h with mode := mergeMode req.hdr.mode h.mode })
    (fun c => { c.lk.msg with mode := req.hdr.mode }) (by rw [hop]; rfl) (fun c => ?_)
    (fun c hc => ?_) (fun _ => rfl) (fun r h hh => ?_)
  · rw [opAction, hop]
    rfl
  · rw [hc]
  · simp [FileRow.setMeta, hh.uid, hh.gid, hh.mode, hh.rdev]

/-- `OP_CHOWN` changes the owner of the row. -/
theorem handle_chown (hop : req.hdr.op = .chown) :
    (handle sq db req).db.files = [(row.map fun r =>
      { r with uid := req.hdr.uid, gid := req.hdr.gid }).getD (linkRow req.hdr req.path)] := by
  refine handle_change sq hreq hmsg hlen hdb hrow (setOwner req) (fun c => setOwner req c.lk.msg)
    (by rw [hop]; rfl) (fun c => ?_) (fun c hc => ?_) (fun _ => rfl) (fun r h hh => ?_)
  · rw [opAction, hop]
    rfl
  · rw [hc]
    rfl
  · simp [FileRow.setMeta, setOwner, hh.mode, hh.rdev]

/-- `OP_STAT` answers with the row, and changes nothing. -/
theorem handle_stat (hop : req.hdr.op = .stat) (hresult : req.hdr.result = .succeed) :
    (handle sq db req).db.files = db.files ∧
      match row with
      | none => (handle sq db req).msg.result = .fail
      | some r => (handle sq db req).msg.result = .succeed ∧ HasRow (handle sq db req).msg r := by
  have habout : req.hdr.op.aboutFile = true := by rw [hop]; rfl
  have hact : ∀ c, opAction sq req c = opStat req c := by
    intro c
    rw [opAction, hop]
  cases row with
  | none =>
    have hm := missing sq hreq hmsg hdb
    rw [handle_live habout hm.live, hact, run_files, run_msg]
    simp [opStat, hm.foundPath, hm.foundIno, hm.db]
  | some r =>
    have hf := found sq hmsg habout hlen hdb (hrow r rfl)
    have hstat : opStat req (checked sq db req) =
        { db := (checked sq db req).db, msg := (checked sq db req).lk.byPath } := by
      simp [opStat, dbHeader, hf.foundPath, hop]
    rw [handle_live habout hf.live, hact, run_files, run_msg, hstat, hf.db]
    exact ⟨by simp, hf.byPath.2.trans hresult, hf.byPath.1⟩

end Handle

end Pseudo

import Pseudo.Links
import Pseudo.OneFile

/-!
# Changes of owner and mode

`OP_CHMOD` and `OP_CHOWN` merge the message into the row that was found and write the result to
every row of the inode. "Multiple entries per inode" name one file, so when these agree on their
attributes beforehand, the write changes what the request names and leaves the rest.

Result: `changes_exact`: the table afterwards, and what a later `OP_STAT` answers.
-/

namespace Pseudo

open Table OneFileLemmas

/-- `OP_CHMOD`, `OP_FCHMOD`, `OP_CHOWN` and `OP_FCHOWN`. -/
def Op.changes : Op → Bool
  | .chmod | .fchmod | .chown | .fchown => true
  | _ => false

/-- `OP_STAT` and `OP_FSTAT`. -/
def Op.stats : Op → Bool
  | .stat | .fstat => true
  | _ => false

/-- The message names the row by path, device and inode, and agrees with it on `S_ISDIR` and
`S_ISLNK`. -/
structure NamesRow (m : PseudoMsg) (r : FileRow) : Prop where
  about : About (request m) r
  pathlen : m.hdr.pathlen ≠ 0
  dev : m.hdr.dev ≠ 0
  ino : m.hdr.ino ≠ 0

/-- A row of the message's inode after the change that the message asks for. -/
def FileRow.changed (msg : MsgHeader) (r : FileRow) : FileRow :=
  match msg.op with
  | .chmod | .fchmod =>
    { r with mode := (r.mode &&& ~~~ 0o7777) ||| (bindInt msg.mode &&& 0o7777) }
  | .chown | .fchown => { r with uid := msg.uid, gid := msg.gid }
  | _ => r

namespace ChangesLemmas

variable {sq : Sqlite} {db : Db} {m : PseudoMsg} {req : Request} {r r' : FileRow}

theorem changes_cases {o : Op} (h : o.changes = true) :
    o = .chmod ∨ o = .fchmod ∨ o = .chown ∨ o = .fchown := by
  cases o <;> simp_all [Op.changes]

theorem stats_cases {o : Op} (h : o.stats = true) : o = .stat ∨ o = .fstat := by
  cases o <;> simp_all [Op.stats]

/-- These have one path, and delete nothing. -/
theorem changes_plain {o : Op} (h : o.changes = true) : o.isPacked = false ∧ o ≠ .didUnlink := by
  rcases changes_cases h with rfl | rfl | rfl | rfl <;> exact ⟨rfl, by decide⟩

theorem stats_plain {o : Op} (h : o.stats = true) : o.isPacked = false ∧ o ≠ .didUnlink := by
  rcases stats_cases h with rfl | rfl <;> exact ⟨rfl, by decide⟩

/-! ## Rows and headers -/

/-- The permission bits are no part of the file type. -/
theorem mergeMode_type (mode row : BitVec 64) : mergeMode mode row &&& sIfmt = row &&& sIfmt := by
  have hperm : (0o7777 : BitVec 64) &&& sIfmt = 0 := by decide
  have htype : ~~~ (0o7777 : BitVec 64) &&& sIfmt = sIfmt := by decide
  rw [mergeMode, BitVec.and_comm, BitVec.and_or_distrib_left, BitVec.and_comm,
    BitVec.and_assoc, hperm, BitVec.and_comm sIfmt, BitVec.and_assoc, htype]
  simp

@[simp] theorem changed_path (msg : MsgHeader) : (r.changed msg).path = r.path := by
  unfold FileRow.changed
  split <;> rfl

@[simp] theorem changed_key (msg : MsgHeader) : (r.changed msg).key = r.key := by
  unfold FileRow.changed
  split <;> rfl

/-- What becomes of a row's attributes depends on these alone. -/
theorem changed_attrs (msg : MsgHeader) (h : r.attrs = r'.attrs) :
    (r.changed msg).attrs = (r'.changed msg).attrs := by
  simp only [FileRow.attrs, Prod.mk.injEq] at h
  obtain ⟨huid, hgid, hmode, hrdev⟩ := h
  unfold FileRow.changed
  split <;> simp [FileRow.attrs, huid, hgid, hmode, hrdev]

/-- A change keeps the file type. -/
theorem changed_type (msg : MsgHeader) :
    columnInt64 (r.changed msg).mode &&& sIfmt = columnInt64 r.mode &&& sIfmt := by
  unfold FileRow.changed
  split
  · rw [← bindInt_merged, RecordLemmas.columnInt64_bindInt_type, mergeMode_type]
  · rw [← bindInt_merged, RecordLemmas.columnInt64_bindInt_type, mergeMode_type]
  · rfl
  · rfl
  · rfl

/-- A message about a row is about the row after a change. -/
theorem about_changed (msg : MsgHeader) (h : About req r) : About req (r.changed msg) where
  path := (changed_path msg).trans h.path
  key := (changed_key msg).trans h.key
  dir := by
    rw [sIsdir, changed_type]
    exact h.dir
  lnk := by
    rw [sIslnk, changed_type]
    exact h.lnk

/-- Rows that share their attributes are the same to a header. -/
theorem hasRow_of_attrs {h : MsgHeader} (hh : HasRow h r') (hattrs : r'.attrs = r.attrs)
    (hkey : r'.key = r.key) : HasRow h r := by
  simp only [FileRow.attrs, Prod.mk.injEq] at hattrs
  obtain ⟨huid, hgid, hmode, hrdev⟩ := hattrs
  exact ⟨huid ▸ hh.uid, hgid ▸ hh.gid, hmode ▸ hh.mode, hrdev ▸ hh.rdev, hkey ▸ hh.key⟩

theorem about_of_attrs (h : About req r) (hpath : r'.path = r.path) (hkey : r'.key = r.key)
    (hattrs : r'.attrs = r.attrs) : About req r' := by
  simp only [FileRow.attrs, Prod.mk.injEq] at hattrs
  obtain ⟨_, _, hmode, _⟩ := hattrs
  exact ⟨hpath.trans h.path, hkey.trans h.key, hmode ▸ h.dir, hmode ▸ h.lnk⟩

/-! ## The row that is found -/

theorem lookup_of_namesRow (hplain : m.hdr.op.isPacked = false) (hr : r ∈ db.files)
    (h : NamesRow m r) : (lookup sq db (request m)).foundExact = true := by
  have hreq := request_plain hplain
  have hcond : (request m).msg.pathlen ≠ 0 ∧ (request m).msg.dev ≠ 0 ∧
      (request m).msg.ino ≠ 0 := by
    rw [hreq]
    exact ⟨h.pathlen, h.dev, h.ino⟩
  unfold lookup findExact
  rw [if_pos hcond]
  cases hs : pdbFindFileExact sq db (request m).msg (request m).path with
  | some found => rfl
  | none =>
    have hkey : r.key = (request m).msg.key := by
      rw [(request_proper m).key]
      exact h.about.key
    exact absurd hkey (pdbFindFileExact_none hs hr h.about.path)

/-- The message finds its row, or one that has the same attributes. -/
theorem found_coherent (hplain : m.hdr.op.isPacked = false) (hdid : m.hdr.op ≠ .didUnlink)
    (hcoh : Coherent db.files) (hr : r ∈ db.files) (h : NamesRow m r) :
    Found db (request m) r (checked sq db (request m)) := by
  have hmsg : (request m).msg = (request m).hdr := by rw [request_plain hplain]
  obtain ⟨_, r', hr', hpath, hkey, hlk⟩ := lookup_exact (@lookup_of_namesRow sq _ _ _ hplain hr h)
  have hkey' : r'.key = r.key := by rw [hkey, (request_proper m).key, h.about.key]
  have hattrs : r'.attrs = r.attrs := hcoh r' hr' r hr hkey'
  have habout : About (request m) r' :=
    about_of_attrs h.about (hpath.trans h.about.path.symm) hkey' hattrs
  have hren : m.hdr.op ≠ .rename := by
    intro he
    rw [he] at hplain
    cases hplain
  have hf := found_match hmsg (by simpa using hdid) (by simpa using hren) habout hlk
  exact
    { hf with
      byIno := fun hi => hasRow_of_attrs (hf.byIno hi) hattrs hkey'
      byPath := ⟨hasRow_of_attrs hf.byPath.1 hattrs hkey', hf.byPath.2⟩ }

/-- A message whose row is found is not refused, and marks no descriptor. -/
theorem handle_found (hf : Found db req r (checked sq db req)) :
    handle sq db req = (opAction sq req (checked sq db req)).run req.path := by
  have hlive : ¬ aborts req (lookup sq db req) = true := by
    rw [← checked_lk, hf.live]
    simp
  unfold handle
  dsimp only
  rw [if_neg hlive, markUnlinked]
  split
  all_goals simp [hf.foundPath]

/-! ## The change and the answer -/

/-- Either copy of the message holds the row's values, so the change starts from these. -/
theorem opChange_found {c : Checked} (hf : Found db req r c) (merge : MsgHeader → MsgHeader)
    (new : MsgHeader) : ∃ h, HasRow h r ∧
      opChange merge new c = { db := pdbUpdateFile db (merge h), msg := merge h } := by
  unfold opChange
  rw [hf.db]
  split
  · rename_i hi
    exact ⟨_, hf.byIno hi, rfl⟩
  · rw [if_pos hf.foundPath]
    exact ⟨_, hf.byPath.1, rfl⟩

/-- A row written back with the message's permissions. -/
theorem setMeta_chmod {h : MsgHeader} (hh : HasRow h r) (mode : BitVec 64) :
    r.setMeta { h with mode := mergeMode mode h.mode } =
      { r with mode := (r.mode &&& ~~~ 0o7777) ||| (bindInt mode &&& 0o7777) } := by
  simp only [FileRow.setMeta, hh.uid, hh.gid, hh.mode, hh.rdev, bindInt_merged,
    bindInt_columnInt64]

/-- A row written back with the message's owner. -/
theorem setMeta_chown {h : MsgHeader} (hh : HasRow h r) (uid gid : BitVec 32) :
    r.setMeta { h with uid := uid, gid := gid } = { r with uid := uid, gid := gid } := by
  simp only [FileRow.setMeta, hh.mode, hh.rdev, bindInt_columnInt64]

/-- The operation writes a header that changes every row like the one it was read from. -/
theorem opAction_changes (sq : Sqlite) (hop : m.hdr.op.changes = true) {c : Checked}
    (hf : Found db (request m) r c) : ∃ h : MsgHeader, h.key = r.key ∧
      (∀ q : FileRow, q.key = r.key → q.attrs = r.attrs → q.setMeta h = q.changed m.hdr) ∧
      opAction sq (request m) c = { db := pdbUpdateFile db h, msg := h } := by
  have hhdr := request_hdr m
  unfold opAction
  rw [request_hdr_op]
  cases hm : m.hdr.op <;> rw [hm] at hop <;> try cases hop
  case chmod | fchmod =>
    obtain ⟨h, hh, he⟩ := opChange_found hf
      (fun h => { h with mode := mergeMode (request m).hdr.mode h.mode })
      { c.lk.msg with mode := (request m).hdr.mode }
    refine ⟨{ h with mode := mergeMode (request m).hdr.mode h.mode }, hh.key,
      fun q hkey hattrs => ?_, he⟩
    rw [setMeta_chmod (hasRow_of_attrs hh hattrs.symm hkey.symm), FileRow.changed, hm, hhdr]
  case chown | fchown =>
    obtain ⟨h, hh, he⟩ := opChange_found hf (setOwner (request m)) (setOwner (request m) c.lk.msg)
    refine ⟨setOwner (request m) h, hh.key, fun q hkey hattrs => ?_, he⟩
    rw [setOwner, setMeta_chown (hasRow_of_attrs hh hattrs.symm hkey.symm), FileRow.changed, hm,
      hhdr]

theorem changes_db (hop : m.hdr.op.changes = true) (hcoh : Coherent db.files)
    (hr : r ∈ db.files) (h : NamesRow m r) :
    (pseudoOp sq db m).db =
      { db with files := db.files.map fun q =>
          if q.key = m.hdr.key then q.changed m.hdr else q } := by
  obtain ⟨hplain, hdid⟩ := changes_plain hop
  have hf := @found_coherent sq _ _ _ hplain hdid hcoh hr h
  obtain ⟨h', hkey, hset, hact⟩ := opAction_changes sq hop hf
  have hkey' : r.key = m.hdr.key := by rw [h.about.key, request_hdr_key]
  rw [pseudoOp, handle_found hf, hact, Action.run]
  simp only [pdbUpdateFile, update, atKey_iff, hkey, hkey']
  congr 1
  refine List.map_congr_left fun q hq => ?_
  split
  · next hk =>
    exact hset q (hk.trans hkey'.symm) (hcoh q hq r hr (hk.trans hkey'.symm))
  · rfl

theorem coherent_changed (msg : MsgHeader) (k : BitVec 32 × BitVec 64)
    (hcoh : Coherent db.files) :
    Coherent (db.files.map fun q => if q.key = k then q.changed msg else q) := by
  intro a ha b hb hab
  obtain ⟨q, hq, rfl⟩ := List.mem_map.mp ha
  obtain ⟨q', hq', rfl⟩ := List.mem_map.mp hb
  have hkey : ∀ q : FileRow, (if q.key = k then q.changed msg else q).key = q.key := by
    intro q
    split
    · exact changed_key msg
    · rfl
  rw [hkey, hkey] at hab
  have hattrs := hcoh q hq q' hq' hab
  rw [← hab]
  split
  · exact changed_attrs msg hattrs
  · exact hattrs

/-- The answer about a row that is found. -/
theorem stat_found (hop : m.hdr.op.stats = true) (hcoh : Coherent db.files)
    (hr : r ∈ db.files) (h : NamesRow m r) :
    (pseudoOp sq db m).msg.result = .succeed ∧ HasRow (pseudoOp sq db m).msg r := by
  obtain ⟨hplain, hdid⟩ := stats_plain hop
  have hf := @found_coherent sq _ _ _ hplain hdid hcoh hr h
  obtain ⟨_, hpath, hino⟩ := RefusedLemmas.lookup_result sq db m
  have hact : opAction sq (request m) (checked sq db (request m)) =
      opStat (request m) (checked sq db (request m)) := by
    unfold opAction
    rw [request_hdr_op]
    rcases stats_cases hop with hm | hm <;> rw [hm]
  rw [pseudoOp, handle_found hf, run_msg, hact, opStat, if_pos (Or.inr hf.foundPath)]
  dsimp only
  refine ⟨RefusedLemmas.dbHeader_result (fun hi => hino ?_) (fun hp => hpath ?_)
    (Or.inr hf.foundPath), ?_⟩
  · rw [checked_foundIno, Bool.and_eq_true] at hi
    exact hi.1
  · rw [checked_foundPath, Bool.and_eq_true] at hp
    exact hp.1
  · unfold dbHeader
    dsimp only
    split
    · next hi => exact hf.byIno hi.1
    · exact hf.byPath.1

end ChangesLemmas

open ChangesLemmas

/-- When the rows of each inode agree, `OP_CHMOD` and `OP_CHOWN` change the permissions or the
owner in every row of the inode and nothing else in the database, and every later `OP_STAT`
through a name of the inode is answered with the new values. -/
theorem changes_exact (sq sq' : Sqlite) (db : Db) (m : PseudoMsg) (r : FileRow)
    (hcoh : Coherent db.files) (hop : m.hdr.op.changes = true) (hr : r ∈ db.files)
    (hm : NamesRow m r) :
    (pseudoOp sq db m).db =
      { db with files := db.files.map fun q =>
          if q.key = m.hdr.key then q.changed m.hdr else q } ∧
    ∀ q ∈ db.files, q.key = m.hdr.key → ∀ m', m'.hdr.op.stats = true → NamesRow m' q →
      (pseudoOp sq' (pseudoOp sq db m).db m').msg.result = .succeed ∧
        HasRow (pseudoOp sq' (pseudoOp sq db m).db m').msg (q.changed m.hdr) := by
  have hdb := @changes_db sq _ _ _ hop hcoh hr hm
  refine ⟨hdb, fun q hq hkey m' hop' hm' => ?_⟩
  rw [hdb]
  refine stat_found hop' (coherent_changed m.hdr m.hdr.key hcoh) ?_
    { hm' with about := about_changed m.hdr hm'.about }
  exact List.mem_map.mpr ⟨q, hq, if_pos hkey⟩

/-- A file with the names `/a` and `/b`, and another one. -/
def exTwoNames : Db where
  files := [exRow (ascii ['/', 'a']) 2, exRow (ascii ['/', 'b']) 2, exRow (ascii ['/', 'c']) 3]
  xattrs := []
  oldmsg := ⟨0, []⟩

/-- `/a` is given to the user 5 and the group 6. -/
def exGive : PseudoMsg :=
  PseudoMsg.plain
    { MsgHeader.zero with type := .op, op := .chown, dev := 1, ino := 2, uid := 5, gid := 6,
                          mode := 0o100644, nlink := 2 } (ascii ['/', 'a'])

/-- The owner set through `/a` is read through `/b`. -/
theorem changes_exact_twoNames :
    HasRow (pseudoOp .inOrder (pseudoOp .inOrder exTwoNames exGive).db
      (exMsg .stat 1 (ascii ['/', 'b']) 2)).msg
      { exRow (ascii ['/', 'b']) 2 with uid := 5, gid := 6 } := by
  have hgive : NamesRow exGive (exRow (ascii ['/', 'a']) 2) :=
    ⟨⟨by decide, by decide, by decide, by decide⟩, by decide, by decide, by decide⟩
  have hstat : NamesRow (exMsg .stat 1 (ascii ['/', 'b']) 2) (exRow (ascii ['/', 'b']) 2) :=
    ⟨⟨by decide, by decide, by decide, by decide⟩, by decide, by decide, by decide⟩
  exact ((changes_exact .inOrder .inOrder exTwoNames exGive _ (by decide) (by decide) (by decide)
    hgive).2 _ (by decide) (by decide) _ (by decide) hstat).2

end Pseudo

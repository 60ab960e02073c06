import Pseudo.Server

/-!
# The dirty flag

Every function of `pseudo_db.c` that runs a statement on `files` sets `file_db_dirty` first; those
that only clear or copy attributes do not, they are called by the others. `pdb_backup` does nothing
while the flag is clear.

Results:
1. `dirty_of_changed`: a message that changes the tables sets the flag.
-/

namespace Pseudo

/-! ## 1. The tables, and who sets the flag -/

/-- What is copied between the database in memory and the file. -/
structure Tables where
  files : List FileRow
  xattrs : List XattrRow
  deriving DecidableEq, Repr

def Db.tables (db : Db) : Tables := ⟨db.files, db.xattrs⟩

/-- `pdb_did_unlink_file` and `pdb_unlink_file`. -/
def checkPathDirty (req : Request) (lk : Lookup) : Bool :=
  lk.foundPath && req.hdr.op != .didUnlink &&
    (expectedGone req lk || typeMismatch lk.byPath req.hdr && lk.msg.pathlen != 0)

/-- `pdb_update_file_path` and `pdb_unlink_file_dev`. -/
def checkInoDirty (req : Request) (lk : Lookup) : Bool :=
  lk.foundIno && req.hdr.op != .didUnlink &&
    (lk.pathByIno.isNone && lk.msg.pathlen != 0 || typeMismatch lk.byIno req.hdr)

/-- `pdb_rename_file` and `pdb_update_inode`. -/
def opRenameDirty (c : Checked) : Bool := c.lk.msg.pathlen != 0

/-- `pdb_unlink_file`, `pdb_unlink_contents` and `pdb_unlink_file_dev`. -/
def opUnlinkDirty (req : Request) (c : Checked) : Bool :=
  c.lk.msg.pathlen != 0 || decide (req.hdr.nlink = 1) && c.foundIno

/-- `pdb_unlink_file` and `pdb_unlink_file_dev`. -/
def opMknodDirty (c : Checked) : Bool := c.foundPath && c.lk.msg.pathlen != 0 || c.foundIno

/-- `pdb_set_xattr`, unless the flags forbid the change. -/
def opSetXattrDirty (sq : Sqlite) (flags : XattrFlags) (req : Request) (c : Checked) : Bool :=
  decide ((pdbSetXattr sq c.db c.lk.msg (req.oldpath.getD []) req.oldpathlen flags).2 = 0)

/-- The second switch of `pseudo_op`, but for its `pdb_link_file`. -/
def opActionDirty (sq : Sqlite) (req : Request) (c : Checked) : Bool :=
  match req.hdr.op with
  | .creat => c.foundIno && !c.lk.foundExact
  | .chmod | .fchmod | .chown | .fchown => c.foundIno || c.foundPath
  | .link | .symlink => c.foundPath && c.lk.msg.pathlen != 0
  | .rename => opRenameDirty c
  | .mayUnlink | .cancelUnlink => c.lk.msg.pathlen != 0
  | .didUnlink | .removeXattr => true
  | .unlink => opUnlinkDirty req c
  | .mkdir | .mknod => opMknodDirty c
  | .createXattr => opSetXattrDirty sq .create req c
  | .replaceXattr => opSetXattrDirty sq .replace req c
  | .setXattr => opSetXattrDirty sq .none req c
  | .stat | .fstat | .getXattr | .listXattr => false
  | .exec | .open | .chdir | .close | .none | .chroot | .dup | .closefrom | .other _ => false

/-- `pdb_may_unlink_file` at the end of `pseudo_op`. -/
def markUnlinkedDirty (req : Request) (c : Checked) (out : Outcome) : Bool :=
  match req.hdr.op with
  | .fchown | .fchmod | .fstat =>
    !c.foundPath && !c.foundIno && decide (out.msg.nlink = 0) && out.msg.pathlen != 0
  | _ => false

def handleDirty (sq : Sqlite) (db : Db) (req : Request) : Bool :=
  let lk := lookup sq db req
  if aborts req lk then checkPathDirty req lk
  else
    let c := checked sq db req
    let a := opAction sq req c
    checkPathDirty req lk || checkInoDirty req lk || opActionDirty sq req c || a.link.isSome ||
      markUnlinkedDirty req c (a.run req.path)

/-- `pseudo_op` sets `file_db_dirty`. -/
def opDirty (sq : Sqlite) (db : Db) (m : PseudoMsg) : Bool := handleDirty sq db (request m)

namespace DirtyFlagLemmas

variable {sq : Sqlite} {db : Db} {req : Request} {lk : Lookup} {c : Checked} {msg : MsgHeader}
  {path : Bytes}

/-! ## 2. The functions without a path -/

theorem unlinkFile_clean (h : msg.pathlen = 0) : pdbUnlinkFile db msg path = db := if_pos h

theorem unlinkContents_clean (h : msg.pathlen = 0) : pdbUnlinkContents db msg path = db := if_pos h

theorem updateFilePath_clean (h : msg.pathlen = 0) : pdbUpdateFilePath db msg path = db := if_pos h

theorem mayUnlinkFile_clean {deleting : BitVec 32} (h : msg.pathlen = 0) :
    (pdbMayUnlinkFile db msg path deleting).1 = db := by
  unfold pdbMayUnlinkFile
  rw [if_pos h]

theorem cancelUnlinkFile_clean (h : msg.pathlen = 0) : pdbCancelUnlinkFile db msg path = db :=
  if_pos h

theorem updateInode_clean (h : msg.pathlen = 0) : pdbUpdateInode sq db msg path = db := if_pos h

theorem renameFile_clean {oldpath : Option Bytes} (h : msg.pathlen = 0) :
    (pdbRenameFile true true db oldpath msg path).1 = db := by
  unfold pdbRenameFile
  rw [h]

theorem setXattr_clean {value : Bytes} {len : Nat} {flags : XattrFlags}
    (h : (pdbSetXattr sq db msg value len flags).2 ≠ 0) :
    (pdbSetXattr sq db msg value len flags).1 = db := by
  unfold pdbSetXattr at h ⊢
  dsimp only at h ⊢
  split
  · rfl
  · next hcreate =>
    rw [if_neg hcreate] at h
    split
    · rfl
    · next hreplace =>
      rw [if_neg hreplace] at h
      split at h <;> exact absurd rfl h

/-! ## 3. The steps of `pseudo_op` -/

theorem checkPath_clean (h : checkPathDirty req lk = false) : (checkPath db req lk).1 = db := by
  unfold checkPath
  split
  · next hcond =>
    obtain ⟨hfound, hop⟩ := hcond
    simp only [checkPathDirty, hfound, Bool.true_and, bne_iff_ne.mpr hop, Bool.or_eq_false_iff] at h
    obtain ⟨hgone, hmismatch⟩ := h
    have hclear : clearMarked db req lk = db := by
      unfold clearMarked
      rw [hgone]
      rfl
    dsimp only
    rw [hclear]
    split
    · next htype =>
      rw [htype, Bool.true_and, bne_eq_false_iff_eq] at hmismatch
      exact unlinkFile_clean hmismatch
    · rfl
  · rfl

theorem checkIno_clean (h : checkInoDirty req lk = false) : (checkIno db req lk).1 = db := by
  unfold checkIno
  split
  · next hcond =>
    obtain ⟨hfound, hop⟩ := hcond
    simp only [checkInoDirty, hfound, Bool.true_and, bne_iff_ne.mpr hop, Bool.or_eq_false_iff] at h
    obtain ⟨hpath, hmismatch⟩ := h
    rw [hmismatch]
    cases hp : lk.pathByIno with
    | none =>
      rw [hp] at hpath
      have hlen : lk.msg.pathlen = 0 := by simpa using hpath
      simp [hlen]
    | some p => rfl
  · rfl

theorem checked_clean (hpath : checkPathDirty req (lookup sq db req) = false)
    (hino : checkInoDirty req (lookup sq db req) = false) : (checked sq db req).db = db := by
  have hp : (checkPath db req (lookup sq db req)).1 = db := checkPath_clean hpath
  unfold checked
  dsimp only
  rw [hp]
  exact checkIno_clean hino

theorem opChange_clean {merge : MsgHeader → MsgHeader} {new : MsgHeader}
    (h : (c.foundIno || c.foundPath) = false) : (opChange merge new c).db = c.db := by
  rw [Bool.or_eq_false_iff] at h
  unfold opChange
  rw [h.1, h.2]
  rfl

theorem opLink_clean (h : (c.foundPath && c.lk.msg.pathlen != 0) = false) :
    (opLink req c).db = c.db := by
  unfold opLink
  dsimp only
  split
  · next hfound =>
    rw [hfound, Bool.true_and, bne_eq_false_iff_eq] at h
    exact unlinkFile_clean h
  · rfl

theorem opMknod_clean (h : opMknodDirty c = false) : (opMknod req c).db = c.db := by
  rw [opMknodDirty, Bool.or_eq_false_iff] at h
  obtain ⟨hpath, hino⟩ := h
  unfold opMknod
  dsimp only
  rw [hino, if_neg Bool.false_ne_true]
  split
  · next hfound =>
    rw [hfound, Bool.true_and, bne_eq_false_iff_eq] at hpath
    exact unlinkFile_clean hpath
  · rfl

theorem opUnlink_clean (h : opUnlinkDirty req c = false) : (opUnlink req c).db = c.db := by
  rw [opUnlinkDirty, Bool.or_eq_false_iff, bne_eq_false_iff_eq] at h
  obtain ⟨hlen, hlast⟩ := h
  unfold opUnlink
  dsimp only
  rw [unlinkFile_clean hlen, unlinkContents_clean hlen]
  refine if_neg fun hcond => ?_
  rw [decide_eq_true hcond.1, hcond.2] at hlast
  cases hlast

theorem opRename_clean (h : opRenameDirty c = false) : (opRename sq req c).db = c.db := by
  rw [opRenameDirty, bne_eq_false_iff_eq] at h
  unfold opRename
  dsimp only
  rw [renameFile_clean h, updateInode_clean h]

theorem opSetXattr_clean {flags : XattrFlags} (h : opSetXattrDirty sq flags req c = false) :
    (opSetXattr sq flags req c).db = c.db := by
  rw [opSetXattrDirty, decide_eq_false_iff_not] at h
  exact setXattr_clean h

theorem opAction_clean (h : opActionDirty sq req c = false) : (opAction sq req c).db = c.db := by
  unfold opActionDirty at h
  unfold opAction
  cases hop : req.hdr.op with
  | creat =>
    rw [hop] at h
    dsimp only [opCreat] at h ⊢
    refine if_neg fun hcond => ?_
    rw [hcond.1, Bool.eq_false_iff.mpr hcond.2] at h
    cases h
  | chmod | fchmod | chown | fchown =>
    rw [hop] at h
    exact opChange_clean h
  | stat | fstat =>
    dsimp only [opStat]
    split <;> rfl
  | link | symlink =>
    rw [hop] at h
    exact opLink_clean h
  | rename =>
    rw [hop] at h
    exact opRename_clean h
  | mayUnlink =>
    rw [hop] at h
    exact mayUnlinkFile_clean (bne_eq_false_iff_eq.mp h)
  | cancelUnlink =>
    rw [hop] at h
    exact cancelUnlinkFile_clean (bne_eq_false_iff_eq.mp h)
  | didUnlink | removeXattr =>
    rw [hop] at h
    cases h
  | unlink =>
    rw [hop] at h
    exact opUnlink_clean h
  | mkdir | mknod =>
    rw [hop] at h
    exact opMknod_clean h
  | createXattr | replaceXattr | setXattr =>
    rw [hop] at h
    exact opSetXattr_clean h
  | getXattr | listXattr | exec | «open» | chdir | close | none | chroot | dup | closefrom
  | other => rfl

theorem markUnlinked_clean {out : Outcome} (h : markUnlinkedDirty req c out = false) :
    (markUnlinked req c out).db = out.db := by
  unfold markUnlinkedDirty at h
  unfold markUnlinked
  cases hop : req.hdr.op with
  | fchown | fchmod | fstat =>
    rw [hop] at h
    dsimp only at h ⊢
    split
    · next hcond =>
      obtain ⟨hpath, hino, hnlink⟩ := hcond
      rw [Bool.eq_false_iff.mpr hpath, Bool.eq_false_iff.mpr hino, decide_eq_true hnlink] at h
      exact mayUnlinkFile_clean (bne_eq_false_iff_eq.mp h)
    · rfl
  | _ => rfl

end DirtyFlagLemmas

open DirtyFlagLemmas

/-- What leaves the flag clear leaves the database as it is. -/
theorem handle_clean {sq : Sqlite} {db : Db} {req : Request}
    (h : handleDirty sq db req = false) : (handle sq db req).db = db := by
  unfold handleDirty at h
  unfold handle
  dsimp only at h ⊢
  split
  · next ha =>
    rw [if_pos ha] at h
    exact checkPath_clean h
  · next ha =>
    rw [if_neg ha] at h
    simp only [Bool.or_eq_false_iff] at h
    obtain ⟨⟨⟨⟨hpath, hino⟩, haction⟩, hlink⟩, hmark⟩ := h
    rw [markUnlinked_clean hmark]
    have hrun : ((opAction sq req (checked sq db req)).run req.path).db =
        (opAction sq req (checked sq db req)).db := by
      unfold Action.run
      cases hl : (opAction sq req (checked sq db req)).link with
      | none => rfl
      | some m =>
        rw [hl] at hlink
        cases hlink
    rw [hrun, opAction_clean haction]
    exact checked_clean hpath hino

theorem dirty_of_changed {sq : Sqlite} {db : Db} {m : PseudoMsg}
    (h : (pseudoOp sq db m).db.tables ≠ db.tables) : opDirty sq db m = true := by
  refine Bool.not_eq_false _ ▸ fun hclean => h ?_
  exact congrArg Db.tables (handle_clean hclean)

end Pseudo

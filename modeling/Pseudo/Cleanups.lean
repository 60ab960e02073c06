import Pseudo.Library.Cleanup
import Pseudo.Refused

/-!
# What becomes of the attributes

Rows of `files` go in six ways, and each is followed by its own clean-up of `xattrs`. Apart from
renames and from the requests about attributes, handling a message is a script of such deletions
and clean-ups, and at most one row is inserted at its end.

Results:
1. `checked_follows`, `opAction_follows`: the checks and the operations follow their scripts.
2. `pseudoOp_xattrs`, `pseudoOp_orphan`: which attributes a message removes, and which are left
   without a file.
3. `pseudoOp_refused_xattrs`: the same for a message that is refused.
-/

namespace Pseudo

open Table Cleanup

/-! ## Scripts -/

/-- The row is one of the inode that the attribute belongs to. -/
def FileRow.owns (r : FileRow) (x : XattrRow) : Bool := x.hasKey r.key

abbrev Script := List (Stmt FileRow.owns)

theorem owned_iff {t : List FileRow} {x : XattrRow} :
    Owned t x ↔ orphan FileRow.owns t x = false := by
  rw [orphan_eq_false]
  rfl

/-- `pdb_clear_xattrs`, on the statement's two numbers. -/
def clearKey (k : BitVec 32 × BitVec 64) : Stmt FileRow.owns := .clear fun x => x.hasKey k

/-- `pdb_clear_unused_xattrs`. -/
def clearUnused : Stmt FileRow.owns := .clear fun _ => true

/-- An `UPDATE` that leaves `dev` and `ino` alone. -/
def amendRows (p : FileRow → Bool) (f : FileRow → FileRow) (hkey : ∀ r, (f r).key = r.key) :
    Stmt FileRow.owns :=
  .amend (fun r => if p r then f r else r) fun r x => by
    unfold FileRow.owns
    split
    · rw [hkey]
    · rfl

def markRows (path : Bytes) (deleting : BitVec 32) : Stmt FileRow.owns :=
  amendRows (atPath path) (fun r => { r with deleting := deleting }) fun _ => rfl

def unlinkFileScript (msg : MsgHeader) (path : Bytes) : Script :=
  if msg.pathlen = 0 then [] else [.drop (atPath path), clearKey msg.key]

def unlinkFileDevScript (msg : MsgHeader) : Script := [.drop (atKey msg.key), clearKey msg.key]

/-- The rows of the path with the mark. -/
def marked (path : Bytes) (deleting : BitVec 32) (r : FileRow) : Bool :=
  atPath path r && r.deleting == deleting

def unlinkContentsScript (msg : MsgHeader) (path : Bytes) : Script :=
  if msg.pathlen = 0 then [] else [.drop (below path), clearUnused]

def gaveWayScript (req : Request) (lk : Lookup) : Script :=
  if expectedGone req lk then [.drop (marked req.path lk.byPath.deleting), clearUnused] else []

/-- The statements of the checks by path. -/
def checkPathScript (req : Request) (lk : Lookup) : Script :=
  if lk.foundPath ∧ req.hdr.op ≠ .didUnlink then
    gaveWayScript req lk ++
    (if typeMismatch lk.byPath req.hdr then unlinkFileScript lk.msg req.path else [])
  else []

/-- The statements of the checks by inode. -/
def checkInoScript (req : Request) (lk : Lookup) : Script :=
  if lk.foundIno ∧ req.hdr.op ≠ .didUnlink ∧ typeMismatch lk.byIno req.hdr then
    unlinkFileDevScript lk.msg
  else []

/-- The operations other than renames and the changes to attributes. -/
def Op.scripted : Op → Bool
  | .rename | .createXattr | .replaceXattr | .setXattr | .removeXattr => false
  | _ => true

def changeScript (merge : MsgHeader → MsgHeader) (c : Checked) : Script :=
  let amend (msg : MsgHeader) : Script :=
    [amendRows (atKey msg.key) (fun r => r.setMeta msg) fun _ => rfl]
  if c.foundIno then amend (merge c.lk.byIno)
  else if c.foundPath then amend (merge c.lk.byPath)
  else []

def linkScript (req : Request) (c : Checked) : Script :=
  if c.foundPath then unlinkFileScript c.lk.msg req.path else []

/-- The statements of an operation, up to the row that it inserts. -/
def opScript (req : Request) (c : Checked) : Script :=
  match req.hdr.op with
  | .creat => if c.foundIno ∧ ¬ c.lk.foundExact then unlinkFileDevScript c.lk.byIno else []
  | .chmod | .fchmod =>
    changeScript (fun h => { h with mode := mergeMode req.hdr.mode h.mode }) c
  | .chown | .fchown => changeScript (setOwner req) c
  | .link | .symlink => linkScript req c
  | .mayUnlink =>
    if c.lk.msg.pathlen = 0 then [] else [markRows req.path c.lk.msg.client]
  | .didUnlink => [.drop (marked req.path c.lk.msg.client), clearKey c.lk.msg.key]
  | .cancelUnlink =>
    if c.lk.msg.pathlen = 0 then [] else [markRows req.path 0, clearKey c.lk.msg.key]
  | .unlink =>
    unlinkFileScript c.lk.msg req.path ++ unlinkContentsScript c.lk.msg req.path ++
      (if req.hdr.nlink = 1 ∧ c.foundIno then unlinkFileDevScript c.lk.msg else [])
  | .mkdir | .mknod =>
    linkScript req c ++ (if c.foundIno then unlinkFileDevScript c.lk.byIno else [])
  | _ => []

/-- The statements of the checks. -/
def checkScript (req : Request) (lk : Lookup) : Script :=
  checkPathScript req lk ++ checkInoScript req lk

/-- The statements of a message that is not refused, up to the row that it inserts. -/
def script (sq : Sqlite) (db : Db) (req : Request) : Script :=
  checkScript req (lookup sq db req) ++ opScript req (checked sq db req)

/-! ## Following a script -/

/-- The script leads from one state of the tables to the other. -/
def Follows (s : Script) (db db' : Db) : Prop :=
  runAll s (db.files, db.xattrs) = (db'.files, db'.xattrs)

section Follows
variable {s s' : Script} {sq : Sqlite} {db db' db'' : Db} {req : Request} {lk : Lookup}
  {c : Checked} {msg : MsgHeader} {path : Bytes}

theorem follows_nil : Follows [] db db := rfl

theorem Follows.append (h : Follows s db db') (h' : Follows s' db' db'') :
    Follows (s ++ s') db db'' := by
  unfold Follows at *
  rw [runAll_append, h, h']

theorem Follows.files (h : Follows s db db') : db'.files = owners s db.files := by
  have hrun : runAll s (db.files, db.xattrs) = (db'.files, db'.xattrs) := h
  rw [runAll_eq] at hrun
  exact (Prod.mk.inj hrun).1.symm

theorem Follows.xattrs (h : Follows s db db') :
    db'.xattrs = delete (clears s db.files) db.xattrs := by
  have hrun : runAll s (db.files, db.xattrs) = (db'.files, db'.xattrs) := h
  rw [runAll_eq] at hrun
  exact (Prod.mk.inj hrun).2.symm

/-- The clean-up for one inode, in the words of `pdb_clear_xattrs`. -/
theorem clearXattrs_eq (db : Db) (msg : MsgHeader) :
    (pdbClearXattrs db msg).xattrs =
      delete (fun x => x.hasKey msg.key && orphan FileRow.owns db.files x) db.xattrs := by
  refine List.filter_congr fun x _ => congrArg not ?_
  show (x.hasKey msg.key && count (atKey msg.key) db.files == 0) =
    (x.hasKey msg.key && count (fun r => r.owns x) db.files == 0)
  cases hk : x.hasKey msg.key with
  | false => rfl
  | true =>
    have hcount : count (atKey msg.key) db.files = count (fun r => r.owns x) db.files := by
      refine congrArg List.length (List.filter_congr fun r _ => ?_)
      rw [Bool.eq_iff_iff, atKey_iff]
      refine ⟨fun h => ?_, fun h => RefusedLemmas.hasKey_unique h hk⟩
      unfold FileRow.owns
      rw [h, hk]
    rw [hcount]

/-- A clean-up that counts the rows first does the same. -/
theorem pdbCheckXattrs_eq (db : Db) (msg : MsgHeader) :
    pdbCheckXattrs db msg = pdbClearXattrs db msg := by
  unfold pdbCheckXattrs
  dsimp only
  split
  · rfl
  · rename_i hcount
    unfold pdbClearXattrs
    rw [delete_eq_self]
    intro x _
    rw [beq_eq_false_iff_ne.mpr hcount, Bool.and_false]

theorem pdbClearXattrs_follows : Follows [clearKey msg.key] db (pdbClearXattrs db msg) := by
  unfold Follows
  rw [clearXattrs_eq]
  rfl

theorem pdbClearUnusedXattrs_follows : Follows [clearUnused] db (pdbClearUnusedXattrs db) := rfl

theorem drop_follows {p : FileRow → Bool} :
    Follows [.drop p] db { db with files := delete p db.files } := rfl

theorem amendRows_follows {p : FileRow → Bool} {f : FileRow → FileRow}
    {hkey : ∀ r, (f r).key = r.key} :
    Follows [amendRows p f hkey] db { db with files := update p f db.files } := rfl

theorem pdbUnlinkFileDev_follows :
    Follows (unlinkFileDevScript msg) db (pdbUnlinkFileDev db msg) :=
  drop_follows.append pdbClearXattrs_follows

theorem pdbUnlinkFile_follows :
    Follows (unlinkFileScript msg path) db (pdbUnlinkFile db msg path) := by
  unfold unlinkFileScript pdbUnlinkFile
  split
  · exact follows_nil
  · rw [pdbCheckXattrs_eq]
    exact drop_follows.append pdbClearXattrs_follows

theorem pdbUnlinkContents_follows :
    Follows (unlinkContentsScript msg path) db (pdbUnlinkContents db msg path) := by
  unfold unlinkContentsScript pdbUnlinkContents
  split
  · exact follows_nil
  · exact drop_follows.append pdbClearUnusedXattrs_follows

theorem checkPath_follows : Follows (checkPathScript req lk) db (checkPath db req lk).1 := by
  unfold checkPathScript checkPath
  split
  · have hmarked : Follows (gaveWayScript req lk) db (clearMarked db req lk) := by
      unfold gaveWayScript clearMarked
      split
      · exact drop_follows.append pdbClearUnusedXattrs_follows
      · exact follows_nil
    refine hmarked.append ?_
    split
    · exact pdbUnlinkFile_follows
    · exact follows_nil
  · exact follows_nil

theorem checkIno_follows : Follows (checkInoScript req (lookup sq db' req)) db
    (checkIno db req (lookup sq db' req)).1 := by
  unfold checkInoScript
  cases hfi : (lookup sq db' req).foundIno with
  | false =>
    simp only [checkIno_absent hfi, Bool.false_eq_true, false_and, if_false]
    exact follows_nil
  | true =>
    obtain ⟨p, hp⟩ := lookup_pathByIno hfi
    rw [checkIno_some hp, hfi]
    by_cases hop : req.hdr.op = .didUnlink
    · simp only [hop, ne_eq, not_true, false_and, and_false, if_false]
      exact follows_nil
    · cases hmm : typeMismatch (lookup sq db' req).byIno req.hdr with
      | false =>
        simp only [hop, Bool.false_eq_true, and_false, if_false, ne_eq, not_false_eq_true,
          and_true, if_true]
        exact follows_nil
      | true =>
        simp only [hop, ne_eq, not_false_eq_true, and_true, if_true]
        exact pdbUnlinkFileDev_follows

/-- The lookups and the checks. -/
theorem checked_follows :
    Follows (checkScript req (lookup sq db req)) db (checked sq db req).db :=
  checkPath_follows.append checkIno_follows

theorem opChange_follows {merge : MsgHeader → MsgHeader} {new : MsgHeader} :
    Follows (changeScript merge c) c.db (opChange merge new c).db := by
  unfold changeScript opChange
  dsimp only
  split
  · exact amendRows_follows
  · split
    · exact amendRows_follows
    · exact follows_nil

theorem opLink_follows : Follows (linkScript req c) c.db (opLink req c).db := by
  unfold linkScript opLink
  dsimp only
  split
  · exact pdbUnlinkFile_follows
  · exact follows_nil

theorem opAction_follows (hop : req.hdr.op.scripted = true) :
    Follows (opScript req c) c.db (opAction sq req c).db := by
  unfold opScript opAction
  cases hkind : req.hdr.op
  case creat =>
    dsimp only [opCreat]
    split
    · exact pdbUnlinkFileDev_follows
    · exact follows_nil
  case chmod | fchmod | chown | fchown => exact opChange_follows
  case stat | fstat =>
    dsimp only [opStat]
    split <;> exact follows_nil
  case link | symlink => exact opLink_follows
  case mayUnlink =>
    dsimp only [opMayUnlink, pdbMayUnlinkFile]
    split
    · exact follows_nil
    · exact amendRows_follows
  case didUnlink => exact drop_follows.append pdbClearXattrs_follows
  case cancelUnlink =>
    dsimp only [pdbCancelUnlinkFile]
    split
    · exact follows_nil
    · rw [pdbCheckXattrs_eq]
      exact Follows.append amendRows_follows pdbClearXattrs_follows
  case unlink =>
    dsimp only [opUnlink]
    refine (pdbUnlinkFile_follows.append pdbUnlinkContents_follows).append ?_
    split
    · exact pdbUnlinkFileDev_follows
    · exact follows_nil
  case mkdir | mknod =>
    dsimp only [opMknod]
    refine Follows.append opLink_follows ?_
    split
    · exact pdbUnlinkFileDev_follows
    · exact follows_nil
  case rename | createXattr | replaceXattr | setXattr | removeXattr =>
    rw [hkind] at hop
    cases hop
  all_goals exact follows_nil

theorem opAction_follows_checked (hop : req.hdr.op.scripted = true) :
    Follows (script sq db req) db (opAction sq req (checked sq db req)).db :=
  checked_follows.append (opAction_follows hop)

end Follows

/-! ## Which attributes a script concerns -/

/-- The operations that neither create a file nor rename one nor concern attributes. -/
def Op.onExisting : Op → Bool
  | .creat | .mkdir | .mknod | .symlink | .rename => false
  | .getXattr | .listXattr | .removeXattr | .setXattr | .createXattr | .replaceXattr => false
  | _ => true

/-- The operations for a new file, which delete the rows of the inode they find. -/
def Op.replacesInode : Op → Bool
  | .creat | .mkdir | .mknod => true
  | _ => false

section Blocks
variable {req : Request} {lk : Lookup} {c : Checked} {msg : MsgHeader} {path : Bytes}
  {x : XattrRow} {Q : FileRow → Prop}

theorem unlinkFileDev_covered (hk : x.hasKey msg.key = true) :
    Covered x (unlinkFileDevScript msg) := by
  refine ⟨Or.inr ?_, trivial⟩
  show (x.hasKey msg.key || false) = true
  rw [hk, Bool.true_or]

theorem unlinkFile_covered (hk : x.hasKey msg.key = true) :
    Covered x (unlinkFileScript msg path) := by
  unfold unlinkFileScript
  split
  · exact trivial
  · refine ⟨Or.inr ?_, trivial⟩
    show (x.hasKey msg.key || false) = true
    rw [hk, Bool.true_or]

theorem unlinkContents_covered : Covered x (unlinkContentsScript msg path) := by
  unfold unlinkContentsScript
  split
  · exact trivial
  · exact ⟨Or.inr rfl, trivial⟩

/-- The clean-up that follows when marked rows give way has every attribute in its scope. -/
theorem gaveWay_covered : Covered x (gaveWayScript req lk) := by
  unfold gaveWayScript
  split
  · exact ⟨Or.inr rfl, trivial⟩
  · exact trivial

theorem checkPath_covered (hk : x.hasKey lk.msg.key = true) :
    Covered x (checkPathScript req lk) := by
  unfold checkPathScript
  split
  · refine gaveWay_covered.append ?_
    split
    · exact unlinkFile_covered hk
    · exact trivial
  · exact trivial

theorem checkIno_covered (hk : x.hasKey lk.msg.key = true) : Covered x (checkInoScript req lk) := by
  unfold checkInoScript
  split
  · exact unlinkFileDev_covered hk
  · exact trivial

theorem check_covered (hk : x.hasKey lk.msg.key = true) : Covered x (checkScript req lk) :=
  (checkPath_covered hk).append (checkIno_covered hk)

theorem change_covered {merge : MsgHeader → MsgHeader} : Covered x (changeScript merge c) := by
  unfold changeScript
  dsimp only
  split
  · exact trivial
  · split <;> exact trivial

theorem link_covered (hk : x.hasKey c.lk.msg.key = true) : Covered x (linkScript req c) := by
  unfold linkScript
  split
  · exact unlinkFile_covered hk
  · exact trivial

/-- The clean-ups of an operation are for the inode in the buffer, and where a file is created, for
the inode that was found. -/
theorem op_covered (hk : x.hasKey c.lk.msg.key = true)
    (hino : req.hdr.op.replacesInode = true → c.foundIno = true →
      x.hasKey c.lk.byIno.key = true) : Covered x (opScript req c) := by
  unfold opScript
  cases hkind : req.hdr.op <;> rw [hkind] at hino
  case creat =>
    dsimp only
    split
    · rename_i h
      exact unlinkFileDev_covered (hino rfl h.1)
    · exact trivial
  case chmod | fchmod | chown | fchown => exact change_covered
  case link | symlink => exact link_covered hk
  case mayUnlink =>
    dsimp only
    split <;> exact trivial
  case didUnlink =>
    refine ⟨Or.inr ?_, trivial⟩
    show (x.hasKey c.lk.msg.key || false) = true
    rw [hk, Bool.true_or]
  case cancelUnlink =>
    dsimp only
    split <;> exact trivial
  case unlink =>
    refine ((unlinkFile_covered hk).append unlinkContents_covered).append ?_
    split
    · exact unlinkFileDev_covered hk
    · exact trivial
  case mkdir | mknod =>
    refine (link_covered hk).append ?_
    split
    · rename_i h
      exact unlinkFileDev_covered (hino rfl h)
    · exact trivial
  all_goals exact trivial

theorem unlinkFileDev_clears {t : List FileRow} (hk : x.hasKey msg.key = true) :
    clears (unlinkFileDevScript msg) t x = true := by
  have hnone : orphan FileRow.owns (delete (atKey msg.key) t) x = true :=
    orphan_delete_iff.mpr fun r _ ho => atKey_iff.mpr (RefusedLemmas.hasKey_unique ho hk)
  show (x.hasKey msg.key && orphan FileRow.owns (delete (atKey msg.key) t) x || false) = true
  rw [hk, hnone]
  rfl

/-- The attributes of the inode that a new file takes over. -/
theorem op_clears_new {t : List FileRow} (hop : req.hdr.op.replacesInode = true)
    (hfi : c.foundIno = true) (hexact : c.lk.foundExact = false)
    (hk : x.hasKey c.lk.byIno.key = true) : clears (opScript req c) t x = true := by
  unfold opScript
  cases hkind : req.hdr.op
  case creat =>
    dsimp only
    rw [if_pos ⟨hfi, by rw [hexact]; exact Bool.false_ne_true⟩]
    exact unlinkFileDev_clears hk
  case mkdir | mknod =>
    dsimp only
    rw [if_pos hfi, clears_append, unlinkFileDev_clears hk, Bool.or_true]
  all_goals
    rw [hkind] at hop
    cases hop

/-! Attributes of another inode than the one in the buffer. -/

theorem unlinkFileDev_reaches (hk : x.hasKey msg.key = false) :
    reaches (unlinkFileDevScript msg) x = false := by
  show (x.hasKey msg.key || false) = false
  rw [hk, Bool.false_or]

theorem unlinkFile_reaches (hk : x.hasKey msg.key = false) :
    reaches (unlinkFileScript msg path) x = false := by
  unfold unlinkFileScript
  split
  · rfl
  · show (x.hasKey msg.key || false) = false
    rw [hk, Bool.false_or]

theorem unlinkContents_reaches :
    reaches (unlinkContentsScript msg path) x = decide (msg.pathlen ≠ 0) := by
  unfold unlinkContentsScript
  split
  · rename_i h
    simp [h, reaches]
  · rename_i h
    simp [h, reaches, clearUnused]

/-- Rows that were marked give way to the inode of the message. -/
def Yields (req : Request) (lk : Lookup) : Prop :=
  lk.foundPath = true ∧ req.hdr.op ≠ .didUnlink ∧ expectedGone req lk = true

instance (req : Request) (lk : Lookup) : Decidable (Yields req lk) :=
  inferInstanceAs (Decidable (_ ∧ _ ∧ _))

theorem gaveWay_reaches : reaches (gaveWayScript req lk) x = expectedGone req lk := by
  unfold gaveWayScript
  split
  · rename_i h
    exact h.symm
  · rename_i h
    exact (Bool.eq_false_iff.mpr h).symm

theorem checkPath_reaches (hk : x.hasKey lk.msg.key = false) :
    reaches (checkPathScript req lk) x = decide (Yields req lk) := by
  unfold checkPathScript
  by_cases hcond : lk.foundPath ∧ req.hdr.op ≠ .didUnlink
  · have hrest : reaches (if typeMismatch lk.byPath req.hdr then unlinkFileScript lk.msg req.path
        else []) x = false := by
      split
      · exact unlinkFile_reaches hk
      · rfl
    rw [if_pos hcond, reaches_append, gaveWay_reaches, hrest, Bool.or_false, Bool.eq_iff_iff,
      decide_eq_true_iff]
    exact ⟨fun h => ⟨hcond.1, hcond.2, h⟩, fun h => h.2.2⟩
  · rw [if_neg hcond]
    exact (decide_eq_false fun h => hcond ⟨h.1, h.2.1⟩).symm

theorem checkIno_reaches (hk : x.hasKey lk.msg.key = false) :
    reaches (checkInoScript req lk) x = false := by
  unfold checkInoScript
  split
  · exact unlinkFileDev_reaches hk
  · rfl

theorem check_reaches (hk : x.hasKey lk.msg.key = false) :
    reaches (checkScript req lk) x = decide (Yields req lk) := by
  unfold checkScript
  rw [reaches_append, checkPath_reaches hk, checkIno_reaches hk, Bool.or_false]

theorem change_reaches {merge : MsgHeader → MsgHeader} :
    reaches (changeScript merge c) x = false := by
  unfold changeScript
  dsimp only
  split
  · rfl
  · split <;> rfl

theorem link_reaches (hk : x.hasKey c.lk.msg.key = false) :
    reaches (linkScript req c) x = false := by
  unfold linkScript
  split
  · exact unlinkFile_reaches hk
  · rfl

/-- The sweep behind the removal of what is below a path. -/
def Empties (req : Request) (lk : Lookup) : Prop := req.hdr.op = .unlink ∧ lk.msg.pathlen ≠ 0

instance (req : Request) (lk : Lookup) : Decidable (Empties req lk) :=
  inferInstanceAs (Decidable (_ ∧ _))

theorem op_reaches_of_ne (hop : req.hdr.op ≠ .unlink) (hk : x.hasKey c.lk.msg.key = false)
    (hino : req.hdr.op.replacesInode = true → c.foundIno = true →
      x.hasKey c.lk.byIno.key = false) : reaches (opScript req c) x = false := by
  unfold opScript
  cases hkind : req.hdr.op <;> rw [hkind] at hino
  case creat =>
    dsimp only
    split
    · rename_i h
      exact unlinkFileDev_reaches (hino rfl h.1)
    · rfl
  case chmod | fchmod | chown | fchown => exact change_reaches
  case link | symlink => exact link_reaches hk
  case mayUnlink =>
    dsimp only
    split <;> rfl
  case didUnlink =>
    show (x.hasKey c.lk.msg.key || false) = false
    rw [hk, Bool.false_or]
  case cancelUnlink =>
    dsimp only
    split
    · rfl
    · show (x.hasKey c.lk.msg.key || false) = false
      rw [hk, Bool.false_or]
  case unlink => exact absurd hkind hop
  case mkdir | mknod =>
    have hrest : reaches (if c.foundIno then unlinkFileDevScript c.lk.byIno else []) x =
        false := by
      split
      · rename_i h
        exact unlinkFileDev_reaches (hino rfl h)
      · rfl
    dsimp only
    rw [reaches_append, link_reaches hk, hrest, Bool.or_false]
  all_goals rfl

theorem op_reaches (hk : x.hasKey c.lk.msg.key = false)
    (hino : req.hdr.op.replacesInode = true → c.foundIno = true →
      x.hasKey c.lk.byIno.key = false) :
    reaches (opScript req c) x = decide (Empties req c.lk) := by
  by_cases hop : req.hdr.op = .unlink
  · have hrest : reaches (if req.hdr.nlink = 1 ∧ c.foundIno then unlinkFileDevScript c.lk.msg
        else []) x = false := by
      split
      · exact unlinkFileDev_reaches hk
      · rfl
    have hempties : decide (Empties req c.lk) = decide (c.lk.msg.pathlen ≠ 0) :=
      decide_eq_decide.mpr ⟨fun h => h.2, fun h => ⟨hop, h⟩⟩
    have hscript : opScript req c = unlinkFileScript c.lk.msg req.path ++
        unlinkContentsScript c.lk.msg req.path ++
        (if req.hdr.nlink = 1 ∧ c.foundIno then unlinkFileDevScript c.lk.msg else []) := by
      unfold opScript
      rw [hop]
    rw [hscript, reaches_append, reaches_append, unlinkFile_reaches hk, unlinkContents_reaches,
      hrest, hempties, Bool.false_or, Bool.or_false]
  · rw [op_reaches_of_ne hop hk hino]
    exact (decide_eq_false fun h => hop h.1).symm

/-! Rows that no deletion is about. -/

theorem unlinkFileDev_avoids (h : ∀ r, Q r → r.key ≠ msg.key) :
    Avoids Q (unlinkFileDevScript msg) :=
  ⟨fun r hr => atKey_eq_false.mpr (h r hr), trivial⟩

theorem unlinkFile_avoids (h : msg.pathlen ≠ 0 → ∀ r, Q r → r.path ≠ path) :
    Avoids Q (unlinkFileScript msg path) := by
  unfold unlinkFileScript
  split
  · exact trivial
  · rename_i hlen
    exact ⟨fun r hr => atPath_eq_false.mpr (h hlen r hr), trivial⟩

theorem checkPath_avoids (h : lk.foundPath = true → ∀ r, Q r → r.path ≠ req.path) :
    Avoids Q (checkPathScript req lk) := by
  unfold checkPathScript
  split
  · rename_i hcond
    refine Avoids.append ?_ ?_
    · unfold gaveWayScript
      split
      · refine ⟨fun r hr => ?_, trivial⟩
        unfold marked
        rw [atPath_eq_false.mpr (h hcond.1 r hr), Bool.false_and]
      · exact trivial
    · split
      · exact unlinkFile_avoids fun _ => h hcond.1
      · exact trivial
  · exact trivial

theorem checkIno_avoids (h : ∀ r, Q r → r.key ≠ lk.msg.key) : Avoids Q (checkInoScript req lk) := by
  unfold checkInoScript
  split
  · exact unlinkFileDev_avoids h
  · exact trivial

theorem link_avoids (h : c.foundPath = true → ∀ r, Q r → r.path ≠ req.path) :
    Avoids Q (linkScript req c) := by
  unfold linkScript
  split
  · rename_i hfp
    exact unlinkFile_avoids fun _ => h hfp
  · exact trivial

theorem unlinkContents_avoids (h : msg.pathlen ≠ 0 → ∀ r, Q r → below path r = false) :
    Avoids Q (unlinkContentsScript msg path) := by
  unfold unlinkContentsScript
  split
  · exact trivial
  · rename_i hlen
    exact ⟨h hlen, trivial⟩

theorem amendRows_avoids {p : FileRow → Bool} {f : FileRow → FileRow}
    {hkey : ∀ r, (f r).key = r.key} (hQ : ∀ r, Q r → Q (f r)) : Avoids Q [amendRows p f hkey] := by
  refine ⟨fun r hr => ?_, trivial⟩
  dsimp only
  split
  · exact hQ r hr
  · exact hr

/-- Amendments keep the path and the inode of a row. -/
theorem mark_avoids {deleting : BitVec 32}
    (hQ : ∀ r r' : FileRow, r'.path = r.path → r'.key = r.key → Q r → Q r') :
    Avoids Q [markRows path deleting] :=
  amendRows_avoids fun r hr => hQ r { r with deleting := deleting } rfl rfl hr

theorem change_avoids {merge : MsgHeader → MsgHeader}
    (hQ : ∀ r r' : FileRow, r'.path = r.path → r'.key = r.key → Q r → Q r') :
    Avoids Q (changeScript merge c) := by
  have hmeta : ∀ msg p, Avoids Q [amendRows p (fun r => r.setMeta msg) fun _ => rfl] :=
    fun msg p => amendRows_avoids fun r hr => hQ r (r.setMeta msg) rfl rfl hr
  unfold changeScript
  dsimp only
  split
  · exact hmeta _ _
  · split
    · exact hmeta _ _
    · exact trivial

/-- What an operation does not touch, marks and attributes apart. -/
theorem op_avoids (hop : req.hdr.op ≠ .didUnlink)
    (hpath : c.lk.msg.pathlen ≠ 0 → ∀ r, Q r → r.path ≠ req.path)
    (hbelow : req.hdr.op = .unlink → c.lk.msg.pathlen ≠ 0 → ∀ r, Q r → below req.path r = false)
    (hkey : req.hdr.op = .unlink → req.hdr.nlink = 1 → c.foundIno = true →
      ∀ r, Q r → r.key ≠ c.lk.msg.key)
    (hino : req.hdr.op.replacesInode = true → c.foundIno = true →
      ∀ r, Q r → r.key ≠ c.lk.byIno.key)
    (hQ : ∀ r r' : FileRow, r'.path = r.path → r'.key = r.key → Q r → Q r') :
    Avoids Q (opScript req c) := by
  have hunlink : Avoids Q (unlinkFileScript c.lk.msg req.path) :=
    unlinkFile_avoids hpath
  have hlink : Avoids Q (linkScript req c) := by
    unfold linkScript
    split
    · exact hunlink
    · exact trivial
  unfold opScript
  cases hkind : req.hdr.op <;> rw [hkind] at hino hkey hbelow
  case creat =>
    dsimp only
    split
    · rename_i h
      exact unlinkFileDev_avoids (hino rfl h.1)
    · exact trivial
  case chmod | fchmod | chown | fchown => exact change_avoids hQ
  case link | symlink => exact hlink
  case mayUnlink =>
    dsimp only
    split
    · exact trivial
    · exact mark_avoids hQ
  case didUnlink => exact absurd hkind hop
  case cancelUnlink =>
    dsimp only
    split
    · exact trivial
    · exact ⟨(mark_avoids hQ).1, trivial⟩
  case unlink =>
    refine (hunlink.append (unlinkContents_avoids (hbelow rfl))).append ?_
    split
    · rename_i h
      exact unlinkFileDev_avoids (hkey rfl h.1 h.2)
    · exact trivial
  case mkdir | mknod =>
    refine hlink.append ?_
    split
    · rename_i h
      exact unlinkFileDev_avoids (hino rfl h)
    · exact trivial
  all_goals exact trivial

end Blocks

/-! ## The whole message -/

/-- The inode of the row that an operation inserts. -/
def insertedKey (req : Request) (c : Checked) : Option (BitVec 32 × BitVec 64) :=
  match req.hdr.op with
  | .creat => if c.foundPath then none else some c.lk.msg.key
  | .chmod | .fchmod | .chown | .fchown =>
    if c.foundPath ∨ c.foundIno then none else some c.lk.msg.key
  | .symlink => some (if c.foundIno then c.lk.msg.key else req.hdr.key)
  | .link | .mkdir | .mknod => some req.hdr.key
  | _ => none

section Message
variable {sq : Sqlite} {db : Db} {req : Request} {m : PseudoMsg} {x : XattrRow}

/-- Without an exact match no row of the path is one of the inode. -/
theorem lookup_not_exact (hreq : req.Proper) (hdev : req.hdr.dev ≠ 0) (hino : req.hdr.ino ≠ 0)
    (h : (lookup sq db req).foundExact = false) (hlen : req.msg.pathlen ≠ 0) :
    ∀ r ∈ db.files, r.path = req.path → r.key ≠ req.hdr.key := by
  intro r hr hp
  have hdev' : req.msg.dev ≠ 0 := by rwa [hreq.msg_eq]
  have hino' : req.msg.ino ≠ 0 := by rwa [hreq.msg_eq]
  unfold lookup at h
  cases hex : findExact sq db req with
  | some found =>
    rw [hex] at h
    cases h
  | none =>
    rw [findExact, if_pos ⟨hlen, hdev', hino'⟩] at hex
    rw [← hreq.key]
    exact pdbFindFileExact_none hex hr hp

theorem opAction_link_key (hreq : req.Proper) :
    (opAction sq req (checked sq db req)).link.map MsgHeader.key =
      insertedKey req (checked sq db req) := by
  have hchange : ∀ (merge : MsgHeader → MsgHeader) (new : MsgHeader),
      new.key = (lookup sq db req).msg.key →
      (opChange merge new (checked sq db req)).link.map MsgHeader.key =
        if (checked sq db req).foundPath ∨ (checked sq db req).foundIno then none
        else some (lookup sq db req).msg.key := by
    intro merge new hnew
    rw [opChange_link]
    split
    · rfl
    · exact congrArg some hnew
  have hbyIno : (checked sq db req).foundIno = true →
      (lookup sq db req).byIno.key = req.hdr.key := by
    intro hfi
    rw [checked_foundIno, Bool.and_eq_true] at hfi
    exact lookup_byIno_key hreq hfi.1
  unfold opAction insertedKey
  cases hop : req.hdr.op
  case creat =>
    dsimp only [opCreat]
    split <;> rfl
  case chmod | fchmod | chown | fchown => exact hchange _ _ rfl
  case stat | fstat =>
    dsimp only [opStat]
    split <;> rfl
  case link | symlink =>
    dsimp only [opLink]
    rw [hop]
    cases hfi : (checked sq db req).foundIno with
    | false => rfl
    | true => first | rfl | exact congrArg some (hbyIno hfi)
  all_goals rfl

/-- A message that is not refused is handled by its operation: the insertion and the mark behind
it concern no attribute. -/
theorem handled_xattrs (hlive : aborts (request m) (lookup sq db (request m)) = false) :
    (pseudoOp sq db m).db.xattrs =
      (opAction sq (request m) (checked sq db (request m))).db.xattrs := by
  unfold pseudoOp
  rw [handle_xattrs, hlive, if_neg Bool.false_ne_true]

theorem handled_orphan (hlive : aborts (request m) (lookup sq db (request m)) = false) :
    orphan FileRow.owns (pseudoOp sq db m).db.files x =
      (orphan FileRow.owns (opAction sq (request m) (checked sq db (request m))).db.files x &&
        !(insertedKey (request m) (checked sq db (request m))).any x.hasKey) := by
  have hmark : orphan FileRow.owns (pseudoOp sq db m).db.files x = orphan FileRow.owns
      ((opAction sq (request m) (checked sq db (request m))).run (request m).path).db.files x := by
    unfold pseudoOp handle
    dsimp only
    rw [hlive, if_neg Bool.false_ne_true]
    rcases markUnlinked_files sq (request m) (checked sq db (request m)) with he | ⟨_, _, _, he⟩
    · rw [he]
    · rw [he]
      refine orphan_map fun r x => ?_
      split <;> rfl
  have hkey : _ = insertedKey _ (checked sq db (request m)) :=
    opAction_link_key (request_proper m)
  rw [hmark, run_files, ← hkey]
  cases (opAction sq (request m) (checked sq db (request m))).link with
  | none =>
    rw [Option.map_none, Option.toList_none, List.append_nil, Option.map_none, Option.any_none,
      Bool.not_false, Bool.and_true]
  | some h =>
    rw [Option.map_some, Option.toList_some, orphan_append, Option.map_some, Option.any_some]
    unfold FileRow.owns
    rw [linkRow_key]

/-- The attributes that are left. -/
theorem pseudoOp_xattrs (hop : m.hdr.op.scripted = true)
    (hlive : aborts (request m) (lookup sq db (request m)) = false) :
    (pseudoOp sq db m).db.xattrs =
      delete (clears (script sq db (request m)) db.files) db.xattrs := by
  rw [handled_xattrs hlive]
  exact (opAction_follows_checked (by rwa [request_hdr_op])).xattrs

/-- The attributes that are left without a file. -/
theorem pseudoOp_orphan (hop : m.hdr.op.scripted = true)
    (hlive : aborts (request m) (lookup sq db (request m)) = false) :
    orphan FileRow.owns (pseudoOp sq db m).db.files x =
      (orphan FileRow.owns (owners (script sq db (request m)) db.files) x &&
        !(insertedKey (request m) (checked sq db (request m))).any x.hasKey) := by
  have hfollows : Follows (script sq db (request m)) db _ :=
    opAction_follows_checked (by rwa [request_hdr_op])
  rw [handled_orphan hlive, hfollows.files]

/-- The attributes that are left after a message that is refused. -/
theorem pseudoOp_refused_xattrs (hlive : aborts (request m) (lookup sq db (request m)) = true) :
    (pseudoOp sq db m).db.xattrs =
      delete (clears (checkPathScript (request m) (lookup sq db (request m))) db.files)
        db.xattrs := by
  have hdb : (pseudoOp sq db m).db = (checkPath db (request m) (lookup sq db (request m))).1 := by
    unfold pseudoOp handle
    dsimp only
    rw [if_pos hlive]
  rw [hdb]
  exact checkPath_follows.xattrs

end Message

end Pseudo

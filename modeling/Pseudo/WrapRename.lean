import Pseudo.Calm
import Pseudo.TwoStores

/-!
# `rename` in the wrappers

`wrap_rename` and `wrap_renameat` of the Unix port. Both tell the server beforehand that the two
paths may go, and afterwards either take that back or record the new name; they differ in the
descriptors they hand on. The paths are those that `pseudo_root_path` has made absolute, so the
descriptors make no difference to what the host finds.

Results:
1. `pathMsg_tells`: what the server reads in a message about one path.
2. `pathCall_cases`, `pathCall_returns`: when a call about one path comes back, and with what.
3. `handle_files`, `calm_files`: it marks the rows of the path, and if the checks find nothing
   wrong, does nothing else.
4. `mismatch_removes`, `mismatch_removes_inode`: a row of another type goes.
-/

namespace Pseudo

open Table
open TwoStoresLemmas (serverPath noticeSent noticeSent_cstr)

/-! ## The wrappers -/

/-- What `real_rename` returns, and `errno` after it. -/
structure HostCall where
  rc : Int
  errno : Int

/-- The two buffers on the stack, before `lstat` fills them. -/
structure RenameBufs where
  newbuf : StatBuf
  oldbuf : StatBuf
  deriving DecidableEq, Repr

/-- What a call leaves, its return code, and `errno`. -/
structure RenameStep where
  db : Db
  tables : FdTables
  rc : Int
  errno : Int
  deriving DecidableEq

/-- `EFAULT`. -/
def efault : Int := 14

/-- "nothing to do for a rename of a link to itself". -/
def sameFile (newstat oldstat : Option StatBuf) : Bool :=
  match newstat, oldstat with
  | some newbuf, some oldbuf => newbuf.dev == oldbuf.dev && newbuf.ino == oldbuf.ino
  | _, _ => false

/-- `msg && msg->result == RESULT_SUCCEED`. -/
def succeeded (result : Option MsgHeader) : Bool :=
  match result with
  | some msg => msg.result == .succeed
  | none => false

/-- A call about one path. -/
def pathCall (op : Op) (dirfd : Int) (path : Bytes) (buf : Option StatBuf) : ClientCall :=
  { op := op, dirfd := dirfd, path := some path, buf := buf }

/-- `may_unlink_new`, `may_unlink_old` and `old_db_entry`, with what the server's answers leave. -/
structure Announced where
  db : Db
  tables : FdTables
  mayUnlinkNew : Bool
  mayUnlinkOld : Bool
  oldDbEntry : Bool
  deriving DecidableEq

section Wrapper
variable (sq : Sqlite) (env : ClientEnv) (leftover : Bytes) (lstat : Bytes → Option StatBuf)
  (olddirfd newdirfd : Int)

/-- A call that is made under a condition. -/
def clientCallIf (cond : Bool) (db : Db) (t : FdTables) (call : ClientCall) : Option CallStep :=
  if cond then clientCall sq env leftover db t call else some ⟨db, t, none⟩

/-- "newpath must be removed", and "oldpath is also likely to disappear". -/
def renameAnnounce (db : Db) (t : FdTables) (oldpath newpath : Bytes) : Option Announced :=
  (clientCall sq env leftover db t (pathCall .mayUnlink newdirfd newpath (lstat newpath))).bind
    fun s₁ =>
  (clientCall sq env leftover s₁.db s₁.tables
    (pathCall .mayUnlink olddirfd oldpath (lstat oldpath))).bind fun s₂ =>
  (clientCall sq env leftover s₂.db s₂.tables
    (pathCall .stat olddirfd oldpath (lstat oldpath))).map fun s₃ =>
  { db := s₃.db, tables := s₃.tables, mayUnlinkNew := succeeded s₁.result,
    mayUnlinkOld := succeeded s₂.result, oldDbEntry := succeeded s₃.result }

/-- "since we failed, that wasn't really unlinked -- put it back". -/
def renameCancel (bufs : RenameBufs) (a : Announced) (oldpath newpath : Bytes) :
    Option CallStep :=
  (clientCallIf sq env leftover a.mayUnlinkNew a.db a.tables
    (pathCall .cancelUnlink newdirfd newpath (some bufs.newbuf))).bind fun s₄ =>
  clientCallIf sq env leftover a.mayUnlinkOld s₄.db s₄.tables
    (pathCall .cancelUnlink olddirfd oldpath (some bufs.oldbuf))

/-- "create an entry under the old name, which will then be renamed": the inode of the target is
taken where the devices differ. -/
def renameOldbuf (newstat : Option StatBuf) (oldDbEntry : Bool) (oldbuf : StatBuf) : StatBuf :=
  match newstat with
  | some newbuf =>
    if ¬ oldDbEntry ∧ newbuf.dev ≠ oldbuf.dev then
      { oldbuf with dev := newbuf.dev, ino := newbuf.ino }
    else oldbuf
  | none => oldbuf

/-- What is sent when the host has renamed the file. `OP_RENAME` carries `olddirfd` in `fd`: "we
know it has no other meaning for RENAME". -/
def renameConfirm (bufs : RenameBufs) (a : Announced) (oldpath newpath : Bytes) :
    Option CallStep :=
  (clientCallIf sq env leftover a.mayUnlinkNew a.db a.tables
    (pathCall .didUnlink newdirfd newpath (some bufs.newbuf))).bind fun s₄ =>
  let oldbuf := renameOldbuf (lstat newpath) a.oldDbEntry bufs.oldbuf
  (clientCallIf sq env leftover (!a.oldDbEntry) s₄.db s₄.tables
    (pathCall .link olddirfd oldpath (some oldbuf))).bind fun s₅ =>
  clientCall sq env leftover s₅.db s₅.tables
    { op := .rename, fd := olddirfd, dirfd := newdirfd, path := some newpath, buf := some oldbuf,
      extra1 := some oldpath }

/-- What `lstat` leaves in the buffers: a call that fails writes nothing. -/
def RenameBufs.fill (bufs : RenameBufs) (newstat oldstat : Option StatBuf) : RenameBufs where
  newbuf := newstat.getD bufs.newbuf
  oldbuf := oldstat.getD bufs.oldbuf

/-- The common shape of `wrap_rename` and `wrap_renameat`. `real` is what the host's own function
does, `bufs` what happens to be on the stack. -/
def renamePaths (real : HostCall) (db : Db) (t : FdTables) (oldpath newpath : Option Bytes)
    (bufs : RenameBufs) : Option RenameStep :=
  match oldpath, newpath with
  | some oldpath, some newpath =>
    if sameFile (lstat newpath) (lstat oldpath) then some ⟨db, t, real.rc, real.errno⟩
    else
      let bufs := bufs.fill (lstat newpath) (lstat oldpath)
      (renameAnnounce sq env leftover lstat olddirfd newdirfd db t oldpath newpath).bind fun a =>
      (if real.rc = -1 then
        renameCancel sq env leftover olddirfd newdirfd bufs a oldpath newpath
      else renameConfirm sq env leftover lstat olddirfd newdirfd bufs a oldpath newpath).map
        fun s => ⟨s.db, s.tables, real.rc, real.errno⟩
  | _, _ => some ⟨db, t, -1, efault⟩

def wrapRename : HostCall → Db → FdTables → Option Bytes → Option Bytes → RenameBufs →
    Option RenameStep :=
  renamePaths sq env leftover lstat (-1) (-1)

def wrapRenameat : HostCall → Db → FdTables → Option Bytes → Option Bytes → RenameBufs →
    Option RenameStep :=
  renamePaths sq env leftover lstat olddirfd newdirfd

end Wrapper

/-! ## A message about one path -/

/-- The operations of a message about one path that insert no row and remove none themselves. -/
def Op.onlyMarks : Op → Bool
  | .mayUnlink | .cancelUnlink | .stat => true
  | _ => false

theorem onlyMarks_cases {o : Op} (h : o.onlyMarks = true) :
    o = .mayUnlink ∨ o = .cancelUnlink ∨ o = .stat := by
  cases o <;> simp_all [Op.onlyMarks]

/-- The buffer that is sent: a header without one is all zero. -/
def StatBuf.sent (buf : Option StatBuf) : StatBuf := buf.getD ⟨0, 0, 0, 0, 0, 0, 0⟩

/-- The inode of a buffer, as the database holds it. -/
def StatBuf.key (buf : StatBuf) : BitVec 32 × BitVec 64 := (bindInt buf.dev, buf.ino)

/-- The server's view of a message about one path. -/
structure Tells (o : Op) (path : Bytes) (buf : StatBuf) (req : Request) : Prop where
  proper : req.Proper
  msg : req.msg = req.hdr
  op : req.hdr.op = o
  path : req.path = serverPath path
  pathlen : req.hdr.pathlen ≠ 0
  dev : req.hdr.dev = buf.dev
  ino : req.hdr.ino = buf.ino
  mode : req.hdr.mode = buf.mode.setWidth 64

def pathMsg (env : ClientEnv) (leftover : Bytes) (op : Op) (dirfd : Int) (path : Bytes)
    (buf : Option StatBuf) : PseudoMsg :=
  (clientRequest env (pathCall op dirfd path buf) (noticeSent path)).received leftover

section Message
variable {sq : Sqlite} {env : ClientEnv} {leftover : Bytes} {op : Op} {dirfd : Int} {path : Bytes}
  {buf : Option StatBuf} {db : Db} {t : FdTables}

theorem Tells.key {b : StatBuf} {req : Request} (h : Tells op path b req) :
    req.hdr.key = b.key := by
  unfold MsgHeader.key StatBuf.key
  rw [h.dev, h.ino, signedIno_eq]

theorem onlyMarks_plain (hop : op.onlyMarks = true) :
    op.usesMagicIds = false ∧ op.isPacked = false := by
  rcases onlyMarks_cases hop with rfl | rfl | rfl <;> exact ⟨rfl, rfl⟩

/-- The header of a call about one path. -/
theorem pathHeader (hids : op.usesMagicIds = false) (sent : Bytes) :
    let h := clientHeader env (pathCall op dirfd path buf) sent
    h.op = op ∧ h.client = env.pid ∧ h.dev = (StatBuf.sent buf).dev ∧
      h.ino = (StatBuf.sent buf).ino ∧ h.mode = (StatBuf.sent buf).mode.setWidth 64 := by
  unfold clientHeader pathCall
  dsimp only
  rw [hids]
  cases buf with
  | none => exact ⟨rfl, rfl, rfl, rfl, rfl⟩
  | some buf => exact ⟨rfl, rfl, rfl, rfl, rfl⟩

theorem pathMsg_tells (hop : op.usesMagicIds = false ∧ op.isPacked = false)
    (hpath : IsCString path) :
    Tells op path (StatBuf.sent buf) (request (pathMsg env leftover op dirfd path buf)) ∧
      (request (pathMsg env leftover op dirfd path buf)).hdr.client = env.pid := by
  obtain ⟨hop', hclient, hdev, hino, hmode⟩ :=
    @pathHeader env op dirfd path buf hop.1 (noticeSent path).1
  have hplain : (pathMsg env leftover op dirfd path buf).hdr.op.isPacked = false := by
    show (clientHeader env (pathCall op dirfd path buf) (noticeSent path).1).op.isPacked = false
    rw [hop']
    exact hop.2
  have hlen : (clientHeader env (pathCall op dirfd path buf) (noticeSent path).1).pathlen ≠ 0 := by
    rw [clientHeader_pathlen]
    unfold noticeSent
    split <;> simp
  have hcstr : cstr (pathMsg env leftover op dirfd path buf).buffer = serverPath path :=
    noticeSent_cstr hpath rfl
  have hproper := request_proper (pathMsg env leftover op dirfd path buf)
  rw [request_plain hplain] at hproper ⊢
  exact ⟨⟨hproper, rfl, hop', hcstr, hlen, hdev, hino, hmode⟩, hclient⟩

/-- The server is asked about the path. -/
def asks (env : ClientEnv) (path : Bytes) : Bool :=
  !pseudoClientIgnorePath env (some path) && !env.localOnly

theorem pseudoClientOp_path (hop : op.onlyMarks = true) :
    pseudoClientOp env t (pathCall op dirfd path buf) =
      some ⟨t, if asks env path then
        some (clientRequest env (pathCall op dirfd path buf) (noticeSent path)) else none⟩ := by
  have hsent : sentPath (some path) none none = some (noticeSent path) := rfl
  unfold pseudoClientOp asks
  cases hig : pseudoClientIgnorePath env (some path) <;> cases hlocal : env.localOnly <;>
    cases op <;>
    simp_all [pathCall, callPath, Op.onlyMarks, Op.neverIgnored, dispatchTables, doRequest]

/-- A call about one path that comes back: the server is not asked, or does not refuse. -/
theorem pathCall_cases {s : CallStep} (hop : op.onlyMarks = true) (hpath : IsCString path)
    (h : clientCall sq env leftover db t (pathCall op dirfd path buf) = some s) :
    asks env path = false ∧ s = ⟨db, t, none⟩ ∨
      asks env path = true ∧ ∃ m, Tells op path (StatBuf.sent buf) (request m) ∧
        (request m).hdr.client = env.pid ∧
        aborts (request m) (lookup sq db (request m)) = false ∧
        s = ⟨(pseudoOp sq db m).db, t, some (pseudoOp sq db m).msg⟩ := by
  rw [clientCall, callServer, pseudoClientOp_path hop, Option.bind_some] at h
  dsimp only at h
  cases hasks : asks env path with
  | false =>
    rw [hasks] at h
    exact Or.inl ⟨rfl, (Option.some.inj h).symm⟩
  | true =>
    rw [hasks, if_pos rfl] at h
    dsimp only at h
    split at h
    · cases h
    · rename_i hlive
      obtain ⟨htells, hclient⟩ := @pathMsg_tells env leftover op dirfd path buf
        (onlyMarks_plain hop) hpath
      refine Or.inr ⟨rfl, pathMsg env leftover op dirfd path buf, htells, hclient, ?_,
        (Option.some.inj h).symm⟩
      exact (result_live_iff sq db _).mp hlive

/-- A call that the server does not refuse comes back. -/
theorem pathCall_returns (hop : op.onlyMarks = true) (hpath : IsCString path)
    (hlive : ∀ req, Tells op path (StatBuf.sent buf) req → aborts req (lookup sq db req) = false) :
    ∃ s, clientCall sq env leftover db t (pathCall op dirfd path buf) = some s := by
  rw [clientCall, callServer, pseudoClientOp_path hop, Option.bind_some]
  dsimp only
  cases asks env path with
  | false => exact ⟨_, rfl⟩
  | true =>
    obtain ⟨htells, _⟩ := @pathMsg_tells env leftover op dirfd path buf (onlyMarks_plain hop) hpath
    have hanswer := (result_live_iff sq db _).mpr (hlive _ htells)
    rw [if_pos rfl]
    dsimp only
    exact ⟨_, if_neg hanswer⟩

end Message

/-! ## What the server makes of it -/

/-- What the operation itself does to the rows of the path. -/
def Op.remark (o : Op) (client : BitVec 32) (r : FileRow) : FileRow :=
  match o with
  | .mayUnlink => { r with deleting := client }
  | .cancelUnlink => { r with deleting := 0 }
  | _ => r

/-- The row is a directory, or a link, exactly when the host's file is. -/
def FileRow.SameType (r : FileRow) (buf : StatBuf) : Prop :=
  sIsdir (columnInt64 r.mode) = sIsdir (buf.mode.setWidth 64) ∧
    sIslnk (columnInt64 r.mode) = sIslnk (buf.mode.setWidth 64)

instance (r : FileRow) (buf : StatBuf) : Decidable (r.SameType buf) :=
  inferInstanceAs (Decidable (_ ∧ _))

/-- No row has the path. -/
def Absent (path : Bytes) (t : List FileRow) : Prop := ∀ r ∈ t, r.path ≠ path

/-- Every row comes from a row of the other table, by a change of its mark. -/
def Descends (t' t : List FileRow) : Prop :=
  ∀ r' ∈ t', ∃ r ∈ t, r'.path = r.path ∧ r'.key = r.key ∧ r'.mode = r.mode

section Remark
variable {o : Op} {client : BitVec 32} {r : FileRow} {t t' t'' : List FileRow} {path : Bytes}

@[simp] theorem remark_path : (o.remark client r).path = r.path := by
  cases o <;> rfl

@[simp] theorem remark_key : (o.remark client r).key = r.key := by
  cases o <;> rfl

@[simp] theorem remark_mode : (o.remark client r).mode = r.mode := by
  cases o <;> rfl

theorem Descends.refl (t : List FileRow) : Descends t t := fun r hr => ⟨r, hr, rfl, rfl, rfl⟩

theorem Descends.trans (h : Descends t'' t') (h' : Descends t' t) : Descends t'' t := by
  intro r'' hr''
  obtain ⟨r', hr', hp', hk', hm'⟩ := h r'' hr''
  obtain ⟨r, hr, hp, hk, hm⟩ := h' r' hr'
  exact ⟨r, hr, hp'.trans hp, hk'.trans hk, hm'.trans hm⟩

theorem Descends.absent (h : Descends t' t) (ha : Absent path t) : Absent path t' := by
  intro r' hr' hp'
  obtain ⟨r, hr, hp, _⟩ := h r' hr'
  exact ha r hr (hp.symm.trans hp')

theorem descends_remark (path : Bytes) (t : List FileRow) :
    Descends (update (atPath path) (o.remark client) t) t := by
  intro r' hr'
  obtain ⟨r, hr, rfl⟩ := mem_update.mp hr'
  refine ⟨r, hr, ?_⟩
  split
  · exact ⟨remark_path, remark_key, remark_mode⟩
  · exact ⟨rfl, rfl, rfl⟩

end Remark

section Handle
variable {sq : Sqlite} {db : Db} {req : Request} {o : Op} {path : Bytes} {buf : StatBuf}

theorem typeMismatch_iff (h : Tells o path buf req) {r : FileRow} :
    typeMismatch (req.hdr.readRow r) req.hdr = false ↔ r.SameType buf := by
  unfold typeMismatch FileRow.SameType
  rw [h.mode]
  simp [MsgHeader.readRow]

theorem Tells.hasPath (h : Tells o path buf req) : req.HasPath := by
  unfold Request.HasPath
  rw [h.msg]
  exact h.pathlen

theorem Tells.not_didUnlink (h : Tells o path buf req) (ho : o.onlyMarks = true) :
    req.hdr.op ≠ .didUnlink := by
  rw [h.op]
  rintro rfl
  cases ho

/-- The operation is all that follows the checks. -/
theorem handle_action (h : Tells o path buf req) (ho : o.onlyMarks = true)
    (hlive : aborts req (lookup sq db req) = false) :
    (handle sq db req).db = (opAction sq req (checked sq db req)).db ∧
      (handle sq db req).msg = (opAction sq req (checked sq db req)).msg := by
  have hop := h.op
  have hdesc : req.hdr.op.onDescriptor = false := by
    rw [hop]
    rcases onlyMarks_cases ho with rfl | rfl | rfl <;> rfl
  have hlink : (opAction sq req (checked sq db req)).link = none := by
    unfold opAction
    rw [hop]
    rcases onlyMarks_cases ho with rfl | rfl | rfl
    · rfl
    · rfl
    · simp only [opStat]
      split <;> rfl
  rw [handle_acts hdesc hlive, Action.run, hlink]
  exact ⟨rfl, rfl⟩

/-- The checks may remove rows; then the rows of the path are marked. -/
theorem handle_files (h : Tells o path buf req) (ho : o.onlyMarks = true)
    (hlive : aborts req (lookup sq db req) = false) :
    (handle sq db req).db.files = update (atPath (serverPath path))
      (o.remark req.hdr.client) (checked sq db req).db.files := by
  have hlen : (lookup sq db req).msg.pathlen ≠ 0 := by
    rw [lookup_msg_pathlen h.msg]
    exact h.pathlen
  rw [(handle_action h ho hlive).1, ← h.path]
  unfold opAction
  rw [h.op]
  rcases onlyMarks_cases ho with rfl | rfl | rfl
  · rw [opMayUnlink_files, checked_lk, if_neg hlen, lookup_msg_client h.proper]
    rfl
  · rw [pdbCancelUnlinkFile_files, checked_lk, if_neg hlen]
    rfl
  · have hself : update (atPath req.path) (Op.stat.remark req.hdr.client)
        (checked sq db req).db.files = (checked sq db req).db.files :=
      update_eq_self fun _ _ _ => rfl
    rw [hself]
    simp only [opStat]
    split <;> rfl

theorem handle_descends (h : Tells o path buf req) (ho : o.onlyMarks = true)
    (hlive : aborts req (lookup sq db req) = false) :
    Descends (handle sq db req).db.files (checked sq db req).db.files := by
  rw [handle_files h ho hlive]
  exact descends_remark _ _

theorem checked_descends : Descends (checked sq db req).db.files db.files :=
  fun r hr => ⟨r, mem_of_mem_checked hr, rfl, rfl, rfl⟩

theorem handle_descends_db (h : Tells o path buf req) (ho : o.onlyMarks = true)
    (hlive : aborts req (lookup sq db req) = false) :
    Descends (handle sq db req).db.files db.files :=
  (handle_descends h ho hlive).trans checked_descends

/-- `OP_MAY_UNLINK` succeeds when it marks a row. -/
theorem handle_mayUnlink_result (h : Tells .mayUnlink path buf req)
    (hsucceed : (lookup sq db req).msg.result = .succeed)
    (hlive : aborts req (lookup sq db req) = false) :
    (handle sq db req).msg.result = .succeed ↔
      ¬ Absent (serverPath path) (handle sq db req).db.files := by
  have hlen : (lookup sq db req).msg.pathlen ≠ 0 := by
    rw [lookup_msg_pathlen h.msg]
    exact h.pathlen
  have habsent : Absent (serverPath path) (handle sq db req).db.files ↔
      count (atPath req.path) (checked sq db req).db.files = 0 := by
    rw [handle_files h rfl hlive, count_eq_zero, h.path]
    constructor
    · intro ha r hr
      refine atPath_eq_false.mpr fun hp => ?_
      refine ha _ (mem_update.mpr ⟨r, hr, rfl⟩) ?_
      split
      · exact remark_path.trans hp
      · exact hp
    · intro ha r' hr' hp'
      obtain ⟨r, hr, hp, _⟩ := descends_remark _ _ r' hr'
      exact atPath_eq_false.mp (ha r hr) (hp.symm.trans hp')
  rw [habsent, (handle_action h rfl hlive).2]
  unfold opAction
  rw [h.op]
  simp only [opMayUnlink, pdbMayUnlinkFile, checked_lk, hlen, if_false]
  unfold MsgHeader.failIf
  by_cases hcount : count (atPath req.path) (checked sq db req).db.files = 0
  · simp [hcount]
  · simp [hcount, hsucceed, Nat.pos_of_ne_zero hcount]

/-! ## Messages that find nothing wrong -/

theorem calm_files (h : Tells o path buf req) (ho : o.onlyMarks = true)
    (hcalm : Calm req (hits sq db.files req)) :
    (handle sq db req).db.files =
      update (atPath (serverPath path)) (o.remark req.hdr.client) db.files := by
  rw [handle_files h ho (hcalm.live h.proper), hcalm.checked h.proper]

/-- The attributes stay unless a cancelled inode has no row. -/
theorem calm_xattrs (h : Tells o path buf req) (ho : o.onlyMarks = true)
    (hcalm : Calm req (hits sq db.files req))
    (howned : o = .cancelUnlink → ∃ r ∈ db.files, r.key = (lookup sq db req).msg.key) :
    (handle sq db req).db.xattrs = db.xattrs := by
  have hlen : (lookup sq db req).msg.pathlen ≠ 0 := by
    rw [lookup_msg_pathlen h.msg]
    exact h.pathlen
  rw [(handle_action h ho (hcalm.live h.proper)).1, hcalm.checked h.proper]
  unfold opAction
  rw [h.op]
  rcases onlyMarks_cases ho with rfl | rfl | rfl
  · simp only [opMayUnlink, pdbMayUnlinkFile, hlen, if_false]
  · obtain ⟨r, hr, hk⟩ := howned rfl
    have hcount : count (atKey (lookup sq db req).msg.key)
        (update (atPath req.path) (fun r => { r with deleting := 0 }) db.files) ≠ 0 := by
      rw [Ne, count_eq_zero]
      intro hall
      have hfalse := hall _ (mem_update.mpr ⟨r, hr, rfl⟩)
      split at hfalse
      · exact atKey_eq_false.mp hfalse hk
      · exact atKey_eq_false.mp hfalse hk
    simp only [pdbCancelUnlinkFile, hlen, pdbCheckXattrs, hcount, if_false]
  · simp only [opStat]
    split <;> rfl

variable (sq) in
/-- A row with the path and the inode that are sent. -/
theorem hits_recorded (h : Tells o path buf req) (hnum : buf.dev ≠ 0 ∧ buf.ino ≠ 0) {r : FileRow}
    (hr : r ∈ db.files) (hp : r.path = serverPath path) (hk : r.key = buf.key) :
    ∃ s ∈ db.files, s.path = serverPath path ∧ s.key = buf.key ∧
      hits sq db.files req = ⟨true, some s, some s⟩ := by
  have hinode : req.HasInode := ⟨by rw [h.dev]; exact hnum.1, by rw [h.ino]; exact hnum.2⟩
  have hex : (hits sq db.files req).exact = true := by
    refine Bool.of_not_eq_false fun hex => ?_
    refine exactRow_none (hits_not_exact hex).1 h.hasPath hinode hr (hp.trans h.path.symm) ?_
    rw [h.key, hk]
  obtain ⟨s, hs, _, _, hsp, hsk, he⟩ := hits_exact hex
  exact ⟨s, hs, hsp.trans h.path, hsk.trans h.key, he⟩

theorem not_pathMismatch (h : Tells o path buf req) (ho : o.onlyMarks = true) {p : Bytes}
    (hp : p = serverPath path) : pathMismatch req p = false := by
  unfold pathMismatch
  rw [h.op, hp, h.path]
  rcases onlyMarks_cases ho with rfl | rfl | rfl <;> simp

/-- A request that is not refused finds, for its inode, no unmarked row of another path. -/
theorem marked_of_hit (h : Tells o path buf req) (ho : o.onlyMarks = true)
    (hlive : aborts req (lookup sq db req) = false) {r : FileRow}
    (hr : (hits sq db.files req).ino = some r) (hne : r.path ≠ serverPath path)
    (hnamed : r.path ≠ namelessFile) : r.deleting ≠ 0 := by
  have hmm : pathMismatch req r.path = true := by
    unfold pathMismatch
    rw [h.op, h.path]
    rcases onlyMarks_cases ho with rfl | rfl | rfl <;> simp [hne.symm, hnamed]
  intro hzero
  have habort := (aborts_iff h.proper hr).mpr ⟨h.not_didUnlink ho, h.hasPath, hmm, hzero⟩
  rw [hlive] at habort
  cases habort

/-- It is not refused. -/
theorem recorded_live (h : Tells o path buf req) (ho : o.onlyMarks = true)
    (hnum : buf.dev ≠ 0 ∧ buf.ino ≠ 0) {r : FileRow} (hr : r ∈ db.files)
    (hp : r.path = serverPath path) (hk : r.key = buf.key) :
    aborts req (lookup sq db req) = false := by
  obtain ⟨s, _, hsp, _, he⟩ := hits_recorded sq h hnum hr hp hk
  refine Bool.eq_false_iff.mpr fun ha => ?_
  obtain ⟨_, _, hmm, _⟩ := (aborts_iff h.proper (r := s) (by rw [he])).mp ha
  rw [not_pathMismatch h ho hsp] at hmm
  cases hmm

variable (sq) in
theorem recorded_key (h : Tells o path buf req) (hnum : buf.dev ≠ 0 ∧ buf.ino ≠ 0) {r : FileRow}
    (hr : r ∈ db.files) (hp : r.path = serverPath path) (hk : r.key = buf.key) :
    (lookup sq db req).msg.key = buf.key := by
  obtain ⟨s, _, _, _, he⟩ := hits_recorded sq h hnum hr hp hk
  rw [lookup_hits h.proper, he]
  exact h.key

/-- A file that is recorded as it is. -/
theorem calm_recorded (h : Tells o path buf req) (ho : o.onlyMarks = true)
    (hnum : buf.dev ≠ 0 ∧ buf.ino ≠ 0) {r : FileRow} (hr : r ∈ db.files)
    (hp : r.path = serverPath path)
    (hfits : ∀ s ∈ db.files, s.path = serverPath path → s.key = buf.key ∧ s.SameType buf) :
    Calm req (hits sq db.files req) := by
  obtain ⟨s, hs, hsp, hsk, he⟩ := hits_recorded sq h hnum hr hp (hfits r hr hp).1
  have htype : typeMismatch (req.hdr.readRow s) req.hdr = false :=
    (typeMismatch_iff h).mpr (hfits s hs hsp).2
  rw [he]
  refine ⟨fun q hq => ?_, fun q hq => ?_⟩
  · obtain rfl := Option.some.inj hq
    exact pathFits_of_key (hsk.trans h.key.symm) htype
  · obtain rfl := Option.some.inj hq
    exact ⟨fun _ _ hmm => absurd hmm (by rw [not_pathMismatch h ho hsp]; simp), htype⟩

/-! ## Messages that remove rows -/

/-- A row that is found for the path and has the wrong type goes. -/
theorem mismatch_removes (h : Tells o path buf req) (ho : o.onlyMarks = true)
    (hlive : aborts req (lookup sq db req) = false)
    (hmm : ∀ r ∈ db.files, r.path = serverPath path → ¬ r.SameType buf) :
    Absent (serverPath path) (handle sq db req).db.files := by
  refine (handle_descends h ho hlive).absent ?_
  have hfp : (checked sq db req).foundPath = false := by
    cases hp : (hits sq db.files req).path with
    | none =>
      rw [checked_foundPath, lookup_foundPath h.proper, hp]
      rfl
    | some r =>
      obtain ⟨hr, _, hrp⟩ := hits_path hp
      have hno := hmm r hr (hrp.trans h.path)
      rw [← typeMismatch_iff h, Bool.not_eq_false] at hno
      have hbyPath : typeMismatch (lookup sq db req).byPath req.hdr = true := by
        refine (typeMismatch_readRow (r := r) ?_).trans hno
        rw [lookup_hits h.proper, Hits.lookup, hp]
        split <;> rfl
      rw [checked_foundPath, hbyPath]
      simp [h.not_didUnlink ho]
  rw [← h.path]
  exact checked_no_path h.msg (h.not_didUnlink ho) h.pathlen hfp

/-- A row that is found for the inode and has the wrong type goes, with all others of it. -/
theorem mismatch_removes_inode (h : Tells o path buf req) (ho : o.onlyMarks = true)
    (hlive : aborts req (lookup sq db req) = false) {r : FileRow}
    (hr : (hits sq db.files req).ino = some r) (hmm : ¬ r.SameType buf)
    (hkey : (lookup sq db req).msg.key = buf.key) :
    ∀ s ∈ (handle sq db req).db.files, s.key ≠ buf.key := by
  have hfi : (lookup sq db req).foundIno = true := by
    rw [lookup_foundIno h.proper, hr]
    rfl
  rw [← typeMismatch_iff h, Bool.not_eq_false] at hmm
  have hbyIno : typeMismatch (lookup sq db req).byIno req.hdr = true := by
    refine (typeMismatch_readRow (r := r) ?_).trans hmm
    rw [lookup_hits h.proper, Hits.lookup, hr]
    split <;> rfl
  have hcfi : (checked sq db req).foundIno = false := by
    rw [checked_foundIno, hbyIno]
    simp [h.not_didUnlink ho]
  intro s hs hk
  obtain ⟨q, hq, _, hqk, _⟩ := handle_descends h ho hlive s hs
  refine checked_drop_ino (h.not_didUnlink ho) hfi hcfi q hq ?_
  rw [hkey, ← hqk, hk]

end Handle

end Pseudo

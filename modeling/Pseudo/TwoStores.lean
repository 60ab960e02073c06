import Pseudo.OneFile
import Pseudo.Xattrdb

/-!
# The attribute against the database

The wrappers' notices for one file, once with everything in the database and once with the build
that keeps the metadata in `user.pseudo_data`. Both are a record of the file's owner, mode and
device, which each notice rewrites by rules of its own.

Results:
1. `database_notice`, `attribute_notice`: what a notice makes of the record in each store.
2. `database_yields`, `attribute_yields`: what `OP_STAT` then answers.
3. `stores_agree_iff`: the answers agree throughout a run exactly when every notice `Merges`.
-/

namespace Pseudo

/-- What `OP_STAT` is asked for. -/
structure FileData where
  uid : BitVec 32
  gid : BitVec 32
  mode : BitVec 32
  rdev : BitVec 64
  deriving DecidableEq, Repr

def MsgHeader.fileData (msg : MsgHeader) : FileData :=
  ⟨msg.uid, msg.gid, msg.mode.setWidth 32, msg.rdev⟩

def FileRow.fileData (r : FileRow) : FileData := ⟨r.uid, r.gid, r.mode, columnInt64 r.rdev⟩

def PseudoDbData.fileData (d : PseudoDbData) : FileData := ⟨d.uid, d.gid, d.mode, d.rdev⟩

def StatBuf.fileData (buf : StatBuf) : FileData := ⟨buf.uid, buf.gid, buf.mode, buf.rdev⟩

/-- What is left of it in the columns of the database. -/
def FileData.stored (m : FileData) : FileData := { m with rdev := columnInt64 (bindInt m.rdev) }

/-- The ids of a row that the server takes for one without data. -/
def FileData.Placeholder (m : FileData) : Prop := m.uid = -1 ∧ m.gid = -1

instance (m : FileData) : Decidable m.Placeholder := inferInstanceAs (Decidable (_ ∧ _))

/-- What stays the same about a host file. -/
structure HostFile where
  dev : BitVec 64
  ino : BitVec 64
  type : BitVec 32
  rdev : BitVec 64
  regOrDir : type = 0o100000 ∨ type = 0o040000

/-- The host's answer for the file: its owner, permissions and links may be any. -/
structure OfHost (f : HostFile) (buf : StatBuf) : Prop where
  dev : buf.dev = f.dev
  ino : buf.ino = f.ino
  type : buf.mode &&& ~~~ 0o7777 = f.type
  rdev : buf.rdev = f.rdev

instance (f : HostFile) (buf : StatBuf) : Decidable (OfHost f buf) :=
  decidable_of_iff (buf.dev = f.dev ∧ buf.ino = f.ino ∧ buf.mode &&& ~~~ 0o7777 = f.type ∧
      buf.rdev = f.rdev)
    ⟨fun ⟨hdev, hino, htype, hrdev⟩ => ⟨hdev, hino, htype, hrdev⟩,
      fun h => ⟨h.dev, h.ino, h.type, h.rdev⟩⟩

/-- A character or block device. -/
def isDevice (mode : BitVec 32) : Bool :=
  mode &&& 0o170000 == 0o020000 || mode &&& 0o170000 == 0o060000

/-- A call of a wrapper for the file. A device node stands in a regular file. -/
inductive Notice (f : HostFile)
  | mknod (buf : StatBuf) (host : OfHost f buf) (umask mode : BitVec 32) (dev : BitVec 64)
      (regular : f.type = 0o100000) (device : isDevice (mknodMode umask mode) = true)
  | creat (buf : StatBuf) (host : OfHost f buf) (umask mode : BitVec 32)
  | chmod (buf : StatBuf) (host : OfHost f buf) (mode : BitVec 32)
  | chown (buf : StatBuf) (host : OfHost f buf) (owner group : BitVec 32)

namespace Notice

/-- The wrapper of the notice. -/
def send {f : HostFile} {σ : Type} (clientOp : ClientOp σ) (path : Bytes) (s : σ) :
    Notice f → Option σ
  | mknod buf _ umask mode dev _ _ => wrapMknodat clientOp s path buf umask mode dev
  | creat buf _ umask mode => wrapOpenatCreat clientOp s path buf umask mode
  | chmod buf _ mode => wrapFchmodat clientOp s path buf mode
  | chown buf _ owner group => wrapFchownat clientOp s path buf owner group

/-- What both stores are asked to record for a file without a record. -/
def fresh {f : HostFile} (env : ClientEnv) : Notice f → FileData
  | mknod buf _ umask mode dev _ _ =>
    ⟨env.fuid, env.fgid, (pseudoDbMode buf.mode (mknodMode umask mode) &&& 0o7777) |||
      (mknodMode umask mode &&& ~~~ 0o7777), dev⟩
  | creat buf _ umask mode =>
    ⟨env.fuid, env.fgid, pseudoDbMode buf.mode (mode &&& ~~~ umask), buf.rdev⟩
  | chmod buf _ mode => ⟨env.fuid, env.fgid, withPermissions buf.mode mode, buf.rdev⟩
  | chown buf _ owner group =>
    ⟨(buf.override owner group).uid, (buf.override owner group).gid, buf.mode, buf.rdev⟩

/-- The record of the database after the notice. -/
def inDatabase {f : HostFile} (env : ClientEnv) (r : Option FileData) (n : Notice f) : FileData :=
  match r with
  | none => (n.fresh env).stored
  | some m =>
    match n with
    | mknod .. => (n.fresh env).stored
    | creat .. => m
    | chmod _ _ mode => { m with mode := withPermissions m.mode mode }
    | chown _ _ owner group =>
      { m with uid := if owner = -1 then m.uid else owner
               gid := if group = -1 then m.gid else group }

/-- The record in the attribute after the notice. -/
def inAttribute {f : HostFile} (env : ClientEnv) (r : Option FileData) (n : Notice f) : FileData :=
  match r with
  | none => n.fresh env
  | some m =>
    match n with
    | mknod .. | creat .. => n.fresh env
    | chmod buf _ mode =>
      { m with mode := withPermissions buf.mode mode, rdev := buf.rdev }
    | chown _ _ owner group =>
      { m with uid := if owner = -1 then m.uid else owner
               gid := if group = -1 then m.gid else group }

end Notice

/-- What an answer to `OP_STAT` says, if it was found. -/
def answered (result : Option MsgHeader) : Option FileData :=
  (result.filter fun msg => msg.result = .succeed).map MsgHeader.fileData

/-- What `OP_STAT` yields. -/
def yields {σ : Type} (clientOp : ClientOp σ) (path : Bytes) (s : σ) (buf : StatBuf) :
    Option FileData :=
  (clientOp s (noticeCall .stat path buf)).bind fun (_, result) => answered result

/-- The record in the attribute. -/
def XattrDb.record (x : XattrDb) : Option FileData :=
  (x.stored.filter fun stored => stored.version = 1).map PseudoDbData.fileData

/-- The two rules agree on the notice: the device number fits the column, a creation finds no
other record, a `chmod` finds the type and the device number of the host file, and no record
gets the ids of a placeholder. -/
def Merges {f : HostFile} (env : ClientEnv) (r : Option FileData) (n : Notice f) : Prop :=
  match r with
  | none => DevFits (n.fresh env).rdev ∧ ¬ (n.fresh env).Placeholder
  | some m =>
    match n with
    | .mknod .. => DevFits (n.fresh env).rdev ∧ ¬ (n.fresh env).Placeholder
    | .creat .. => m = n.fresh env
    | .chmod .. => m.mode &&& ~~~ 0o7777 = f.type ∧ m.rdev = f.rdev
    | .chown _ _ owner group => ¬ ((if owner = -1 then m.uid else owner) = -1 ∧
        (if group = -1 then m.gid else group) = -1)

namespace TwoStoresLemmas

section Masks
variable {w : Nat} {a b m n : BitVec w}

/-- The bits outside of a mask are those of the value they are kept from. -/
theorem mask_replace (h : m &&& n = 0) : ((a &&& ~~~ m) ||| (b &&& m)) &&& n = a &&& n := by
  refine BitVec.eq_of_getLsbD_eq fun i hi => ?_
  have hbit : (m.getLsbD i && n.getLsbD i) = false := by
    rw [← BitVec.getLsbD_and, h]
    exact BitVec.getLsbD_zero
  simp only [BitVec.getLsbD_and, BitVec.getLsbD_or, BitVec.getLsbD_not, hi, decide_true,
    Bool.true_and]
  revert hbit
  cases a.getLsbD i <;> cases b.getLsbD i <;> cases m.getLsbD i <;> cases n.getLsbD i <;> simp

/-- The bits of the mask are the new ones. -/
theorem mask_replaced : ((a &&& ~~~ m) ||| (b &&& m)) &&& m = b &&& m := by
  refine BitVec.eq_of_getLsbD_eq fun i hi => ?_
  simp only [BitVec.getLsbD_and, BitVec.getLsbD_or, BitVec.getLsbD_not, hi, decide_true,
    Bool.true_and]
  cases a.getLsbD i <;> cases b.getLsbD i <;> cases m.getLsbD i <;> rfl

end Masks

/-! ## The two rules -/

theorem stored_eq_iff {m : FileData} : m.stored = m ↔ DevFits m.rdev := by
  cases m
  simp [FileData.stored, DevFits]

/-- A notice merges exactly when both stores make the same record of it, and no placeholder. -/
theorem merges_iff {f : HostFile} (env : ClientEnv) {r : Option FileData} (n : Notice f)
    (hr : ∀ m, r = some m → ¬ m.Placeholder) :
    n.inDatabase env r = n.inAttribute env r ∧ ¬ (n.inAttribute env r).Placeholder ↔
      Merges env r n := by
  cases r with
  | none => exact and_congr_left' stored_eq_iff
  | some m =>
    have hm := hr m rfl
    cases n with
    | mknod => exact and_congr_left' stored_eq_iff
    | creat buf host umask mode =>
      constructor
      · exact fun h => h.1
      · intro (h : m = _)
        exact ⟨h, fun hp => hm (h ▸ hp)⟩
    | chmod buf host mode =>
      have hmode : withPermissions m.mode mode = withPermissions buf.mode mode ↔
          m.mode &&& ~~~ 0o7777 = f.type := by
        rw [← host.type]
        unfold withPermissions
        constructor
        · intro h
          have hkeep := congrArg (fun v => v &&& ~~~ (0o7777 : BitVec 32)) h
          rwa [mask_replace (by decide), mask_replace (by decide)] at hkeep
        · intro h
          rw [h]
      constructor
      · rintro ⟨h, -⟩
        simp only [Notice.inDatabase, Notice.inAttribute, FileData.mk.injEq, true_and] at h
        exact ⟨hmode.mp h.1, h.2.trans host.rdev⟩
      · rintro ⟨htype, hrdev⟩
        refine ⟨?_, hm⟩
        simp only [Notice.inDatabase, Notice.inAttribute, FileData.mk.injEq, true_and]
        exact ⟨hmode.mpr htype, hrdev.trans host.rdev.symm⟩
    | chown buf host owner group => exact and_iff_right rfl

/-! ## The request of a notice -/

/-- The path that the server sees. -/
def serverPath (path : Bytes) : Bytes := if stripSlash path then path.dropLast else path

theorem noticeSent_nul (path : Bytes) :
    (if stripSlash path then path.dropLast ++ [0, 0] else path ++ [0]).getLast? = some 0 := by
  split <;> simp

def noticeSent (path : Bytes) : SentPath :=
  ⟨if stripSlash path then path.dropLast ++ [0, 0] else path ++ [0], fun _ => noticeSent_nul path⟩

def noticeMsg (env : ClientEnv) (leftover : Bytes) (op : Op) (path : Bytes) (buf : StatBuf) :
    PseudoMsg :=
  (clientRequest env (noticeCall op path buf) (noticeSent path)).received leftover

/-- What the server finds in the header. -/
structure NoticeHeader (env : ClientEnv) (o : Op) (buf : StatBuf) (h : MsgHeader) : Prop where
  op : h.op = o
  result : h.result = .succeed
  pathlen : h.pathlen ≠ 0
  key : h.key = (bindInt buf.dev, buf.ino)
  mode : h.mode = buf.mode.setWidth 64
  rdev : h.rdev = buf.rdev
  uid : h.uid = if o.usesMagicIds then env.fuid else buf.uid
  gid : h.gid = if o.usesMagicIds then env.fgid else buf.gid

section Request
variable {env : ClientEnv} {leftover : Bytes} {op : Op} {path : Bytes} {buf : StatBuf}

theorem noticeHeader (env : ClientEnv) (leftover : Bytes) (op : Op) (path : Bytes) (buf : StatBuf) :
    NoticeHeader env op buf
      { (noticeMsg env leftover op path buf).hdr with result := .succeed } := by
  have hhdr : (noticeMsg env leftover op path buf).hdr =
      clientHeader env (noticeCall op path buf) (noticeSent path).1 := rfl
  have hlen : (clientHeader env (noticeCall op path buf) (noticeSent path).1).pathlen ≠ 0 := by
    rw [clientHeader_pathlen]
    unfold noticeSent
    split <;> simp
  rw [hhdr]
  unfold clientHeader noticeCall at hlen ⊢
  dsimp only at hlen ⊢
  cases hids : op.usesMagicIds with
  | true =>
    rw [hids, if_pos rfl] at hlen
    exact ⟨rfl, rfl, hlen, by simp [MsgHeader.key, MsgHeader.stat], rfl, rfl, by rw [hids]; rfl,
      by rw [hids]; rfl⟩
  | false =>
    rw [hids, if_neg (by simp)] at hlen
    exact ⟨rfl, rfl, hlen, by simp [MsgHeader.key, MsgHeader.stat], rfl, rfl, by rw [hids]; rfl,
      by rw [hids]; rfl⟩

/-- The server reads the path up to its first NUL. -/
theorem noticeSent_cstr {m : PseudoMsg} (hpath : IsCString path)
    (hsent : m.path = (noticeSent path).1) : cstr m.buffer = serverPath path := by
  have hne : (noticeSent path).1 ≠ [] := by
    unfold noticeSent
    split <;> simp
  rw [PseudoMsg.buffer, hsent, if_neg hne]
  unfold noticeSent serverPath
  split
  · have hdrop : IsCString path.dropLast := fun h => hpath (List.mem_of_mem_dropLast h)
    rw [List.append_assoc]
    exact cstr_append_nul hdrop _
  · rw [List.append_assoc]
    exact cstr_append_nul hpath _

theorem notice_request (env : ClientEnv) (leftover : Bytes) (op : Op) (buf : StatBuf)
    (hop : op.aboutFile = true) (hpath : IsCString path) :
    (request (noticeMsg env leftover op path buf)).msg =
        (request (noticeMsg env leftover op path buf)).hdr ∧
      NoticeHeader env op buf (request (noticeMsg env leftover op path buf)).hdr ∧
      (request (noticeMsg env leftover op path buf)).path = serverPath path := by
  have hop' : (noticeMsg env leftover op path buf).hdr.op = op :=
    (noticeHeader env leftover op path buf).op
  have hplain : (noticeMsg env leftover op path buf).hdr.op.isPacked = false := by
    rw [hop']
    cases op <;> simp_all [Op.aboutFile, Op.isPacked]
  rw [request_plain hplain]
  refine ⟨rfl, noticeHeader env leftover op path buf, ?_⟩
  show cstr (noticeMsg env leftover op path buf).buffer = serverPath path
  exact noticeSent_cstr hpath rfl

/-- The client has the server handle a notice. -/
theorem databaseOp_eq {sq : Sqlite} (t : FdTables) {db : Db} (hop : op.aboutFile = true)
    (hknown : pseudoClientIgnorePath env (some path) = false) (hlocal : env.localOnly = false)
    (hlive : (pseudoOpXattrdb sq db (noticeMsg env leftover op path buf)).msg.result ≠ .abort) :
    databaseOp sq env leftover t db (noticeCall op path buf) =
      some ((pseudoOpXattrdb sq db (noticeMsg env leftover op path buf)).db,
        some (pseudoOpXattrdb sq db (noticeMsg env leftover op path buf)).msg) := by
  have hsent : pseudoClientOp env t (noticeCall op path buf) =
      some ⟨t, some (clientRequest env (noticeCall op path buf) (noticeSent path))⟩ := by
    have hpath : callPath t (noticeCall op path buf) = some path := rfl
    unfold pseudoClientOp
    dsimp only
    rw [hpath, hknown]
    cases op <;>
      simp_all [Op.aboutFile, noticeCall, sentPath, dispatchTables, doRequest, noticeSent]
  rw [databaseOp, callServer_sent hsent hlive]
  rfl

/-- No path is sent that is to be ignored. -/
theorem databaseOp_ignored {sq : Sqlite} {t : FdTables} {db : Db} (hop : op.aboutFile = true)
    (hignored : pseudoClientIgnorePath env (some path) = true) :
    databaseOp sq env leftover t db (noticeCall op path buf) = some (db, none) := by
  have hpath : callPath t (noticeCall op path buf) = some path := rfl
  have hnothing : pseudoClientOp env t (noticeCall op path buf) = some ⟨t, none⟩ := by
    unfold pseudoClientOp
    dsimp only
    rw [hpath, hignored]
    cases op <;> simp_all [Op.aboutFile, noticeCall, Op.neverIgnored]
  rw [databaseOp, callServer, hnothing]
  rfl

end Request

/-! ## The record in the database -/

/-- The kinds of file that the server tells apart. -/
def SameKind (a b : BitVec 32) : Prop :=
  sIsdir (a.setWidth 64) = sIsdir (b.setWidth 64) ∧ sIslnk (a.setWidth 64) = sIslnk (b.setWidth 64)

theorem setWidth_type (m : BitVec 32) :
    m.setWidth 64 &&& sIfmt = (m &&& 0o170000).setWidth 64 := by
  rw [BitVec.setWidth_and]
  rfl

theorem sameKind_of_type {a b : BitVec 32} (h : a &&& 0o170000 = b &&& 0o170000) :
    SameKind a b := by
  unfold SameKind sIsdir sIslnk
  rw [setWidth_type, setWidth_type, h]
  exact ⟨rfl, rfl⟩

theorem SameKind.trans {a b c : BitVec 32} (h : SameKind a b) (h' : SameKind b c) : SameKind a c :=
  ⟨h.1.trans h'.1, h.2.trans h'.2⟩

@[simp] theorem bindInt_setWidth (m : BitVec 32) : bindInt (m.setWidth 64) = m := by
  simp [bindInt]

theorem columnInt64_type (m : BitVec 32) : columnInt64 m &&& sIfmt = m.setWidth 64 &&& sIfmt := by
  have h := RecordLemmas.columnInt64_bindInt_type (m.setWidth 64)
  rwa [bindInt_setWidth] at h

/-- The row is that of the file. -/
structure RowOf (f : HostFile) (path : Bytes) (r : FileRow) : Prop where
  path : r.path = serverPath path
  key : r.key = (bindInt f.dev, f.ino)
  kind : SameKind r.mode f.type

/-- The table holds the record, and nothing else. -/
def Holds (f : HostFile) (path : Bytes) (db : Db) (r : Option FileData) : Prop :=
  ∃ row : Option FileRow, db.files = row.toList ∧ row.map FileRow.fileData = r ∧
    ∀ q, row = some q → RowOf f path q

/-- The buffer of a notice is about the file. -/
structure AboutHost (f : HostFile) (buf : StatBuf) : Prop where
  dev : buf.dev = f.dev
  ino : buf.ino = f.ino
  kind : SameKind buf.mode f.type

theorem about_of_row {f : HostFile} {path : Bytes} {env : ClientEnv} {op : Op} {buf : StatBuf}
    {req : Request} {q : FileRow} (hh : NoticeHeader env op buf req.hdr)
    (hpath : req.path = serverPath path) (hbuf : AboutHost f buf) (h : RowOf f path q) :
    About req q := by
  refine ⟨h.path.trans hpath.symm, ?_, ?_, ?_⟩
  · rw [h.key, hh.key, hbuf.dev, hbuf.ino]
  · rw [hh.mode, sIsdir, columnInt64_type]
    exact h.kind.1.trans hbuf.kind.1.symm
  · rw [hh.mode, sIslnk, columnInt64_type]
    exact h.kind.2.trans hbuf.kind.2.symm

/-- The row that is inserted for a notice. -/
theorem rowOf_linkRow {f : HostFile} {path : Bytes} {env : ClientEnv} {op : Op} {buf : StatBuf}
    {h : MsgHeader} (hh : NoticeHeader env op buf h) (hbuf : AboutHost f buf) :
    RowOf f path (linkRow h (serverPath path)) := by
  refine ⟨by simp [linkRow, hh.pathlen], ?_, ?_⟩
  · rw [linkRow_key, hh.key, hbuf.dev, hbuf.ino]
  · simp only [linkRow, hh.mode, bindInt_setWidth]
    exact hbuf.kind

theorem fileData_linkRow {path : Bytes} {env : ClientEnv} {op : Op} {buf : StatBuf}
    {h : MsgHeader} (hh : NoticeHeader env op buf h) :
    (linkRow h path).fileData = FileData.stored
      { uid := if op.usesMagicIds then env.fuid else buf.uid
        gid := if op.usesMagicIds then env.fgid else buf.gid
        mode := buf.mode, rdev := buf.rdev } := by
  simp [linkRow, FileRow.fileData, FileData.stored, hh.uid, hh.gid, hh.mode, hh.rdev]

theorem holds_singleton {f : HostFile} {path : Bytes} {db : Db} {q : FileRow}
    (h : db.files = [q]) (hq : RowOf f path q) : Holds f path db (some q.fileData) := by
  refine ⟨some q, h, rfl, fun q' hq' => ?_⟩
  obtain rfl := Option.some.inj hq'
  exact hq

/-- A file without a row gets the one of the notice. -/
theorem holds_recorded {f : HostFile} {path : Bytes} {env : ClientEnv} {op : Op} {buf : StatBuf}
    {h : MsgHeader} {db : Db} (hfiles : db.files = [linkRow h (serverPath path)])
    (hh : NoticeHeader env op buf h) (hbuf : AboutHost f buf) :
    Holds f path db (some (FileData.stored
      { uid := if op.usesMagicIds then env.fuid else buf.uid
        gid := if op.usesMagicIds then env.fgid else buf.gid
        mode := buf.mode, rdev := buf.rdev })) := by
  rw [← @fileData_linkRow (serverPath path) _ _ _ _ hh]
  exact holds_singleton hfiles (rowOf_linkRow hh hbuf)

/-- The merged mode in the column. -/
theorem bindInt_mergeMode (mode row : BitVec 32) :
    bindInt (mergeMode (mode.setWidth 64) (columnInt64 row)) = withPermissions row mode := by
  rw [bindInt_merged, bindInt_setWidth, withPermissions]

theorem fileData_of_hasRow {h : MsgHeader} {q : FileRow} (hh : HasRow h q) :
    h.fileData = q.fileData := by
  have hmode : (columnInt64 q.mode).setWidth 32 = q.mode := bindInt_columnInt64 q.mode
  rw [MsgHeader.fileData, FileRow.fileData, hh.uid, hh.gid, hh.mode, hh.rdev, hmode]

theorem answered_found {msg : MsgHeader} (h : msg.result = .succeed) :
    answered (some msg) = some msg.fileData := by
  simp [answered, Option.filter, h]

theorem answered_fail {msg : MsgHeader} (h : msg.result = .fail) : answered (some msg) = none := by
  simp [answered, Option.filter, h]

/-- The server's `OP_STAT` with its special case. -/
theorem handleXattrdb_stat (sq : Sqlite) {db : Db} {req : Request} {row : Option FileRow}
    (hproper : req.Proper) (hmsg : req.msg = req.hdr) (hlen : req.hdr.pathlen ≠ 0)
    (hdb : db.files = row.toList) (hrow : ∀ q, row = some q → About req q)
    (hop : req.hdr.op = .stat) (hresult : req.hdr.result = .succeed) :
    (handleXattrdb sq db req).db.files = db.files ∧
      (handleXattrdb sq db req).msg.result ≠ .abort ∧
      answered (some (handleXattrdb sq db req).msg) =
        (row.map FileRow.fileData).filter fun m => ¬ m.Placeholder := by
  have habout : req.hdr.op.aboutFile = true := by
    rw [hop]
    rfl
  have hlive := aboutFile_live sq hproper hmsg hlen hdb hrow habout
  have hhandle : handleXattrdb sq db req =
      (opStatXattrdb req (checked sq db req)).run req.path := by
    unfold handleXattrdb markUnlinked
    simp [hop, hlive]
  rw [hhandle, run_files, run_msg]
  cases row with
  | none =>
    have hm := OneFileLemmas.missing sq hproper hmsg hdb
    have hact : opStatXattrdb req (checked sq db req) =
        { db := (checked sq db req).db
          msg := { (checked sq db req).lk.msg with result := .fail } } := by
      simp [opStatXattrdb, opStat, hm.foundPath, hm.foundIno]
    rw [hact, hm.db]
    exact ⟨by simp, by simp, rfl⟩
  | some q =>
    have hf := OneFileLemmas.found sq hmsg habout hlen hdb (hrow q rfl)
    obtain ⟨hhas, hsucceed⟩ := hf.byPath
    have hheader : dbHeader (checked sq db req) req.hdr.op = (checked sq db req).lk.byPath := by
      simp [dbHeader, hf.foundPath, hop]
    have hdata := fileData_of_hasRow hhas
    unfold opStatXattrdb
    dsimp only
    rw [hheader]
    have hplaceholder : ((checked sq db req).lk.byPath.uid = -1 ∧
        (checked sq db req).lk.byPath.gid = -1) ↔ q.fileData.Placeholder := by
      rw [hhas.uid, hhas.gid]
      rfl
    rcases Decidable.em q.fileData.Placeholder with hno | hyes
    · rw [if_pos ⟨Or.inr hf.foundPath, hplaceholder.mpr hno⟩, hf.db]
      refine ⟨by simp, by simp, ?_⟩
      rw [answered_fail rfl, Option.map_some, Option.filter_some_neg (by simp [hno])]
    · rw [if_neg (fun h => hyes (hplaceholder.mp h.2)), opStat, if_pos (Or.inr hf.foundPath),
        hheader, hf.db]
      have hok : (checked sq db req).lk.byPath.result = .succeed := hsucceed.trans hresult
      refine ⟨by simp, fun habort => ?_, ?_⟩
      · rw [hok] at habort
        cases habort
      · rw [answered_found hok, hdata, Option.map_some, Option.filter_some_pos (by simp [hyes])]

section Database
variable (sq : Sqlite) {env : ClientEnv} (leftover : Bytes) (t : FdTables) {f : HostFile}
  {path : Bytes} {db : Db} {r : Option FileData} (buf : StatBuf)
  (hlocal : env.localOnly = false) (hknown : pseudoClientIgnorePath env (some path) = false)
  (hpath : IsCString path) (hdb : Holds f path db r) (hbuf : AboutHost f buf)
include hlocal hknown hpath hdb hbuf

/-- A notice that is not `OP_STAT` goes through `pseudo_op` as it is. -/
theorem database_handle (op : Op) (hop : op.aboutFile = true) (hstat : op ≠ .stat) :
    ∃ (req : Request) (row : Option FileRow) (msg : MsgHeader),
      databaseOp sq env leftover t db (noticeCall op path buf) =
        some ((handle sq db req).db, some msg) ∧
      req.Proper ∧ req.msg = req.hdr ∧ NoticeHeader env op buf req.hdr ∧
      req.path = serverPath path ∧ db.files = row.toList ∧ row.map FileRow.fileData = r ∧
      (∀ q, row = some q → RowOf f path q) ∧ ∀ q, row = some q → About req q := by
  obtain ⟨row, hfiles, hr, hrow⟩ := hdb
  obtain ⟨hmsg, hh, hp⟩ := notice_request env leftover op buf hop hpath
  have hproper := request_proper (noticeMsg env leftover op path buf)
  have habout := fun q hq => about_of_row hh hp hbuf (hrow q hq)
  have hop' := hh.op
  have hhandle : pseudoOpXattrdb sq db (noticeMsg env leftover op path buf) =
      pseudoOp sq db (noticeMsg env leftover op path buf) := by
    unfold pseudoOpXattrdb handleXattrdb
    rw [hh.op, if_neg]
    · rfl
    · rintro ⟨h | h, -⟩
      · exact hstat h
      · rw [h] at hop
        exact absurd hop (by decide)
  have hlive :
      (pseudoOpXattrdb sq db (noticeMsg env leftover op path buf)).msg.result ≠ .abort := by
    rw [hhandle, result_live_iff]
    exact aboutFile_live sq hproper hmsg hh.pathlen hfiles habout (by rw [hop']; exact hop)
  have hsent := databaseOp_eq t hop hknown hlocal hlive
  rw [hhandle] at hsent
  exact ⟨_, row, _, hsent, hproper, hmsg, hh, hp, hfiles, hr, hrow, habout⟩

theorem database_mknod : ∃ db' msg,
    databaseOp sq env leftover t db (noticeCall .mknod path buf) = some (db', some msg) ∧
      Holds f path db' (some (FileData.stored ⟨env.fuid, env.fgid, buf.mode, buf.rdev⟩)) := by
  obtain ⟨req, row, msg, hsent, hproper, hmsg, hh, hp, hfiles, _, _, habout⟩ :=
    database_handle sq leftover t buf hlocal hknown hpath hdb hbuf .mknod rfl (by decide)
  have hafter := handle_mknod sq hproper hmsg hh.pathlen hfiles habout hh.op
  rw [hp] at hafter
  exact ⟨_, _, hsent, holds_recorded hafter hh hbuf⟩

theorem database_creat : ∃ db' msg,
    databaseOp sq env leftover t db (noticeCall .creat path buf) = some (db', some msg) ∧
      Holds f path db'
        (some (r.getD (FileData.stored ⟨env.fuid, env.fgid, buf.mode, buf.rdev⟩))) := by
  obtain ⟨req, row, msg, hsent, hproper, hmsg, hh, hp, hfiles, hr, hrow, habout⟩ :=
    database_handle sq leftover t buf hlocal hknown hpath hdb hbuf .creat rfl (by decide)
  have hafter := handle_creat sq hproper hmsg hh.pathlen hfiles habout hh.op
  rw [hp] at hafter
  refine ⟨_, _, hsent, ?_⟩
  cases row with
  | none =>
    rw [← hr]
    exact holds_recorded hafter hh hbuf
  | some q =>
    rw [← hr]
    exact holds_singleton hafter (hrow q rfl)

theorem database_chmod : ∃ db' msg,
    databaseOp sq env leftover t db (noticeCall .chmod path buf) = some (db', some msg) ∧
      Holds f path db' (some ((r.map fun m =>
        { m with mode := withPermissions m.mode buf.mode }).getD
          (FileData.stored ⟨env.fuid, env.fgid, buf.mode, buf.rdev⟩))) := by
  obtain ⟨req, row, msg, hsent, hproper, hmsg, hh, hp, hfiles, hr, hrow, habout⟩ :=
    database_handle sq leftover t buf hlocal hknown hpath hdb hbuf .chmod rfl (by decide)
  have hafter := handle_chmod sq hproper hmsg hh.pathlen hfiles habout hh.op
  rw [hp] at hafter
  refine ⟨_, _, hsent, ?_⟩
  cases row with
  | none =>
    rw [← hr]
    exact holds_recorded hafter hh hbuf
  | some q =>
    have hmode : bindInt (mergeMode req.hdr.mode (columnInt64 q.mode)) =
        withPermissions q.mode buf.mode := by
      rw [hh.mode, bindInt_mergeMode]
    have hq := hrow q rfl
    have hkind : SameKind (withPermissions q.mode buf.mode) f.type :=
      (sameKind_of_type (mask_replace (by decide))).trans hq.kind
    rw [Option.map_some, Option.getD_some, hmode] at hafter
    rw [← hr]
    exact holds_singleton hafter ⟨hq.path, hq.key, hkind⟩

theorem database_chown : ∃ db' msg,
    databaseOp sq env leftover t db (noticeCall .chown path buf) = some (db', some msg) ∧
      Holds f path db' (some ((r.map fun m => { m with uid := buf.uid, gid := buf.gid }).getD
        (FileData.stored ⟨buf.uid, buf.gid, buf.mode, buf.rdev⟩))) := by
  obtain ⟨req, row, msg, hsent, hproper, hmsg, hh, hp, hfiles, hr, hrow, habout⟩ :=
    database_handle sq leftover t buf hlocal hknown hpath hdb hbuf .chown rfl (by decide)
  have hafter := handle_chown sq hproper hmsg hh.pathlen hfiles habout hh.op
  rw [hp] at hafter
  refine ⟨_, _, hsent, ?_⟩
  cases row with
  | none =>
    rw [← hr]
    exact holds_recorded hafter hh hbuf
  | some q =>
    have huid : req.hdr.uid = buf.uid := hh.uid
    have hgid : req.hdr.gid = buf.gid := hh.gid
    have hq := hrow q rfl
    rw [← hr]
    exact huid ▸ hgid ▸ holds_singleton hafter ⟨hq.path, hq.key, hq.kind⟩

theorem database_stat : ∃ db' msg,
    databaseOp sq env leftover t db (noticeCall .stat path buf) = some (db', some msg) ∧
      Holds f path db' r ∧ answered (some msg) = r.filter fun m => ¬ m.Placeholder := by
  obtain ⟨row, hfiles, hr, hrow⟩ := hdb
  obtain ⟨hmsg, hh, hp⟩ := notice_request env leftover .stat buf rfl hpath
  have hproper := request_proper (noticeMsg env leftover .stat path buf)
  have habout := fun q hq => about_of_row hh hp hbuf (hrow q hq)
  have hspec := handleXattrdb_stat sq hproper hmsg hh.pathlen hfiles habout hh.op hh.result
  obtain ⟨hsame, hlive, hanswer⟩ := hspec
  refine ⟨_, _, databaseOp_eq t rfl hknown hlocal hlive, ⟨row, hsame.trans hfiles, hr, hrow⟩, ?_⟩
  rw [← hr]
  exact hanswer

end Database

/-! ## The record in the attribute -/

/-- The host is asked for the attribute. -/
def Loads (buf : StatBuf) : Prop :=
  sIsdir (buf.mode.setWidth 64) = true ∨ sIsreg (buf.mode.setWidth 64) = true

section Attribute
variable {env : ClientEnv} {x : XattrDb} {path : Bytes} {buf : StatBuf} {fd : Int}

theorem save_spec (fd : Int) (path : Bytes) (buf : StatBuf) (hacc : x.accepts = true) : ∃ x' msg,
    pseudoXattrdbSave x fd (some path) buf = (x', some msg) ∧ x'.accepts = true ∧
      x'.record = some buf.fileData := by
  unfold pseudoXattrdbSave
  rw [if_neg (by simp), if_pos hacc]
  exact ⟨_, _, rfl, hacc, rfl⟩

theorem load_spec (fd : Int) (path : Bytes) (hacc : x.accepts = true) (hbuf : Loads buf) :
    ∃ x' msg, pseudoXattrdbLoad x fd (some path) buf = (x', some msg) ∧ x'.accepts = true ∧
      x'.record = x.record ∧ answered (some msg) = x.record := by
  unfold pseudoXattrdbLoad
  rw [if_neg (by simp), if_neg (by rintro ⟨hdir, hreg⟩; exact hbuf.elim hdir hreg)]
  unfold XattrDb.record
  cases x.stored with
  | none =>
    dsimp only
    rw [if_pos hacc]
    exact ⟨_, _, rfl, hacc, rfl, rfl⟩
  | some d =>
    refine ⟨_, _, rfl, hacc, rfl, ?_⟩
    split
    · rename_i hversion
      rw [answered_found rfl, Option.filter_some_pos (by simpa using hversion)]
      simp [MsgHeader.fileData, PseudoDbData.fileData]
    · rename_i hversion
      rw [answered_fail rfl, Option.filter_some_neg (by simpa using hversion)]
      rfl

theorem load_other (hbuf : ¬ Loads buf) : pseudoXattrdbLoad x fd (some path) buf = (x, none) := by
  unfold pseudoXattrdbLoad
  rw [if_neg (by simp), if_pos]
  exact not_or.mp hbuf

theorem mergeExisting_chmod {loaded : Option MsgHeader} :
    (mergeExisting env .chmod buf loaded).fileData = (answered loaded).elim
      ⟨env.fuid, env.fgid, buf.mode, buf.rdev⟩ fun m => ⟨m.uid, m.gid, buf.mode, buf.rdev⟩ := by
  unfold mergeExisting answered
  cases loaded.filter fun result => result.result = .succeed <;> rfl

theorem mergeExisting_chown {loaded : Option MsgHeader} :
    (mergeExisting env .chown buf loaded).fileData = (answered loaded).elim
      buf.fileData fun m => ⟨buf.uid, buf.gid, m.mode, m.rdev⟩ := by
  unfold mergeExisting answered
  cases loaded.filter fun result => result.result = .succeed <;> rfl

/-- The server is not asked when the attribute answers. -/
theorem xattrdbOp_instead {sq : Sqlite} {leftover : Bytes} {t : FdTables} {db : Db} {op : Op}
    {x' : XattrDb} {msg : MsgHeader}
    (hknown : pseudoClientIgnorePath env (some path) = false)
    (h : xattrInstead env x op (-1) (some path) buf = (x', some msg)) :
    xattrdbOp sq env leftover t (x, db) (noticeCall op path buf) = some ((x', db), some msg) := by
  have hpath : callPath t (noticeCall op path buf) = some path := rfl
  unfold xattrdbOp
  dsimp only
  rw [hpath, hknown]
  have hcall : (noticeCall op path buf).buf = some buf := rfl
  rw [hcall]
  dsimp only
  rw [if_neg (by simp)]
  have hop : xattrInstead env x (noticeCall op path buf).op (noticeCall op path buf).fd
      (some path) buf = (x', some msg) := h
  rw [hop]

variable (sq : Sqlite) (leftover : Bytes) (t : FdTables) (db : Db) (buf : StatBuf)
  (hknown : pseudoClientIgnorePath env (some path) = false) (hacc : x.accepts = true)
include hknown hacc

theorem attribute_create {op : Op} (hop : op = .mknod ∨ op = .creat) : ∃ x' msg,
    xattrdbOp sq env leftover t (x, db) (noticeCall op path buf) = some ((x', db), some msg) ∧
      x'.accepts = true ∧ x'.record = some ⟨env.fuid, env.fgid, buf.mode, buf.rdev⟩ := by
  obtain ⟨x', msg, hsave, hacc', hrecord⟩ := save_spec (-1) path
    { buf with uid := env.fuid, gid := env.fgid } hacc
  refine ⟨x', msg, xattrdbOp_instead hknown ?_, hacc', hrecord⟩
  rcases hop with rfl | rfl <;> exact hsave

theorem attribute_chmod (hbuf : Loads buf) : ∃ x' msg,
    xattrdbOp sq env leftover t (x, db) (noticeCall .chmod path buf) = some ((x', db), some msg) ∧
      x'.accepts = true ∧ x'.record = some (x.record.elim
        ⟨env.fuid, env.fgid, buf.mode, buf.rdev⟩ fun m => ⟨m.uid, m.gid, buf.mode, buf.rdev⟩) := by
  obtain ⟨x₁, loaded, hload, hacc₁, hsame, hloaded⟩ := load_spec (-1) path hacc hbuf
  obtain ⟨x', msg, hsave, hacc', hrecord⟩ := save_spec (-1) path
    (mergeExisting env .chmod buf (some loaded)) hacc₁
  refine ⟨x', msg, xattrdbOp_instead hknown ?_, hacc', ?_⟩
  · rw [xattrInstead, hload]
    exact hsave
  · rw [hrecord, mergeExisting_chmod, hloaded]

theorem attribute_chown (hbuf : Loads buf) : ∃ x' msg,
    xattrdbOp sq env leftover t (x, db) (noticeCall .chown path buf) = some ((x', db), some msg) ∧
      x'.accepts = true ∧ x'.record = some (x.record.elim buf.fileData
        fun m => ⟨buf.uid, buf.gid, m.mode, m.rdev⟩) := by
  obtain ⟨x₁, loaded, hload, hacc₁, hsame, hloaded⟩ := load_spec (-1) path hacc hbuf
  obtain ⟨x', msg, hsave, hacc', hrecord⟩ := save_spec (-1) path
    (mergeExisting env .chown buf (some loaded)) hacc₁
  refine ⟨x', msg, xattrdbOp_instead hknown ?_, hacc', ?_⟩
  · rw [xattrInstead, hload]
    exact hsave
  · rw [hrecord, mergeExisting_chown, hloaded]

/-- The merge is left out when the buffer has the type of a device by now. -/
theorem attribute_chown_device (hbuf : ¬ Loads buf) : ∃ x' msg,
    xattrdbOp sq env leftover t (x, db) (noticeCall .chown path buf) = some ((x', db), some msg) ∧
      x'.accepts = true ∧ x'.record = some buf.fileData := by
  obtain ⟨x', msg, hsave, hacc', hrecord⟩ := save_spec (-1) path
    (mergeExisting env .chown buf none) hacc
  refine ⟨x', msg, xattrdbOp_instead hknown ?_, hacc', ?_⟩
  · rw [xattrInstead, load_other hbuf]
    exact hsave
  · rw [hrecord, mergeExisting_chown]
    rfl

theorem attribute_stat (hbuf : Loads buf) : ∃ x' msg,
    xattrdbOp sq env leftover t (x, db) (noticeCall .stat path buf) = some ((x', db), some msg) ∧
      x'.accepts = true ∧ x'.record = x.record ∧ answered (some msg) = x.record := by
  obtain ⟨x', loaded, hload, hacc', hsame, hloaded⟩ := load_spec (-1) path hacc hbuf
  exact ⟨x', loaded, xattrdbOp_instead hknown hload, hacc', hsame, hloaded⟩

end Attribute

/-! ## The notices -/

section Notices
variable {f : HostFile} {buf : StatBuf}

theorem type_of_host (h : OfHost f buf) : buf.mode &&& 0o170000 = f.type &&& 0o170000 := by
  rw [← h.type, BitVec.and_assoc]
  rfl

theorem loads_of_type (h : buf.mode &&& 0o170000 = f.type &&& 0o170000) : Loads buf := by
  unfold Loads sIsdir sIsreg
  rw [setWidth_type, h]
  rcases f.regOrDir with hf | hf
  · rw [hf]
    exact Or.inr (by decide)
  · rw [hf]
    exact Or.inl (by decide)

/-- A device node is neither a directory nor a link, and nor is the file that it stands in. -/
theorem sameKind_of_device {mode : BitVec 32} (h : isDevice mode = true) (hf : f.type = 0o100000) :
    SameKind mode f.type := by
  unfold SameKind sIsdir sIslnk
  rw [setWidth_type, setWidth_type, hf]
  unfold isDevice at h
  rw [Bool.or_eq_true, beq_iff_eq, beq_iff_eq] at h
  rcases h with h | h
  · rw [h]
    decide
  · rw [h]
    decide

/-- The mode of the node has the type that was asked for. -/
theorem mknod_type (perm mode : BitVec 32) :
    ((perm &&& 0o7777) ||| (mode &&& ~~~ 0o7777)) &&& 0o170000 = mode &&& 0o170000 := by
  rw [BitVec.or_comm]
  exact mask_replace (by decide)

theorem holds_kind {path : Bytes} {db : Db} {m : FileData} (h : Holds f path db (some m)) :
    SameKind m.mode f.type := by
  obtain ⟨row, _, hr, hrow⟩ := h
  cases row with
  | none => cases hr
  | some q =>
    obtain rfl := Option.some.inj hr
    exact (hrow q rfl).kind

end Notices

section Chown
variable {σ : Type} {clientOp : ClientOp σ} {s s₁ : σ} {path : Bytes} {buf : StatBuf}
  {owner group : BitVec 32}

/-- The buffer with the values of a record. -/
def withData (buf : StatBuf) (m : FileData) : StatBuf :=
  { buf with uid := m.uid, gid := m.gid, mode := m.mode, rdev := m.rdev }

theorem wrapFchownat_both (h : ¬ (owner = -1 ∨ group = -1)) :
    wrapFchownat clientOp s path buf owner group =
      (clientOp s (noticeCall .chown path (buf.override owner group))).map (·.1) := by
  unfold wrapFchownat
  rw [if_neg h]

theorem wrapFchownat_one {msg : MsgHeader} (h : owner = -1 ∨ group = -1)
    (hstat : clientOp s (noticeCall .stat path buf) = some (s₁, some msg)) :
    wrapFchownat clientOp s path buf owner group =
      (clientOp s₁ (noticeCall .chown path
        (((answered (some msg)).elim buf (withData buf)).override owner group))).map (·.1) := by
  unfold wrapFchownat
  rw [if_pos h, hstat, Option.bind_some]
  unfold answered
  dsimp only
  cases (some msg).filter fun msg => msg.result = .succeed <;> rfl

end Chown

section Database
variable (sq : Sqlite) {env : ClientEnv} (leftover : Bytes) (t : FdTables) {f : HostFile}
  {path : Bytes} {db : Db} {r : Option FileData}
  (hlocal : env.localOnly = false) (hknown : pseudoClientIgnorePath env (some path) = false)
  (hpath : IsCString path) (hdb : Holds f path db r) (hr : ∀ m, r = some m → ¬ m.Placeholder)
include hlocal hknown hpath hdb hr

/-- `wrap_fchownat` over the database. -/
theorem database_chown_notice {buf : StatBuf} (host : OfHost f buf) (owner group : BitVec 32) :
    ∃ db', wrapFchownat (databaseOp sq env leftover t) db path buf owner group = some db' ∧
      Holds f path db' (some ((Notice.chown buf host owner group).inDatabase env r)) := by
  have habout : AboutHost f buf := ⟨host.dev, host.ino, sameKind_of_type (type_of_host host)⟩
  rcases Decidable.em (owner = -1 ∨ group = -1) with hone | hboth
  · obtain ⟨db₁, msg, hstat, hholds, hanswer⟩ :=
      database_stat sq leftover t buf hlocal hknown hpath hdb habout
    rw [wrapFchownat_one hone hstat, hanswer]
    cases r with
    | none =>
      obtain ⟨db', msg', hchown, hafter⟩ := database_chown sq leftover t
        (buf.override owner group) hlocal hknown hpath hholds ⟨habout.dev, habout.ino, habout.kind⟩
      exact ⟨db', by rw [Option.filter_none, Option.elim_none, hchown]; rfl, hafter⟩
    | some m =>
      obtain ⟨db', msg', hchown, hafter⟩ := database_chown sq leftover t
        ((withData buf m).override owner group) hlocal hknown hpath hholds
        ⟨habout.dev, habout.ino, holds_kind hholds⟩
      refine ⟨db', ?_, hafter⟩
      rw [Option.filter_some_pos (by simpa using hr m rfl), Option.elim_some, hchown]
      rfl
  · obtain ⟨db', msg', hchown, hafter⟩ := database_chown sq leftover t
      (buf.override owner group) hlocal hknown hpath hdb ⟨habout.dev, habout.ino, habout.kind⟩
    rw [wrapFchownat_both hboth, hchown]
    refine ⟨db', rfl, ?_⟩
    rw [not_or] at hboth
    cases r with
    | none => exact hafter
    | some m =>
      have hdata : ({ m with uid := (buf.override owner group).uid
                             gid := (buf.override owner group).gid } : FileData) =
          (Notice.chown buf host owner group).inDatabase env (some m) := by
        simp only [StatBuf.override, Notice.inDatabase, if_neg hboth.1, if_neg hboth.2]
      exact hdata ▸ hafter

/-- What a notice makes of the record in the database. -/
theorem database_notice (n : Notice f) : ∃ db',
    n.send (databaseOp sq env leftover t) path db = some db' ∧
      Holds f path db' (some (n.inDatabase env r)) := by
  cases n with
  | mknod buf host umask mode dev regular device =>
    obtain ⟨db', msg, hsent, hafter⟩ := database_mknod sq leftover t
      { buf with mode := (pseudoDbMode buf.mode (mknodMode umask mode) &&& 0o7777) |||
          (mknodMode umask mode &&& ~~~ 0o7777), rdev := dev } hlocal hknown hpath hdb
      ⟨host.dev, host.ino,
        (sameKind_of_type (mknod_type _ _)).trans (sameKind_of_device device regular)⟩
    refine ⟨db', ?_, ?_⟩
    · show (databaseOp sq env leftover t db _).map _ = _
      rw [hsent]
      rfl
    · cases r <;> exact hafter
  | creat buf host umask mode =>
    obtain ⟨db', msg, hsent, hafter⟩ := database_creat sq leftover t
      { buf with mode := pseudoDbMode buf.mode (mode &&& ~~~ umask) } hlocal hknown hpath hdb
      ⟨host.dev, host.ino,
        sameKind_of_type ((mask_replace (by decide)).trans (type_of_host host))⟩
    refine ⟨db', ?_, ?_⟩
    · show (databaseOp sq env leftover t db _).map _ = _
      rw [hsent]
      rfl
    · cases r <;> exact hafter
  | chmod buf host mode =>
    obtain ⟨db', msg, hsent, hafter⟩ := database_chmod sq leftover t
      { buf with mode := withPermissions buf.mode mode } hlocal hknown hpath hdb
      ⟨host.dev, host.ino,
        sameKind_of_type ((mask_replace (by decide)).trans (type_of_host host))⟩
    refine ⟨db', ?_, ?_⟩
    · show (databaseOp sq env leftover t db _).map _ = _
      rw [hsent]
      rfl
    · cases r with
      | none => exact hafter
      | some m =>
        have hmode : withPermissions m.mode (withPermissions buf.mode mode) =
            withPermissions m.mode mode := by
          unfold withPermissions
          rw [mask_replaced]
        rw [Option.map_some, Option.getD_some, hmode] at hafter
        exact hafter
  | chown buf host owner group =>
    exact database_chown_notice sq leftover t hlocal hknown hpath hdb hr host owner group

end Database

section Attribute
variable (sq : Sqlite) {env : ClientEnv} (leftover : Bytes) (t : FdTables) {f : HostFile}
  {path : Bytes} {x : XattrDb} (server : Db)
  (hknown : pseudoClientIgnorePath env (some path) = false) (hacc : x.accepts = true)
include hknown hacc

/-- `wrap_fchownat` over the attribute. -/
theorem attribute_chown_notice {buf : StatBuf} (host : OfHost f buf) (owner group : BitVec 32) :
    ∃ x', wrapFchownat (xattrdbOp sq env leftover t) (x, server) path buf owner group =
        some (x', server) ∧ x'.accepts = true ∧
      x'.record = some ((Notice.chown buf host owner group).inAttribute env x.record) := by
  have hloads : Loads buf := loads_of_type (type_of_host host)
  rcases Decidable.em (owner = -1 ∨ group = -1) with hone | hboth
  · obtain ⟨x₁, msg, hstat, hacc₁, hsame, hanswer⟩ :=
      attribute_stat sq leftover t server buf hknown hacc hloads
    rw [wrapFchownat_one hone hstat, hanswer]
    cases hrec : x.record with
    | none =>
      obtain ⟨x', msg', hchown, hacc', hafter⟩ := attribute_chown sq leftover t server
        (buf.override owner group) hknown hacc₁ hloads
      rw [hsame, hrec] at hafter
      exact ⟨x', by rw [Option.elim_none, hchown]; rfl, hacc', hafter⟩
    | some m =>
      rw [Option.elim_some]
      rcases Classical.em (Loads ((withData buf m).override owner group)) with hl | hl
      · obtain ⟨x', msg', hchown, hacc', hafter⟩ := attribute_chown sq leftover t server
          ((withData buf m).override owner group) hknown hacc₁ hl
        rw [hsame, hrec] at hafter
        exact ⟨x', by rw [hchown]; rfl, hacc', hafter⟩
      · obtain ⟨x', msg', hchown, hacc', hafter⟩ := attribute_chown_device sq leftover t server
          ((withData buf m).override owner group) hknown hacc₁ hl
        exact ⟨x', by rw [hchown]; rfl, hacc', hafter⟩
  · obtain ⟨x', msg', hchown, hacc', hafter⟩ := attribute_chown sq leftover t server
      (buf.override owner group) hknown hacc hloads
    rw [wrapFchownat_both hboth, hchown]
    refine ⟨x', rfl, hacc', ?_⟩
    rw [hafter]
    rw [not_or] at hboth
    cases x.record with
    | none => rfl
    | some m =>
      simp only [Option.elim_some, StatBuf.override, Notice.inAttribute, if_neg hboth.1,
        if_neg hboth.2]

/-- What a notice makes of the record in the attribute. -/
theorem attribute_notice (n : Notice f) : ∃ x',
    n.send (xattrdbOp sq env leftover t) path (x, server) = some (x', server) ∧
      x'.accepts = true ∧ x'.record = some (n.inAttribute env x.record) := by
  cases n with
  | mknod buf host umask mode dev regular device =>
    obtain ⟨x', msg, hsent, hacc', hafter⟩ := attribute_create sq leftover t server
      { buf with mode := (pseudoDbMode buf.mode (mknodMode umask mode) &&& 0o7777) |||
          (mknodMode umask mode &&& ~~~ 0o7777), rdev := dev } hknown hacc (Or.inl rfl)
    refine ⟨x', ?_, hacc', ?_⟩
    · show (xattrdbOp sq env leftover t (x, server) _).map _ = _
      rw [hsent]
      rfl
    · rw [hafter]
      cases x.record <;> rfl
  | creat buf host umask mode =>
    obtain ⟨x', msg, hsent, hacc', hafter⟩ := attribute_create sq leftover t server
      { buf with mode := pseudoDbMode buf.mode (mode &&& ~~~ umask) } hknown hacc (Or.inr rfl)
    refine ⟨x', ?_, hacc', ?_⟩
    · show (xattrdbOp sq env leftover t (x, server) _).map _ = _
      rw [hsent]
      rfl
    · rw [hafter]
      cases x.record <;> rfl
  | chmod buf host mode =>
    obtain ⟨x', msg, hsent, hacc', hafter⟩ := attribute_chmod sq leftover t server
      { buf with mode := withPermissions buf.mode mode } hknown hacc
      (loads_of_type ((mask_replace (by decide)).trans (type_of_host host)))
    refine ⟨x', ?_, hacc', ?_⟩
    · show (xattrdbOp sq env leftover t (x, server) _).map _ = _
      rw [hsent]
      rfl
    · rw [hafter]
      cases x.record <;> rfl
  | chown buf host owner group =>
    exact attribute_chown_notice sq leftover t server hknown hacc host owner group

end Attribute

/-- Nothing happens for a path that is ignored. -/
theorem send_nothing {σ : Type} {clientOp : ClientOp σ} {s : σ} {f : HostFile} {path : Bytes}
    (h : ∀ op buf, op.aboutFile = true → clientOp s (noticeCall op path buf) = some (s, none))
    (n : Notice f) : n.send clientOp path s = some s := by
  cases n with
  | mknod buf host umask mode dev regular device =>
    show (clientOp s _).map _ = _
    rw [h .mknod _ rfl]
    rfl
  | creat buf host umask mode =>
    show (clientOp s _).map _ = _
    rw [h .creat _ rfl]
    rfl
  | chmod buf host mode =>
    show (clientOp s _).map _ = _
    rw [h .chmod _ rfl]
    rfl
  | chown buf host owner group =>
    show wrapFchownat clientOp s path buf owner group = _
    unfold wrapFchownat
    dsimp only
    rw [h .chown _ rfl, h .stat _ rfl]
    split <;> simp [h .chown _ rfl]

theorem xattrdbOp_ignored {sq : Sqlite} {env : ClientEnv} {leftover : Bytes} {t : FdTables}
    {s : XattrDb × Db} {op : Op} {path : Bytes} {buf : StatBuf} (hop : op.aboutFile = true)
    (hignored : pseudoClientIgnorePath env (some path) = true) :
    xattrdbOp sq env leftover t s (noticeCall op path buf) = some (s, none) := by
  have hpath : callPath t (noticeCall op path buf) = some path := rfl
  have hcall : (noticeCall op path buf).buf = some buf := rfl
  have hnever : (noticeCall op path buf).op.neverIgnored = false := by
    show op.neverIgnored = false
    cases op <;> simp_all [Op.aboutFile, Op.neverIgnored]
  unfold xattrdbOp
  dsimp only
  rw [hpath, hcall, hnever, hignored, databaseOp_ignored hop hignored]
  rfl

end TwoStoresLemmas

open TwoStoresLemmas

/-! ## Runs -/

/-- The two stores; a store is gone with its client. -/
structure Stores where
  database : Option Db
  xattr : Option (XattrDb × Db)

/-- The record in the attribute. -/
def Stores.record (s : Stores) : Option FileData := s.xattr.bind fun x => x.1.record

section Runs
variable (sq : Sqlite) (env : ClientEnv) (leftover : Bytes) (t : FdTables) (f : HostFile)
  (path : Bytes)

/-- A notice to both stores. -/
def notify (s : Stores) (n : Notice f) : Stores :=
  { database := s.database.bind (n.send (databaseOp sq env leftover t) path)
    xattr := s.xattr.bind (n.send (xattrdbOp sq env leftover t) path) }

/-- Both clients are there, and `OP_STAT` yields the same in both stores. -/
def StoresAgree (s : Stores) : Prop :=
  ∃ db x, s.database = some db ∧ s.xattr = some x ∧ ∀ buf, OfHost f buf →
    yields (xattrdbOp sq env leftover t) path x buf =
      yields (databaseOp sq env leftover t) path db buf

/-- The stores hold a record each, or none. -/
structure Recorded (s : Stores) (db : Db) (x : XattrDb) (server : Db) (r : Option FileData) :
    Prop where
  database : s.database = some db
  xattr : s.xattr = some (x, server)
  holds : Holds f path db r
  accepts : x.accepts = true
  both : x.record = none ↔ r = none

variable {sq env leftover t f path}

/-- The answers agree exactly when the records do and are no placeholders. -/
theorem agree_iff {s : Stores} {db server : Db} {x : XattrDb} {r : Option FileData}
    (hlocal : env.localOnly = false) (hknown : pseudoClientIgnorePath env (some path) = false)
    (hpath : IsCString path) (h : Recorded f path s db x server r) :
    StoresAgree sq env leftover t f path s ↔ x.record = r.filter fun m => ¬ m.Placeholder := by
  have hyields : ∀ buf, OfHost f buf →
      yields (xattrdbOp sq env leftover t) path (x, server) buf = x.record ∧
      yields (databaseOp sq env leftover t) path db buf = r.filter fun m => ¬ m.Placeholder := by
    intro buf host
    obtain ⟨x', msg, hstat, _, _, hanswer⟩ := attribute_stat sq leftover t server buf hknown
      h.accepts (loads_of_type (type_of_host host))
    obtain ⟨db', msg', hstat', _, hanswer'⟩ := database_stat sq leftover t buf hlocal hknown hpath
      h.holds ⟨host.dev, host.ino, sameKind_of_type (type_of_host host)⟩
    unfold yields
    rw [hstat, hstat']
    exact ⟨hanswer, hanswer'⟩
  constructor
  · rintro ⟨db₁, x₁, hdb₁, hx₁, hagree⟩
    obtain rfl := Option.some.inj (h.database.symm.trans hdb₁)
    obtain rfl := Option.some.inj (h.xattr.symm.trans hx₁)
    -- a buffer that the host may give
    have host : OfHost f ⟨f.dev, f.ino, 0, 0, f.type, f.rdev, 1⟩ := by
      refine ⟨rfl, rfl, ?_, rfl⟩
      show f.type &&& ~~~ 0o7777 = f.type
      rcases f.regOrDir with hf | hf
      · rw [hf]
        decide
      · rw [hf]
        decide
    obtain ⟨hx, hdb⟩ := hyields _ host
    rw [← hx, ← hdb]
    exact hagree _ host
  · intro hrec
    refine ⟨db, (x, server), h.database, h.xattr, fun buf host => ?_⟩
    obtain ⟨hx, hdb⟩ := hyields buf host
    rw [hx, hdb, hrec]

/-- Answers that agree come from the same record. -/
theorem same_of_agree {s : Stores} {db server : Db} {x : XattrDb} {r : Option FileData}
    (h : Recorded f path s db x server r) (hrec : x.record = r.filter fun m => ¬ m.Placeholder) :
    x.record = r ∧ ∀ m, r = some m → ¬ m.Placeholder := by
  cases r with
  | none => exact ⟨hrec, fun m hm => by cases hm⟩
  | some m =>
    rcases Decidable.em m.Placeholder with hp | hp
    · rw [Option.filter_some_neg (by simpa using hp)] at hrec
      exact absurd (h.both.mp hrec) (by simp)
    · rw [Option.filter_some_pos (by simpa using hp)] at hrec
      refine ⟨hrec, fun m' hm => ?_⟩
      obtain rfl := Option.some.inj hm
      exact hp

/-- The step lemma. -/
theorem recorded_notify (sq : Sqlite) (leftover : Bytes) (t : FdTables) {s : Stores}
    {db server : Db} {x : XattrDb} {r : Option FileData}
    (hlocal : env.localOnly = false) (hknown : pseudoClientIgnorePath env (some path) = false)
    (hpath : IsCString path) (h : Recorded f path s db x server r) (hsame : x.record = r)
    (hr : ∀ m, r = some m → ¬ m.Placeholder) (n : Notice f) : ∃ db' x',
    Recorded f path (notify sq env leftover t f path s n) db' x' server
        (some (n.inDatabase env r)) ∧
      x'.record = some (n.inAttribute env r) := by
  obtain ⟨db', hdb, hholds⟩ := database_notice sq leftover t hlocal hknown hpath h.holds hr n
  obtain ⟨x', hx, hacc, hrecord⟩ := attribute_notice sq leftover t server hknown h.accepts n
  rw [hsame] at hrecord
  refine ⟨db', x', ⟨?_, ?_, hholds, hacc, ?_⟩, hrecord⟩
  · show s.database.bind _ = _
    rw [h.database]
    exact hdb
  · show s.xattr.bind _ = _
    rw [h.xattr]
    exact hx
  · rw [hrecord]
    simp

theorem record_eq {s : Stores} {db server : Db} {x : XattrDb} {r : Option FileData}
    (h : Recorded f path s db x server r) : s.record = x.record := by
  rw [Stores.record, h.xattr]
  rfl

/-- A notice keeps the answers equal exactly when it merges. -/
theorem agree_notify_iff {s : Stores} {db server : Db} {x : XattrDb} {r : Option FileData}
    (hlocal : env.localOnly = false) (hknown : pseudoClientIgnorePath env (some path) = false)
    (hpath : IsCString path) (h : Recorded f path s db x server r)
    (hagree : StoresAgree sq env leftover t f path s) (n : Notice f) :
    StoresAgree sq env leftover t f path (notify sq env leftover t f path s n) ↔
      Merges env s.record n := by
  obtain ⟨hsame, hr⟩ := same_of_agree h ((agree_iff hlocal hknown hpath h).mp hagree)
  obtain ⟨db', x', h', hrecord⟩ := recorded_notify sq leftover t hlocal hknown hpath h hsame hr n
  rw [agree_iff hlocal hknown hpath h', record_eq h, hsame, ← merges_iff env n hr, hrecord]
  constructor
  · intro heq
    rcases Decidable.em (n.inDatabase env r).Placeholder with hp | hp
    · rw [Option.filter_some_neg (by simpa using hp)] at heq
      cases heq
    · rw [Option.filter_some_pos (by simpa using hp)] at heq
      have heq' := Option.some.inj heq
      exact ⟨heq'.symm, heq' ▸ hp⟩
  · rintro ⟨heq, hp⟩
    rw [heq, Option.filter_some_pos (by simpa using hp)]

end Runs

/-- Over every sequence of notices for a file that neither store knows, `OP_STAT` yields the same
in both after each of them exactly when every notice merges with the record it meets, or the
path is one that pseudo ignores. -/
theorem stores_agree_iff (sq : Sqlite) (env : ClientEnv) (leftover : Bytes) (t : FdTables)
    (f : HostFile) (path : Bytes) (db server : Db) (x : XattrDb) (ns : List (Notice f))
    (hlocal : env.localOnly = false) (hpath : IsCString path) (hdb : db.files = [])
    (hacc : x.accepts = true) (hnone : x.stored = none) :
    (∀ pre, pre <+: ns → StoresAgree sq env leftover t f path
        (Run.run (notify sq env leftover t f path) ⟨some db, some (x, server)⟩ pre)) ↔
      Run.Guarded (notify sq env leftover t f path)
        (fun s n => pseudoClientIgnorePath env (some path) = true ∨ Merges env s.record n)
        ⟨some db, some (x, server)⟩ ns := by
  refine Iff.symm ?_
  cases hknown : pseudoClientIgnorePath env (some path) with
  | true =>
    -- no call of an ignored path does anything
    refine Run.guarded_iff_of_invariant (I := fun s => s = ⟨some db, some (x, server)⟩) ?_ ?_ rfl ?_
    · rintro s n rfl -
      rw [notify, Option.bind_some, Option.bind_some,
        send_nothing (fun op buf hop => databaseOp_ignored hop hknown),
        send_nothing (fun op buf hop => xattrdbOp_ignored hop hknown)]
    · rintro s n rfl hagree
      rw [notify, Option.bind_some, Option.bind_some,
        send_nothing (fun op buf hop => databaseOp_ignored hop hknown),
        send_nothing (fun op buf hop => xattrdbOp_ignored hop hknown)]
      exact iff_of_true hagree (Or.inl rfl)
    · refine ⟨db, (x, server), rfl, rfl, fun buf host => ?_⟩
      unfold yields
      rw [databaseOp_ignored rfl hknown, xattrdbOp_ignored rfl hknown]
      rfl
  | false =>
    have hrecord : x.record = none := by
      rw [XattrDb.record, hnone]
      rfl
    have hstart : Recorded f path ⟨some db, some (x, server)⟩ db x server none :=
      ⟨rfl, rfl, ⟨none, hdb, rfl, fun q hq => by cases hq⟩, hacc, iff_of_true hrecord rfl⟩
    refine Run.guarded_iff_of_invariant
      (I := fun s => ∃ db x server r, Recorded f path s db x server r) ?_ ?_
      ⟨db, x, server, none, hstart⟩ ((agree_iff hlocal hknown hpath hstart).mpr hrecord)
    · rintro s n ⟨db, x, server, r, h⟩ hagree
      obtain ⟨hsame, hr⟩ := same_of_agree h ((agree_iff hlocal hknown hpath h).mp hagree)
      obtain ⟨db', x', h', _⟩ := recorded_notify sq leftover t hlocal hknown hpath h hsame hr n
      exact ⟨db', x', server, _, h'⟩
    · rintro s n ⟨db, x, server, r, h⟩ hagree
      rw [agree_notify_iff hlocal hknown hpath h hagree n]
      exact ⟨Or.inr, fun hok => hok.resolve_left (by simp)⟩

/-- A regular file of the host. -/
def exHostFile : HostFile := ⟨1, 5, 0o100000, 0, Or.inl rfl⟩

/-- What `stat` gives for it. -/
def exHostBuf : StatBuf :=
  { dev := 1, ino := 5, uid := 1000, gid := 1000, mode := 0o100644, rdev := 0, nlink := 1 }

/-- Both stores without a record of the file. -/
def exStores : Stores :=
  ⟨some (Db.empty ⟨0, []⟩), some (⟨true, none, MsgHeader.zero⟩, Db.empty ⟨0, []⟩)⟩

/-- A file that is created, given to another user and made executable. -/
def exNotices : List (Notice exHostFile) :=
  [.creat exHostBuf (by decide) 0o022 0o666, .chown exHostBuf (by decide) 33 (-1),
    .chmod exHostBuf (by decide) 0o755]

theorem stores_agree_regular :
    StoresAgree Sqlite.inOrder exEnv [] ⟨[], []⟩ exHostFile (ascii ['/', 'a'])
      (Run.run (notify Sqlite.inOrder exEnv [] ⟨[], []⟩ exHostFile (ascii ['/', 'a'])) exStores
        exNotices) := by
  refine (stores_agree_iff Sqlite.inOrder exEnv [] ⟨[], []⟩ exHostFile (ascii ['/', 'a'])
    (Db.empty ⟨0, []⟩) (Db.empty ⟨0, []⟩) ⟨true, none, MsgHeader.zero⟩ exNotices rfl (by decide)
    rfl rfl rfl).mpr ⟨Or.inr ?_, Or.inr ?_, Or.inr ?_, trivial⟩ exNotices (List.prefix_refl _)
  · exact ⟨by decide, by decide⟩
  · exact fun h => absurd h.1 (by decide)
  · exact ⟨by decide, by decide⟩

/-- A block device that gets other permissions is a regular file in the attribute. -/
theorem chmod_loses_device :
    let s := Run.run (notify Sqlite.inOrder exEnv [] ⟨[], []⟩ exHostFile (ascii ['/', 'a']))
      exStores [.mknod exHostBuf (by decide) 0o022 0o060666 0x801 rfl (by decide),
        .chmod exHostBuf (by decide) 0o600]
    s.database.bind (yields (databaseOp Sqlite.inOrder exEnv [] ⟨[], []⟩) (ascii ['/', 'a']) ·
        exHostBuf) = some ⟨0, 0, 0o060600, 0x801⟩ ∧
      s.xattr.bind (yields (xattrdbOp Sqlite.inOrder exEnv [] ⟨[], []⟩) (ascii ['/', 'a']) ·
        exHostBuf) = some ⟨0, 0, 0o100600, 0⟩ := by
  decide

end Pseudo

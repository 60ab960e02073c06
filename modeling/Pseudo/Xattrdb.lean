import Pseudo.SetXattr

/-!
# The build with `PSEUDO_XATTRDB`

The client keeps what the database would hold for a file in the extended attribute
`user.pseudo_data` of the host file, and asks the server only when it cannot. The model has one
host file, the one that the path or the descriptor of each call names, and the wrappers that
send `OP_MKNOD`, `OP_CREAT`, `OP_CHMOD` and `OP_CHOWN`. Their calls of the host's own functions
are left out, and so is what `mknod` does when it is refused.
-/

namespace Pseudo

/-! ## The attribute -/

/-- `pseudo_db_data_t`. -/
structure PseudoDbData where
  version : Int
  uid : BitVec 32
  gid : BitVec 32
  mode : BitVec 32
  rdev : BitVec 64
  deriving DecidableEq, Repr

/-- Whether the host accepts `user.pseudo_data` on the file, its value, and `xattrdb_data`. -/
structure XattrDb where
  accepts : Bool
  stored : Option PseudoDbData
  data : MsgHeader
  deriving DecidableEq, Repr

/-- `S_ISREG`. -/
def sIsreg (mode : BitVec 64) : Bool := mode &&& sIfmt == 0o100000

/-- `pseudo_xattrdb_save`; no caller passes a null buffer. -/
def pseudoXattrdbSave (x : XattrDb) (fd : Int) (path : Option Bytes) (buf : StatBuf) :
    XattrDb × Option MsgHeader :=
  if path = none ∧ fd < 0 then (x, none)
  else if x.accepts then
    let stored := { version := 1, uid := buf.uid, gid := buf.gid, mode := buf.mode,
                    rdev := buf.rdev }
    let data := { x.data with result := .succeed }
    ({ x with stored := some stored, data := data }, some data)
  else (x, none)

/-- `pseudo_xattrdb_load`; no caller passes a null buffer. -/
def pseudoXattrdbLoad (x : XattrDb) (fd : Int) (path : Option Bytes) (buf : StatBuf) :
    XattrDb × Option MsgHeader :=
  if path = none ∧ fd < 0 then (x, none)
  -- don't try to getxattr on a thing unless we think it is likely to work
  else if ¬ sIsdir (buf.mode.setWidth 64) ∧ ¬ sIsreg (buf.mode.setWidth 64) then (x, none)
  else
    match x.stored with
    | none =>
      -- there's no data, but there could have been
      if x.accepts then
        let stored := { version := 0, uid := 0, gid := 0, mode := 0, rdev := 0 }
        let data := { x.data with result := .fail }
        ({ x with stored := some stored, data := data }, some data)
      else (x, none)
    | some stored =>
      let data :=
        if stored.version = 1 then
          { x.data with uid := stored.uid, gid := stored.gid, mode := stored.mode.setWidth 64,
                        rdev := stored.rdev, result := .succeed }
        else { x.data with result := .fail }
      ({ x with data := data }, some data)

/-! ## `pseudo_client_op` -/

/-- "for these, we want to start with the existing db values". -/
def mergeExisting (env : ClientEnv) (op : Op) (buf : StatBuf) (loaded : Option MsgHeader) :
    StatBuf :=
  match loaded.filter fun result => result.result = .succeed with
  | some result =>
    match op with
    | .chmod | .fchmod => { buf with uid := result.uid, gid := result.gid }
    | .chown | .fchown => { buf with rdev := result.rdev, mode := result.mode.setWidth 32 }
    | _ => buf
  | none =>
    match op with
    | .chmod | .fchmod => { buf with uid := env.fuid, gid := env.fgid }
    | _ => buf

/-- "maybe use xattr instead". -/
def xattrInstead (env : ClientEnv) (x : XattrDb) (op : Op) (fd : Int) (path : Option Bytes)
    (buf : StatBuf) : XattrDb × Option MsgHeader :=
  match op with
  | .chmod | .fchmod | .chown | .fchown =>
    let (x, loaded) := pseudoXattrdbLoad x fd path buf
    pseudoXattrdbSave x fd path (mergeExisting env op buf loaded)
  | .creat | .mkdir | .mknod =>
    pseudoXattrdbSave x fd path { buf with uid := env.fuid, gid := env.fgid }
  | .link => pseudoXattrdbSave x fd path buf
  | .fstat | .stat => pseudoXattrdbLoad x fd path buf
  | _ => (x, none)

/-! ## `OP_STAT` in the server -/

/-- "special case: this row was created to allow xattr lookups, and it's not actually valid
data". -/
def opStatXattrdb (req : Request) (c : Checked) : Action :=
  let header := dbHeader c req.hdr.op
  if (c.foundIno ∨ c.foundPath) ∧ header.uid = -1 ∧ header.gid = -1 then
    { db := c.db, msg := { c.lk.msg with result := .fail } }
  else opStat req c

def handleXattrdb (sq : Sqlite) (db : Db) (req : Request) : Outcome :=
  if (req.hdr.op = .stat ∨ req.hdr.op = .fstat) ∧ ¬ aborts req (lookup sq db req) then
    let c := checked sq db req
    markUnlinked req c ((opStatXattrdb req c).run req.path)
  else handle sq db req

def pseudoOpXattrdb (sq : Sqlite) (db : Db) (m : PseudoMsg) : Outcome :=
  handleXattrdb sq db (request m)

/-! ## The wrappers -/

/-- How the wrappers call `pseudo_client_op`: the state afterwards and the message that comes
back, or nothing when the client is gone. -/
abbrev ClientOp (σ : Type) := σ → ClientCall → Option (σ × Option MsgHeader)

section Stores
variable (sq : Sqlite) (env : ClientEnv) (leftover : Bytes) (t : FdTables)

/-- Everything is sent to the server. `t` is the table of open files, which the calls with a path
neither need nor change. -/
def databaseOp : ClientOp Db := fun db call =>
  (callServer (pseudoOpXattrdb sq) env leftover db t call).map fun s => (s.db, s.result)

/-- `pseudo_client_op`, with the server for what the attribute cannot hold. -/
def xattrdbOp : ClientOp (XattrDb × Db) := fun (x, db) call =>
  let path := callPath t call
  let (x, result) :=
    match call.buf with
    | some buf =>
      if ¬ call.op.neverIgnored ∧ pseudoClientIgnorePath env path then (x, none)
      else xattrInstead env x call.op call.fd path buf
    | none => (x, none)
  match result with
  | some result => some ((x, db), some result)
  | none => (databaseOp sq env leftover t db call).map fun (db, result) => ((x, db), result)

end Stores

/-- `PSEUDO_DB_MODE`. -/
def pseudoDbMode (fsMode userMode : BitVec 32) : BitVec 32 :=
  (fsMode &&& ~~~ 0o722) ||| (userMode &&& 0o722)

/-- The permission bits of `user` with the other bits of `mode`. -/
def withPermissions (mode user : BitVec 32) : BitVec 32 :=
  (mode &&& ~~~ 0o7777) ||| (user &&& 0o7777)

def noticeCall (op : Op) (path : Bytes) (buf : StatBuf) : ClientCall :=
  { op := op, path := some path, buf := some buf }

section Wrappers
variable {σ : Type} (clientOp : ClientOp σ) (s : σ) (path : Bytes) (buf : StatBuf)

/-- The mode that is given to `mknod`: "if you don't specify a type, assume regular file". -/
def mknodMode (umask mode : BitVec 32) : BitVec 32 :=
  let mode := mode &&& ~~~ umask
  if mode &&& 0o170000 = 0 then mode ||| 0o100000 else mode

/-- `buf` is what `fstat` gives for the regular file that stands for the device. -/
def wrapMknodat (umask mode : BitVec 32) (dev : BitVec 64) : Option σ :=
  let mode := mknodMode umask mode
  let buf :=
    { buf with mode := (pseudoDbMode buf.mode mode &&& 0o7777) ||| (mode &&& ~~~ 0o7777)
               rdev := dev }
  (clientOp s (noticeCall .mknod path buf)).map (·.1)

/-- The part of `wrap_openat` for a file that did not exist. -/
def wrapOpenatCreat (umask mode : BitVec 32) : Option σ :=
  let mode := mode &&& ~~~ umask
  let buf := { buf with mode := pseudoDbMode buf.mode mode }
  (clientOp s (noticeCall .creat path buf)).map (·.1)

def wrapFchmodat (mode : BitVec 32) : Option σ :=
  let buf := { buf with mode := withPermissions buf.mode mode }
  (clientOp s (noticeCall .chmod path buf)).map (·.1)

/-- `pseudo_stat_msg`. -/
def StatBuf.statMsg (buf : StatBuf) (msg : MsgHeader) : StatBuf :=
  { buf with uid := msg.uid, gid := msg.gid, mode := msg.mode.setWidth 32, rdev := msg.rdev }

/-- "now override with arguments". -/
def StatBuf.override (buf : StatBuf) (owner group : BitVec 32) : StatBuf :=
  { buf with uid := if owner = -1 then buf.uid else owner
             gid := if group = -1 then buf.gid else group }

def wrapFchownat (owner group : BitVec 32) : Option σ :=
  let chown (s : σ) (buf : StatBuf) : Option σ :=
    (clientOp s (noticeCall .chown path (buf.override owner group))).map (·.1)
  if owner = -1 ∨ group = -1 then
    (clientOp s (noticeCall .stat path buf)).bind fun (s, msg) =>
      match msg.filter fun msg => msg.result = .succeed with
      -- copy in any existing values
      | some msg => chown s (buf.statMsg msg)
      | none => chown s buf
  else chown s buf

end Wrappers

end Pseudo

import Pseudo.CarriedRename

/-!
# The calls that make, change, link and remove files

`wrap_openat`, `wrap_mkdirat`, `wrap___xmknodat`, `wrap_symlinkat`, `wrap_linkat`, `wrap_unlinkat`,
`wrap_fchmodat`, `wrap_fchownat`, `wrap_renameat` and `wrap___fxstatat64`, each with what the host
answers to it. `wrap_rmdir` sends what `wrap_unlinkat` does. The paths are those that
`pseudo_root_path` has made absolute, and that are not to be ignored. Left out are `errno`, that
`wrap_openat` gives the lock back around a FIFO that may block, and links to `/proc/self/fd`.
-/

namespace Pseudo

open Table
open TwoStoresLemmas (serverPath noticeSent)

/-! ## The wrappers -/

/-- `pseudo_client_op`, with the client's tables in the state. -/
def serverOp (sq : Sqlite) (env : ClientEnv) (leftover : Bytes) : ClientOp (Db × FdTables) :=
  fun (db, t) call =>
    (clientCall sq env leftover db t call).map fun s => ((s.db, s.tables), s.result)

/-- `O_CREAT`. -/
def oCreat : BitVec 32 := 0o100

/-- `O_TMPFILE`, which includes `O_DIRECTORY`. -/
def oTmpfile : BitVec 32 := 0o20200000

/-- `PSEUDO_ACCESS`. -/
def pseudoAccess (flags : BitVec 32) : BitVec 32 :=
  let map (access psa : BitVec 32) : BitVec 32 := if flags &&& 3 = access then psa else 0
  map 0 4 ||| map 1 2 ||| map 2 6 ||| (if flags &&& 0o2000 ≠ 0 then 8 else 0)

section Wrappers
variable {σ : Type} (clientOp : ClientOp σ) (s : σ) (path : Bytes)

/-- A notice whose answer is not looked at, before the wrapper returns `rc`. -/
def sendNotice (op : Op) (buf : StatBuf) (rc : Int) : Option (σ × Int) :=
  (clientOp s (noticeCall op path buf)).map fun (s, _) => (s, rc)

/-- `before` and `stat` are what `fstatat` gives before and after the host has opened the file as
`real`. -/
def wrapOpenatPath (flags mode umask : BitVec 32) (before : Option StatBuf) (real : Int)
    (stat : Option StatBuf) : Option (σ × Int) :=
  let mode := mode &&& ~~~ umask
  let open' (s : σ) (buf : Option StatBuf) : Option (σ × Int) :=
    (clientOp s { op := .open, access := pseudoAccess flags, fd := real, path := some path,
                  buf := buf }).map fun (s, _) => (s, real)
  let existed :=
    if flags &&& oTmpfile = oTmpfile then false
    else if flags &&& oCreat ≠ 0 then before.isSome else true
  if real = -1 then some (s, real)
  -- in O_TMPFILE case, nothing gets put in the database
  else if flags &&& oTmpfile = oTmpfile then some (s, real)
  else
    match stat with
    | some buf =>
      let buf := { buf with mode := pseudoDbMode buf.mode mode }
      if existed then open' s (some buf)
      else (clientOp s (noticeCall .creat path buf)).bind fun (s, _) => open' s (some buf)
    | none => open' s none

def wrapMkdirat (mode umask : BitVec 32) (real : Int) (stat : Option StatBuf) :
    Option (σ × Int) :=
  let mode := mode &&& ~~~ umask
  if real = -1 then some (s, real)
  else
    match stat with
    | some buf =>
      sendNotice clientOp s path .mkdir { buf with mode := pseudoDbMode buf.mode mode } real
    | none => some (s, real)

/-- `real` is the descriptor of the regular file that stands for the device. The file is removed
again when the server refuses. -/
def wrapXmknodat (mode umask : BitVec 32) (dev : BitVec 64) (before : Option StatBuf) (real : Int)
    (buf : StatBuf) : Option (σ × Int) :=
  let mode := mknodMode umask mode
  -- if we can stat the file, you can't mknod it
  if before.isSome ∨ real = -1 then some (s, -1)
  else
    let buf :=
      { buf with mode := (pseudoDbMode buf.mode mode &&& 0o7777) ||| (mode &&& ~~~ 0o7777)
                 rdev := dev }
    (clientOp s (noticeCall .mknod path buf)).map fun (s, msg) =>
      (s, if msg.isSome ∧ ¬ succeeded msg then -1 else 0)

def wrapSymlinkatPath (real : Int) (stat : Option StatBuf) : Option (σ × Int) :=
  if real = -1 then some (s, -1)
  else
    match stat with
    -- just record the entry
    | some buf => sendNotice clientOp s path .symlink buf 0
    | none => some (s, -1)

/-- `stat` is what `lstat` says about `oldpath` after the host has linked it, and `linked` is
`pseudo_client_linked_paths`. -/
def wrapLinkat (linked : σ → σ) (oldpath newpath : Bytes) (real : Int) (stat : Option StatBuf) :
    Option (σ × Int) :=
  if real = -1 then some (s, -1)
  else
    match stat with
    | none => some (s, -1)
    | some buf =>
      (clientOp s (noticeCall .stat oldpath buf)).bind fun (s, msg) =>
      let buf :=
        match msg.filter fun msg => msg.result = .succeed with
        | some msg => buf.statMsg msg
        | none => buf
      (sendNotice clientOp s newpath .link buf real).map fun (s, rc) => (linked s, rc)

/-- `before` is what `fstatat` says about the path, `real` what `unlinkat` returns. -/
def wrapUnlinkat (before : Option StatBuf) (real : Int) : Option (σ × Int) :=
  match before with
  | none => some (s, -1)
  | some buf =>
    (clientOp s (noticeCall .mayUnlink path buf)).bind fun (s, msg) =>
    if succeeded msg then
      sendNotice clientOp s path (if real = -1 then .cancelUnlink else .didUnlink) buf real
    else some (s, real)

/-- What the host's `fchmodat` returns is ignored: "pseudo may believe you are permitted to change
modes that the filesystem doesn't". -/
def wrapFchmodatPath (mode : BitVec 32) (stat : Option StatBuf) : Option (σ × Int) :=
  match stat with
  | none => some (s, -1)
  | some buf =>
    -- "chmod on a symbolic link always succeeds and has no effect"
    if sIslnk (buf.mode.setWidth 64) then some (s, 0)
    else (wrapFchmodat clientOp s path buf mode).map fun s => (s, 0)

def wrapFchownatPath (owner group : BitVec 32) (stat : Option StatBuf) : Option (σ × Int) :=
  match stat with
  | none => some (s, -1)
  | some buf => (wrapFchownat clientOp s path buf owner group).map fun s => (s, 0)

/-- `stat` is what the host's own `fstatat64` gives. -/
def wrapFxstatat64 (stat : Option StatBuf) : Option (σ × Option StatBuf) :=
  match stat with
  | none => some (s, none)
  | some buf =>
    (clientOp s (noticeCall .stat path buf)).map fun (s, msg) =>
      match msg.filter fun msg => msg.result = .succeed with
      | some msg => (s, some (buf.statMsg msg))
      | none => (s, some buf)

end Wrappers

/-! ## Calls and what the host does for them -/

inductive FileCall
  | openat (path : Bytes) (flags mode : BitVec 32)
  | mkdirat (path : Bytes) (mode : BitVec 32)
  | mknodat (path : Bytes) (mode : BitVec 32) (dev : BitVec 64)
  | symlinkat (path : Bytes)
  | linkat (oldpath newpath : Bytes)
  | unlinkat (path : Bytes)
  | fchmodat (path : Bytes) (mode : BitVec 32)
  | fchownat (path : Bytes) (owner group : BitVec 32)
  | renameat (oldpath newpath : Bytes)
  deriving DecidableEq, Repr

/-- A call of some client, with the files that the host has afterwards and what its own function
returns. The order in which the rows are visited, the rest of the server's buffer, the client's
tables and what is on its stack are any. -/
structure FileEvent where
  sq : Sqlite
  env : ClientEnv
  leftover : Bytes
  tables : FdTables
  umask : BitVec 32
  bufs : RenameBufs
  olddirfd : Int
  newdirfd : Int
  call : FileCall
  real : Int
  after : HostFs

/-- The host's files and the server's tables. -/
structure FileWorld where
  host : HostFs
  db : Db

namespace FileEvent

/-- The wrapper of the call. -/
def wrapper (e : FileEvent) (before : HostFs) (db : Db) : Option ((Db × FdTables) × Int) :=
  let clientOp := serverOp e.sq e.env e.leftover
  let s := (db, e.tables)
  match e.call with
  | .openat path flags mode =>
    wrapOpenatPath clientOp s path flags mode e.umask (before.lstat path) e.real (e.after.lstat path)
  | .mkdirat path mode => wrapMkdirat clientOp s path mode e.umask e.real (e.after.lstat path)
  | .mknodat path mode dev =>
    wrapXmknodat clientOp s path mode e.umask dev (before.lstat path) e.real
      (StatBuf.sent (e.after.lstat path))
  | .symlinkat path => wrapSymlinkatPath clientOp s path e.real (e.after.lstat path)
  | .linkat oldpath newpath =>
    wrapLinkat clientOp s (fun (db, t) => (db, pseudoClientLinkedPaths t oldpath newpath)) oldpath
      newpath e.real (e.after.lstat oldpath)
  | .unlinkat path => wrapUnlinkat clientOp s path (before.lstat path) e.real
  | .fchmodat path mode => wrapFchmodatPath clientOp s path mode (before.lstat path)
  | .fchownat path owner group => wrapFchownatPath clientOp s path owner group (before.lstat path)
  | .renameat oldpath newpath =>
    (wrapRenameat e.sq e.env e.leftover before.lstat e.olddirfd e.newdirfd ⟨e.real, 0⟩ db e.tables
      (some oldpath) (some newpath) e.bufs).map fun s => ((s.db, s.tables), s.rc)

/-- No step is left when the client is gone: one of its requests was refused. -/
def step (w : FileWorld) (e : FileEvent) : Option FileWorld :=
  (e.wrapper w.host w.db).map fun (s, _) => ⟨e.after, s.1⟩

end FileEvent

/-- What a program sees of a file by `fstatat64`. -/
def FileWorld.stat (w : FileWorld) (sq : Sqlite) (env : ClientEnv) (leftover : Bytes)
    (t : FdTables) (path : Bytes) : Option ((Db × FdTables) × Option StatBuf) :=
  wrapFxstatat64 (serverOp sq env leftover) (w.db, t) path (w.host.lstat path)

/-! ## What the host promises -/

/-- The numbers of a file, its type and what it says of itself; link counts come and go. -/
def StatBuf.object (buf : StatBuf) : StatBuf := { buf with nlink := 0 }

/-- The file, except for its permissions. -/
def StatBuf.node (buf : StatBuf) : StatBuf :=
  { buf.object with mode := buf.mode &&& ~~~ 0o7777 }

/-- The path leads to the file that it led to before. -/
def Persists (before after : HostFs) (path : Bytes) : Prop :=
  (after.lstat path).map StatBuf.object = (before.lstat path).map StatBuf.object

/-- All names of an inode have one `stat` buffer. The database keeps 32 bits of a device number. -/
def HostFs.Inodes (host : HostFs) : Prop :=
  ∀ {p q b c}, Canonical p → Canonical q → host.lstat p = some b → host.lstat q = some c →
    b.key = c.key → b = c

/-- A new file of the type under a name that was free, with numbers that no file has. -/
structure Makes (before after : HostFs) (path : Bytes) (type : BitVec 32) : Prop where
  free : before.lstat path = none
  made : ∃ buf, after.lstat path = some buf ∧ buf.mode &&& 0o170000 = type ∧
    ∀ p b, Canonical p → before.lstat p = some b → b.key ≠ buf.key
  others : ∀ p, Canonical p → p ≠ path → Persists before after p

/-- The name that a name had before the rename, if it had one. -/
def nameBefore (old new p : Bytes) : Option Bytes :=
  if p = new then some old
  else if LiesBelow new p then some (old ++ p.drop new.length)
  else if p = old ∨ LiesBelow old p then none
  else some p

/-- What the host does for a call, when its function returns `real`. -/
def HostDoes (before after : HostFs) (real : Int) : FileCall → Prop
  | .openat path flags _ =>
    if real = -1 ∨ flags &&& oTmpfile = oTmpfile then after = before
    else (before.lstat path).isSome ∧ after = before ∨
      flags &&& oCreat ≠ 0 ∧ Makes before after path 0o100000
  | .mkdirat path _ => if real = -1 then after = before else Makes before after path 0o040000
  | .mknodat path _ _ =>
    if real = -1 ∨ (before.lstat path).isSome then after = before
    else Makes before after path 0o100000
  | .symlinkat path => if real = -1 then after = before else Makes before after path 0o120000
  | .linkat oldpath newpath =>
    if real = -1 then after = before
    else (before.lstat oldpath).isSome ∧ before.lstat newpath = none ∧
      after.lstat newpath = after.lstat oldpath ∧
      ∀ p, Canonical p → p ≠ newpath → Persists before after p
  | .unlinkat path =>
    if real = -1 ∨ before.lstat path = none then after = before
    else after.lstat path = none ∧ ∀ p, Canonical p → p ≠ path → Persists before after p
  | .fchmodat path _ =>
    if (before.lstat path).all fun buf => sIslnk (buf.mode.setWidth 64) then after = before
    else ∀ p, Canonical p → (after.lstat p).map StatBuf.node = (before.lstat p).map StatBuf.node ∧
      ((∀ b c, before.lstat path = some b → before.lstat p = some c → c.key ≠ b.key) →
        Persists before after p)
  | .fchownat _ _ _ => after = before
  | .renameat oldpath newpath =>
    if real = -1 ∨ sameFile (before.lstat newpath) (before.lstat oldpath) = true then after = before
    else real = 0 ∧ (∃ buf, HostRenames before oldpath newpath buf) ∧ OneDevice before ∧
      (∀ p, LiesBelow newpath p → before.lstat p = none) ∧
      ∀ p, Canonical p → (after.lstat p).map StatBuf.object =
        ((nameBefore oldpath newpath p).bind before.lstat).map StatBuf.object

end Pseudo

import Pseudo.Database

/-!
# Handling a message: `pseudo_op`

`pseudo.c` in the build without `PSEUDO_XATTRDB`. The function is cut where its comments cut
it: splitting the paths, looking the file up, the two sanity checks, the operation itself and
the marking of unlinked descriptors at the end. Logging and debugging output is left out.
-/

namespace Pseudo

/-! ## The paths of a message -/

/-- The operations whose buffer holds a second string. -/
def Op.isPacked : Op → Bool
  | .rename | .createXattr | .getXattr | .listXattr | .replaceXattr | .removeXattr
  | .setXattr => true
  | _ => false

/-- `pseudo_op`'s variables once the paths are split off: the stashed `msg_header`, the header
in the buffer, `msg->path` as a C string, the bytes `oldpath` points at, and
`trailing_slash`. -/
structure Request where
  hdr : MsgHeader
  msg : MsgHeader
  path : Bytes
  oldpath : Option Bytes
  oldpathlen : Nat
  trailingSlash : Bool
  deriving DecidableEq, Repr

/-- "Process rename path separation": the header with the length of the first path, and the
second string with its length. -/
def splitPaths (hdr : MsgHeader) (buffer : Bytes) : MsgHeader × Option Bytes × Nat :=
  if hdr.pathlen ≠ 0 ∧ hdr.op.isPacked then
    let initialLen := (cstr buffer).length
    let oldpath := buffer.drop (initialLen + 1)
    let oldpathlen := subSize hdr.pathlen (initialLen + 1 + 1)
    let hdr := { hdr with pathlen := initialLen }
    -- for a rename op, we want to strip any trailing slashes
    if 0 < oldpathlen ∧ hdr.op = .rename ∧ oldpath[oldpathlen - 1]? = some slash then
      (hdr, some (oldpath.set (oldpathlen - 1) 0), oldpathlen - 1)
    else (hdr, some oldpath, oldpathlen)
  else (hdr, none, 0)

def request (m : PseudoMsg) : Request :=
  let (hdr, oldpath, oldpathlen) := splitPaths { m.hdr with result := .succeed } m.buffer
  if hdr.pathlen ≠ 0 ∧ m.buffer[hdr.pathlen - 1]? = some slash then
    { hdr := hdr, msg := { hdr with pathlen := hdr.pathlen - 1 },
      path := cstr (m.buffer.set (hdr.pathlen - 1) 0),
      oldpath := oldpath, oldpathlen := oldpathlen, trailingSlash := true }
  else
    { hdr := hdr, msg := hdr, path := cstr m.buffer,
      oldpath := oldpath, oldpathlen := oldpathlen, trailingSlash := false }

/-! ## Looking the file up -/

/-- What the lookups leave: the header in the buffer, which a hit by path overwrites, the
copies `by_path` and `by_ino`, `path_by_ino` and the three flags. -/
structure Lookup where
  msg : MsgHeader
  byPath : MsgHeader
  byIno : MsgHeader
  pathByIno : Option Bytes
  foundPath : Bool
  foundIno : Bool
  foundExact : Bool
  deriving DecidableEq, Repr

/-- The lookup by path and inode together. -/
def findExact (sq : Sqlite) (db : Db) (req : Request) : Option MsgHeader :=
  if req.msg.pathlen ≠ 0 ∧ req.msg.dev ≠ 0 ∧ req.msg.ino ≠ 0 then
    pdbFindFileExact sq db req.msg req.path
  else none

/-- The search on the original inode. It is skipped when the header in the buffer, which may
be the row's by now, has no device or no inode. -/
def findIno (sq : Sqlite) (db : Db) (req : Request) (msg : MsgHeader) :
    Option (MsgHeader × Bytes) :=
  if msg.dev ≠ 0 ∧ msg.ino ≠ 0 then pdbFindFileDev sq db req.hdr else none

def lookup (sq : Sqlite) (db : Db) (req : Request) : Lookup :=
  match findExact sq db req with
  | some found =>
    { msg := req.hdr, byPath := found, byIno := found, pathByIno := some req.path,
      foundPath := true, foundIno := true, foundExact := true }
  | none =>
    let path := pdbFindFilePath sq db req.msg req.path
    let msg := path.getD req.msg
    let ino := findIno sq db req msg
    { msg := msg, byPath := path.getD .zero, byIno := (ino.map (·.1)).getD req.hdr,
      pathByIno := ino.map (·.2), foundPath := path.isSome, foundIno := ino.isSome,
      foundExact := false }

/-! ## The sanity checks -/

/-- The database entry disagrees on `S_ISDIR` or `S_ISLNK`. -/
def typeMismatch (a b : MsgHeader) : Bool :=
  sIsdir a.mode != sIsdir b.mode || sIslnk a.mode != sIslnk b.mode

/-- The path is in the database with a different inode, but was expected to get deleted. -/
def expectedGone (req : Request) (lk : Lookup) : Bool :=
  lk.byPath.ino != req.hdr.ino && req.hdr.ino != 0 && req.hdr.op != .exec &&
    lk.byPath.deleting != 0

def clearMarked (db : Db) (req : Request) (lk : Lookup) : Db :=
  if expectedGone req lk then pdbDidUnlinkFile db req.path none lk.byPath.deleting else db

/-- The checks on the row found by path; the flag is the new `found_path`. -/
def checkPath (db : Db) (req : Request) (lk : Lookup) : Db × Bool :=
  if lk.foundPath ∧ req.hdr.op ≠ .didUnlink then
    let db := clearMarked db req lk
    -- unlink this path -- the inode may be in use elsewhere
    if typeMismatch lk.byPath req.hdr then (pdbUnlinkFile db lk.msg req.path, false)
    else (db, true)
  else (db, lk.foundPath)

/-- The row found by inode has another path, `p`. -/
def pathMismatch (req : Request) (p : Bytes) : Bool :=
  match req.hdr.op with
  | .link | .exec => false
  | .rename => req.hdr.nlink == 1 && (req.oldpath.map cstr).getD [] != p
  -- Ignore NAMELESS FILE entries since those could be created by other threads on new files
  | _ => req.path != p && p != namelessFile

/-- The check that answers with `RESULT_ABORT`. -/
def aborts (req : Request) (lk : Lookup) : Bool :=
  lk.foundIno && req.hdr.op != .didUnlink && lk.msg.pathlen != 0 &&
    match lk.pathByIno with
    | some p => pathMismatch req p && lk.byIno.deleting == 0
    | none => false

/-- The checks on the row found by inode, when they do not abort; the flag is the new
`found_ino`. -/
def checkIno (db : Db) (req : Request) (lk : Lookup) : Db × Bool :=
  if lk.foundIno ∧ req.hdr.op ≠ .didUnlink then
    let db :=
      match lk.pathByIno with
      | none => if lk.msg.pathlen ≠ 0 then pdbUpdateFilePath db lk.msg req.path else db
      | some _ => db
    if typeMismatch lk.byIno req.hdr then (pdbUnlinkFileDev db lk.msg, false) else (db, true)
  else (db, lk.foundIno)

/-- What the lookups and the sanity checks leave for the operation. -/
structure Checked where
  lk : Lookup
  db : Db
  foundPath : Bool
  foundIno : Bool
  deriving DecidableEq, Repr

/-- Lookups and both checks, when they do not abort. -/
def checked (sq : Sqlite) (db : Db) (req : Request) : Checked :=
  let lk := lookup sq db req
  let (db, foundPath) := checkPath db req lk
  let (db, foundIno) := checkIno db req lk
  { lk := lk, db := db, foundPath := foundPath, foundIno := foundIno }

/-! ## The operations -/

/-- What an operation does to the tables. Where it calls `pdb_link_file`, that is its last
change; `link` is the header it passes. -/
structure Action where
  db : Db
  msg : MsgHeader
  link : Option MsgHeader := none
  response : Option Bytes := none
  deriving DecidableEq, Repr

/-- What handling a message leaves: the tables, the header of the answer, and the bytes of
the answer. -/
structure Outcome where
  db : Db
  msg : MsgHeader
  response : Option Bytes
  deriving DecidableEq, Repr

/-- `db_header`: by-inode for fstat, by-path for stat. -/
def dbHeader (c : Checked) (op : Op) : MsgHeader :=
  let preferIno := op = .fchown ∨ op = .fchmod ∨ op = .fstat
  if c.foundIno ∧ (preferIno ∨ ¬ c.foundPath) then c.lk.byIno else c.lk.byPath

/-- The permission bits of the message with the file type of the row. -/
def mergeMode (request row : BitVec 64) : BitVec 64 :=
  (request &&& 0o7777) ||| (row &&& ~~~ 0o7777)

def opCreat (c : Checked) : Action :=
  let db := if c.foundIno ∧ ¬ c.lk.foundExact then pdbUnlinkFileDev c.db c.lk.byIno else c.db
  { db := db, msg := c.lk.msg, link := if c.foundPath then none else some c.lk.msg }

/-- The common shape of `OP_CHMOD` and `OP_CHOWN`: `merge` puts the message's values into the
header of the row that was found; `new` is the header of a file never seen before. -/
def opChange (merge : MsgHeader → MsgHeader) (new : MsgHeader) (c : Checked) : Action :=
  if c.foundIno then { db := pdbUpdateFile c.db (merge c.lk.byIno), msg := merge c.lk.byIno }
  else if c.foundPath then
    { db := pdbUpdateFile c.db (merge c.lk.byPath), msg := merge c.lk.byPath }
  else { db := c.db, msg := new, link := some new }

def opChmod (req : Request) (c : Checked) : Action :=
  -- just in case find_file_path screwed up the msg
  opChange (fun h => { h with mode := mergeMode req.hdr.mode h.mode })
    { c.lk.msg with mode := req.hdr.mode } c

/-- The message's owner in another header. -/
def setOwner (req : Request) (h : MsgHeader) : MsgHeader :=
  { h with uid := req.hdr.uid, gid := req.hdr.gid }

def opChown (req : Request) (c : Checked) : Action :=
  opChange (setOwner req) (setOwner req c.lk.msg) c

def opStat (req : Request) (c : Checked) : Action :=
  if c.foundIno ∨ c.foundPath then { db := c.db, msg := dbHeader c req.hdr.op }
  else { db := c.db, msg := { c.lk.msg with result := .fail } }

def opLink (req : Request) (c : Checked) : Action :=
  let db := if c.foundPath then pdbUnlinkFile c.db c.lk.msg req.path else c.db
  let msg :=
    if c.foundIno then
      -- symlink: ignoring existing file
      if req.hdr.op = .symlink then c.lk.msg else c.lk.byIno
    else req.hdr
  { db := db, msg := msg, link := some msg }

def opRename (sq : Sqlite) (req : Request) (c : Checked) : Action :=
  let db := (pdbRenameFile true true c.db (req.oldpath.map cstr) c.lk.msg req.path).1
  { db := pdbUpdateInode sq db c.lk.msg req.path, msg := c.lk.msg }

def opUnlink (req : Request) (c : Checked) : Action :=
  let db := pdbUnlinkFile c.db c.lk.msg req.path
  let db := pdbUnlinkContents db c.lk.msg req.path
  { db := if req.hdr.nlink = 1 ∧ c.foundIno then pdbUnlinkFileDev db c.lk.msg else db,
    msg := { c.lk.msg with result := .none } }

def opMknod (req : Request) (c : Checked) : Action :=
  let db := if c.foundPath then pdbUnlinkFile c.db c.lk.msg req.path else c.db
  { db := if c.foundIno then pdbUnlinkFileDev db c.lk.byIno else db, msg := req.hdr,
    link := some req.hdr }

/-- A failed operation is answered with `RESULT_FAIL`. -/
def MsgHeader.failIf (msg : MsgHeader) (failed : Prop) [Decidable failed] : MsgHeader :=
  if failed then { msg with result := .fail } else msg

def opMayUnlink (req : Request) (c : Checked) : Action :=
  let (db, rc) := pdbMayUnlinkFile c.db c.lk.msg req.path c.lk.msg.client
  { db := db, msg := c.lk.msg.failIf (rc ≠ 0) }

def opSetXattr (sq : Sqlite) (flags : XattrFlags) (req : Request) (c : Checked) : Action :=
  let (db, rc) := pdbSetXattr sq c.db c.lk.msg (req.oldpath.getD []) req.oldpathlen flags
  { db := db, msg := c.lk.msg.failIf (rc ≠ 0) }

def opGetXattr (sq : Sqlite) (req : Request) (c : Checked) : Action :=
  let value := pdbGetXattr sq c.db c.lk.msg (req.oldpath.getD [])
  { db := c.db, msg := c.lk.msg.failIf (value = none), response := value }

/-- The second switch of `pseudo_op`. -/
def opAction (sq : Sqlite) (req : Request) (c : Checked) : Action :=
  match req.hdr.op with
  | .creat => opCreat c
  | .chmod | .fchmod => opChmod req c
  | .chown | .fchown => opChown req c
  | .stat | .fstat => opStat req c
  | .link | .symlink => opLink req c
  | .rename => opRename sq req c
  | .mayUnlink => opMayUnlink req c
  | .didUnlink =>
    { db := pdbDidUnlinkFile c.db req.path (some c.lk.msg) c.lk.msg.client, msg := c.lk.msg }
  | .cancelUnlink => { db := pdbCancelUnlinkFile c.db c.lk.msg req.path, msg := c.lk.msg }
  | .unlink => opUnlink req c
  | .mkdir | .mknod => opMknod req c
  | .getXattr => opGetXattr sq req c
  | .listXattr => { db := c.db, msg := c.lk.msg, response := some (pdbListXattr c.db c.lk.msg) }
  | .createXattr => opSetXattr sq .create req c
  | .replaceXattr => opSetXattr sq .replace req c
  | .setXattr => opSetXattr sq .none req c
  | .removeXattr =>
    { db := pdbRemoveXattr c.db c.lk.msg (req.oldpath.getD []) req.oldpathlen, msg := c.lk.msg }
  -- nothing to do, or not an operation for the server
  | .exec | .open | .chdir | .close | .none | .chroot | .dup | .closefrom | .other _ =>
    { db := c.db, msg := c.lk.msg }

/-- The operation with its final `pdb_link_file`. -/
def Action.run (a : Action) (path : Bytes) : Outcome :=
  match a.link with
  | some msg => ⟨pdbLinkFile a.db msg path, a.msg, a.response⟩
  | none => ⟨a.db, a.msg, a.response⟩

/-- If `nlink` is 0 for an fchown/fchmod/fstat, the descriptor is probably unlinked. -/
def markUnlinked (req : Request) (c : Checked) (out : Outcome) : Outcome :=
  match req.hdr.op with
  | .fchown | .fchmod | .fstat =>
    if ¬ c.foundPath ∧ ¬ c.foundIno ∧ out.msg.nlink = 0 then
      { out with db := (pdbMayUnlinkFile out.db out.msg req.path out.msg.client).1 }
    else out
  | _ => out

/-- `pseudo_op` once the paths are split off. -/
def handle (sq : Sqlite) (db : Db) (req : Request) : Outcome :=
  let lk := lookup sq db req
  if aborts req lk then
    ⟨(checkPath db req lk).1, { lk.msg with result := .abort }, none⟩
  else
    let c := checked sq db req
    markUnlinked req c ((opAction sq req c).run req.path)

def pseudoOp (sq : Sqlite) (db : Db) (m : PseudoMsg) : Outcome := handle sq db (request m)

/-- The row that `pseudo_op` inserts through `pdb_link_file` while handling a message. -/
def linked (sq : Sqlite) (db : Db) (req : Request) : Option FileRow :=
  if aborts req (lookup sq db req) then none
  else (opAction sq req (checked sq db req)).link.map (linkRow · req.path)

end Pseudo

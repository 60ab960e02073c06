import Pseudo.Library.Table
import Pseudo.Library.Text
import Pseudo.Message

/-!
# The file database

`pseudo_db.c` over the tables `files` and `xattrs`. SQLite is trusted: a statement does what
its text says, text compares bytewise, `sqlite3_bind_int` stores the low 32 bits as a signed
number, and no step fails, so the status codes that only report a failed step are left out.
`pdb_rename_file`, whose two updates run in one transaction, takes their outcomes as arguments.

A statement that reads one row without an order may get any matching row (`Table.Scan`).
The column `files.id` is left out, as no function reads it. The database is one that this
version has created: its migrations, one of which makes an index unique, do not run.
-/

namespace Pseudo

open Table

/-! ## Rows -/

/-- A row of `files`. All columns but `path` and `ino` are written through
`sqlite3_bind_int`, so they hold signed 32-bit numbers. -/
structure FileRow where
  path : Bytes
  dev : BitVec 32
  ino : BitVec 64
  uid : BitVec 32
  gid : BitVec 32
  mode : BitVec 32
  rdev : BitVec 32
  deleting : BitVec 32
  deriving DecidableEq, Repr

/-- A row of `xattrs`; `dev` is written with 64 bits on insertion. -/
structure XattrRow where
  id : Int
  dev : BitVec 64
  ino : BitVec 64
  name : Bytes
  value : Bytes
  deriving DecidableEq, Repr

/-- The static message buffer of `pdb_update_inode`, as far as it is ever read. -/
structure OldMsg where
  pathlen : BitVec 32
  path : Bytes
  deriving DecidableEq, Repr

/-- The two tables, and the server's static buffer. -/
structure Db where
  files : List FileRow
  xattrs : List XattrRow
  oldmsg : OldMsg
  deriving DecidableEq, Repr

/-- A freshly created database. The buffer holds whatever `malloc` left there. -/
def Db.empty (oldmsg : OldMsg) : Db := ⟨[], [], oldmsg⟩

/-- The order in which SQLite visits matching rows, left open. -/
structure Sqlite where
  files : Scan FileRow
  xattrs : Scan XattrRow

/-- Rows in insertion order. -/
def Sqlite.inOrder : Sqlite := ⟨Scan.inOrder, Scan.inOrder⟩

/-- `'NAMELESS FILE'`. -/
def namelessFile : Bytes :=
  ascii ['N', 'A', 'M', 'E', 'L', 'E', 'S', 'S', ' ', 'F', 'I', 'L', 'E']

/-! ## Binding and reading numbers -/

/-- What `sqlite3_bind_int` keeps of an integer argument. -/
def bindInt (v : BitVec 64) : BitVec 32 := v.setWidth 32

/-- `sqlite3_column_int64` of a column that was bound with `sqlite3_bind_int`. -/
def columnInt64 (v : BitVec 32) : BitVec 64 := v.signExtend 64

/-- `INT64_MIN` and `INT64_MAX`. -/
def int64Min : BitVec 64 := 1 <<< 63
def int64Max : BitVec 64 := int64Min - 1

def signedIno (ino : BitVec 64) : BitVec 64 :=
  if int64Max < ino then (ino + int64Min) + int64Min else ino

/-- The conversion only changes how the bits are read. -/
@[simp] theorem signedIno_eq (ino : BitVec 64) : signedIno ino = ino := by
  have h : int64Min + int64Min = 0 := by decide
  unfold signedIno
  split
  · rw [BitVec.add_assoc, h]
    exact BitVec.add_zero ino
  · rfl

/-- The values bound for `dev = ? AND ino = ?`. -/
def MsgHeader.key (msg : MsgHeader) : BitVec 32 × BitVec 64 := (bindInt msg.dev, signedIno msg.ino)

def FileRow.key (r : FileRow) : BitVec 32 × BitVec 64 := (r.dev, r.ino)

/-- The inode columns of an xattr row as `files` would hold them, if it can. -/
def XattrRow.hasKey (x : XattrRow) (k : BitVec 32 × BitVec 64) : Bool :=
  x.dev == columnInt64 k.1 && x.ino == k.2

/-- `WHERE path = ?`. -/
def atPath (path : Bytes) (r : FileRow) : Bool := r.path == path

/-- `WHERE dev = ? AND ino = ?`. -/
def atKey (k : BitVec 32 × BitVec 64) (r : FileRow) : Bool := r.key == k

/-- `WHERE (path > (? || '/') AND path < (? || '0'))`. -/
def below (path : Bytes) (r : FileRow) : Bool :=
  decide (path ++ [slash] < r.path) && decide (r.path < path ++ [zeroDigit])

@[simp] theorem atPath_iff {path : Bytes} {r : FileRow} : atPath path r = true ↔ r.path = path := by
  simp [atPath]

theorem adjacent_slash : Text.Adjacent slash zeroDigit := by
  refine ⟨by decide, fun c h1 h2 => ?_⟩
  simp only [slash, zeroDigit, UInt8.lt_iff_toNat_lt] at h1 h2
  have h3 : (47 : UInt8).toNat = 47 := rfl
  have h4 : (48 : UInt8).toNat = 48 := rfl
  omega

/-- The range holds exactly the descendants: "the only things greater than 'a/' and less than
'a0' are strings which begin with 'a/' and have additional characters after it". -/
theorem below_iff {path : Bytes} {r : FileRow} :
    below path r = true ↔ ∃ rest, rest ≠ [] ∧ r.path = path ++ slash :: rest := by
  rw [← Text.between_iff adjacent_slash]
  simp [below]

@[simp] theorem atKey_iff {k : BitVec 32 × BitVec 64} {r : FileRow} :
    atKey k r = true ↔ r.key = k := by
  simp [atKey]

@[simp] theorem atPath_eq_false {path : Bytes} {r : FileRow} :
    atPath path r = false ↔ r.path ≠ path := by
  simp [atPath]

@[simp] theorem atKey_eq_false {k : BitVec 32 × BitVec 64} {r : FileRow} :
    atKey k r = false ↔ r.key ≠ k := by
  simp [atKey]

/-! ## Clearing extended attributes -/

def pdbClearUnusedXattrs (db : Db) : Db :=
  { db with xattrs := delete (fun x => count (fun r => x.hasKey r.key) db.files == 0) db.xattrs }

def pdbClearXattrs (db : Db) (msg : MsgHeader) : Db :=
  { db with xattrs :=
      delete (fun x => x.hasKey msg.key && count (atKey msg.key) db.files == 0) db.xattrs }

def pdbCheckXattrs (db : Db) (msg : MsgHeader) : Db :=
  let existing := count (atKey msg.key) db.files
  -- if there are any matching entries, don't delete xattrs
  if existing = 0 then pdbClearXattrs db msg else db

/-- The id of the next row. -/
def nextId (t : List XattrRow) : Int := (t.map (·.id)).foldl max 0 + 1

/-- `INSERT INTO xattrs (dev, ino, name, value)`. -/
def insertXattr (t : List XattrRow) (dev ino : BitVec 64) (name value : Bytes) : List XattrRow :=
  t ++ [{ id := nextId t, dev := dev, ino := ino, name := name, value := value }]

def pdbCopyXattrs (db : Db) (oldkey : BitVec 32 × BitVec 64) (msg : MsgHeader) : Db :=
  let found := db.xattrs.filter fun x => x.hasKey oldkey
  let insert (t : List XattrRow) (x : XattrRow) : List XattrRow :=
    insertXattr t (columnInt64 (bindInt msg.dev)) (signedIno msg.ino) x.name x.value
  { db with xattrs := found.foldl insert db.xattrs }

/-! ## Changing the table of files

`path` is the C string in the message's buffer. -/

/-- The row that `pdb_link_file` inserts. -/
def linkRow (msg : MsgHeader) (path : Bytes) : FileRow where
  path := if msg.pathlen ≠ 0 then path else namelessFile
  dev := bindInt msg.dev
  ino := signedIno msg.ino
  uid := msg.uid
  gid := msg.gid
  mode := bindInt msg.mode
  rdev := bindInt msg.rdev
  deleting := 0

def pdbLinkFile (db : Db) (msg : MsgHeader) (path : Bytes) : Db :=
  { db with files := db.files ++ [linkRow msg path] }

def pdbUnlinkFileDev (db : Db) (msg : MsgHeader) : Db :=
  pdbClearXattrs { db with files := delete (atKey msg.key) db.files } msg

def pdbUpdateFilePath (db : Db) (msg : MsgHeader) (path : Bytes) : Db :=
  if msg.pathlen = 0 then db
  else
    let nameless (r : FileRow) : Bool :=
      atPath namelessFile r && atKey (bindInt msg.dev, msg.ino) r
    { db with files := update nameless (fun r => { r with path := path }) db.files }

/-- The status is 0 when a row was marked. -/
def pdbMayUnlinkFile (db : Db) (msg : MsgHeader) (path : Bytes) (deleting : BitVec 32) : Db × Int :=
  if msg.pathlen = 0 then (db, 1)
  else
    let exact := count (atPath path) db.files
    ({ db with files := update (atPath path) (fun r => { r with deleting := deleting }) db.files },
      if 0 < exact then 0 else 1)

def pdbCancelUnlinkFile (db : Db) (msg : MsgHeader) (path : Bytes) : Db :=
  if msg.pathlen = 0 then db
  else
    pdbCheckXattrs
      { db with files := update (atPath path) (fun r => { r with deleting := 0 }) db.files } msg

def pdbDidUnlinkFile (db : Db) (path : Bytes) (msg : Option MsgHeader) (deleting : BitVec 32) :
    Db :=
  let db := { db with files := delete (fun r => atPath path r && r.deleting == deleting) db.files }
  match msg with
  | some msg => pdbClearXattrs db msg
  -- we have to clean everything because we don't know for sure the device/inode
  | none => pdbClearUnusedXattrs db

def pdbUnlinkFile (db : Db) (msg : MsgHeader) (path : Bytes) : Db :=
  if msg.pathlen = 0 then db
  else pdbCheckXattrs { db with files := delete (atPath path) db.files } msg

def pdbUnlinkContents (db : Db) (msg : MsgHeader) (path : Bytes) : Db :=
  if msg.pathlen = 0 then db
  else pdbClearUnusedXattrs { db with files := delete (below path) db.files }

/-- `UPDATE files SET path = ?, deleting = 0 WHERE path = ?`. -/
def renameExact (oldpath path : Bytes) (t : List FileRow) : List FileRow :=
  update (atPath oldpath) (fun r => { r with path := path, deleting := 0 }) t

/-- `UPDATE files SET path = replace(path, ?, ?), deleting = 0 WHERE (path > (? || '/') AND
path < (? || '0'))`. -/
def renameSub (oldpath path : Bytes) (t : List FileRow) : List FileRow :=
  update (below oldpath)
    (fun r => { r with path := Text.replace oldpath path r.path, deleting := 0 }) t

/-- The two updates run between `BEGIN` and `END` whatever their outcome (`exactOk`, `subOk`);
the status compares the outcome of `END`, `SQLITE_OK`, with `SQLITE_DONE`, so it is 1. -/
def pdbRenameFile (exactOk subOk : Bool) (db : Db) (oldpath : Option Bytes) (msg : MsgHeader)
    (path : Bytes) : Db × Int :=
  match msg.pathlen, oldpath with
  | 0, _ => (db, 1)
  | _ + 1, none => (db, 1)
  | _ + 1, some oldpath =>
    let files := if exactOk then renameExact oldpath path db.files else db.files
    let files := if subOk then renameSub oldpath path files else files
    ({ db with files := files }, 1)

/-- `UPDATE files SET uid = ?, gid = ?, mode = ?, rdev = ?`, for one row. -/
def FileRow.setMeta (r : FileRow) (msg : MsgHeader) : FileRow :=
  { r with uid := msg.uid, gid := msg.gid, mode := bindInt msg.mode, rdev := bindInt msg.rdev }

def pdbUpdateFile (db : Db) (msg : MsgHeader) : Db :=
  { db with files := update (atKey msg.key) (fun r => r.setMeta msg) db.files }

/-! ## The table of files after each operation -/

section Files
variable (db : Db) (msg : MsgHeader) (path : Bytes)

@[simp] theorem pdbClearUnusedXattrs_files : (pdbClearUnusedXattrs db).files = db.files := rfl

@[simp] theorem pdbClearXattrs_files : (pdbClearXattrs db msg).files = db.files := rfl

@[simp] theorem pdbCheckXattrs_files : (pdbCheckXattrs db msg).files = db.files := by
  unfold pdbCheckXattrs
  dsimp only
  split <;> rfl

@[simp] theorem pdbCopyXattrs_files (oldkey : BitVec 32 × BitVec 64) :
    (pdbCopyXattrs db oldkey msg).files = db.files := rfl

@[simp] theorem pdbLinkFile_files :
    (pdbLinkFile db msg path).files = db.files ++ [linkRow msg path] := rfl

@[simp] theorem pdbUnlinkFileDev_files :
    (pdbUnlinkFileDev db msg).files = delete (atKey msg.key) db.files := rfl

@[simp] theorem pdbDidUnlinkFile_files (from? : Option MsgHeader) (deleting : BitVec 32) :
    (pdbDidUnlinkFile db path from? deleting).files =
      delete (fun r => atPath path r && r.deleting == deleting) db.files := by
  cases from? <;> rfl

theorem pdbUnlinkFile_files : (pdbUnlinkFile db msg path).files =
    if msg.pathlen = 0 then db.files else delete (atPath path) db.files := by
  unfold pdbUnlinkFile
  split <;> simp

theorem pdbUnlinkContents_files : (pdbUnlinkContents db msg path).files =
    if msg.pathlen = 0 then db.files else delete (below path) db.files := by
  unfold pdbUnlinkContents
  split <;> simp

theorem pdbMayUnlinkFile_files (deleting : BitVec 32) :
    (pdbMayUnlinkFile db msg path deleting).1.files =
      if msg.pathlen = 0 then db.files
      else update (atPath path) (fun r => { r with deleting := deleting }) db.files := by
  unfold pdbMayUnlinkFile
  split <;> rfl

theorem pdbCancelUnlinkFile_files : (pdbCancelUnlinkFile db msg path).files =
    if msg.pathlen = 0 then db.files
    else update (atPath path) (fun r => { r with deleting := 0 }) db.files := by
  unfold pdbCancelUnlinkFile
  split <;> simp

@[simp] theorem pdbUpdateFile_files : (pdbUpdateFile db msg).files =
    update (atKey msg.key) (fun r => r.setMeta msg) db.files := rfl

end Files

/-! ## Finding files -/

/-- The columns that every `pdb_find_file_*` copies into the message. -/
def MsgHeader.readRow (msg : MsgHeader) (r : FileRow) : MsgHeader :=
  { msg with uid := r.uid, gid := r.gid, mode := columnInt64 r.mode, rdev := columnInt64 r.rdev,
             deleting := r.deleting }

def pdbFindFileExact (sq : Sqlite) (db : Db) (msg : MsgHeader) (path : Bytes) : Option MsgHeader :=
  (select sq.files (fun r => atPath path r && atKey msg.key r) db.files).map msg.readRow

def pdbFindFilePath (sq : Sqlite) (db : Db) (msg : MsgHeader) (path : Bytes) : Option MsgHeader :=
  if msg.pathlen = 0 then none
  else
    (select sq.files (atPath path) db.files).map fun r =>
      { msg.readRow r with dev := columnInt64 r.dev, ino := r.ino }

/-- The second component is the row's path. -/
def pdbFindFileDev (sq : Sqlite) (db : Db) (msg : MsgHeader) : Option (MsgHeader × Bytes) :=
  (select sq.files (atKey msg.key) db.files).map fun r => (msg.readRow r, r.path)

/-! ## Renumbering a renamed file -/

/-- Offsets of `pathlen` and `path` in `pseudo_msg_t`, and the size of a pointer. -/
def offsetofPathlen : Nat := 64
def offsetofPath : Nat := 76
def sizeofPointer : Nat := 8

/-- `memcpy(oldmsg, msg, sizeof(msg) + msg->pathlen)`: `msg` is a pointer, so the copy stops
`pathlen + 8` bytes into the message. -/
def OldMsg.copy (oldmsg : OldMsg) (msg : MsgHeader) (path : Bytes) : OldMsg :=
  let n := sizeofPointer + msg.pathlen
  let mask : BitVec 32 := BitVec.ofNat 32 (2 ^ (8 * min 4 (n - offsetofPathlen)) - 1)
  { pathlen := (BitVec.ofNat 32 msg.pathlen &&& mask) ||| (oldmsg.pathlen &&& ~~~mask)
    path := path.take (n - offsetofPath) ++ oldmsg.path.drop (n - offsetofPath) }

/-- `pdb_find_file_path(oldmsg)`: the inode of the row found for the buffer's path. -/
def OldMsg.find (oldmsg : OldMsg) (sq : Sqlite) (files : List FileRow) :
    Option (BitVec 32 × BitVec 64) :=
  if oldmsg.pathlen = 0 then none
  else (select sq.files (atPath (cstr oldmsg.path)) files).map FileRow.key

/-- `UPDATE files SET dev = ?, ino = ? WHERE path = ?`. -/
def setInode (msg : MsgHeader) (path : Bytes) (t : List FileRow) : List FileRow :=
  update (atPath path) (fun r => { r with dev := bindInt msg.dev, ino := signedIno msg.ino }) t

def pdbUpdateInode (sq : Sqlite) (db : Db) (msg : MsgHeader) (path : Bytes) : Db :=
  if msg.pathlen = 0 then db
  else
    let db := { db with oldmsg := db.oldmsg.copy msg path }
    match db.oldmsg.find sq db.files with
    | none => { db with files := setInode msg path db.files }
    | some oldkey =>
      let db := pdbCopyXattrs db oldkey msg
      let db := { db with files := setInode msg path db.files }
      -- possibly delete old message's xattrs
      pdbCheckXattrs db { msg with dev := columnInt64 oldkey.1, ino := oldkey.2 }

/-- Whatever the buffer says, the rows of the new path get the message's inode. -/
theorem pdbUpdateInode_files (sq : Sqlite) (db : Db) (msg : MsgHeader) (path : Bytes) :
    (pdbUpdateInode sq db msg path).files =
      if msg.pathlen = 0 then db.files else setInode msg path db.files := by
  unfold pdbUpdateInode
  split
  · rfl
  · dsimp only
    split <;> simp

/-! ## Extended attributes -/

/-- Text bound with an explicit `size_t` length, which SQLite takes as an `int`: a negative
length means up to the first NUL. -/
def bindText (b : Bytes) (len : Nat) : Bytes :=
  let n := (BitVec.ofNat 32 len).toInt
  if n < 0 then cstr b else b.take n.toNat

/-- `flags` of `pdb_set_xattr`. -/
inductive XattrFlags
  | none | create | replace
  deriving DecidableEq, Repr

/-- `WHERE dev = ? AND ino = ? AND name = ?`. -/
def atName (msg : MsgHeader) (name : Bytes) (x : XattrRow) : Bool :=
  x.hasKey msg.key && x.name == name

/-- The value found; an empty one counts as a failure. -/
def pdbGetXattr (sq : Sqlite) (db : Db) (msg : MsgHeader) (value : Bytes) : Option Bytes :=
  match select sq.xattrs (atName msg (cstr value)) db.xattrs with
  | some x => if 1 ≤ x.value.length then some x.value else none
  | none => none

/-- The names in order, each followed by a NUL. -/
def pdbListXattr (db : Db) (msg : MsgHeader) : Bytes :=
  let names := (db.xattrs.filter fun x => x.hasKey msg.key).map (·.name)
  (names.mergeSort fun a b => !decide (b < a)).flatMap (· ++ [0])

def pdbRemoveXattr (db : Db) (msg : MsgHeader) (value : Bytes) (len : Nat) : Db :=
  { db with xattrs := delete (atName msg (bindText value len)) db.xattrs }

/-- The status is 1 when `flags` forbid the change. -/
def pdbSetXattr (sq : Sqlite) (db : Db) (msg : MsgHeader) (value : Bytes) (len : Nat)
    (flags : XattrFlags) : Db × Int :=
  let name := cstr value
  let existingRow := (select sq.xattrs (atName msg name) db.xattrs).map (·.id)
  if flags = .create ∧ existingRow.isSome then (db, 1)
  else if flags = .replace ∧ existingRow.isNone then (db, 1)
  else
    -- the material after the name is the value
    let text := bindText (value.drop (name.length + 1)) (subSize len (name.length + 1))
    match existingRow with
    | some id =>
      let bound := (BitVec.ofInt 32 id).toInt
      let xattrs := update (fun x => x.id == bound) (fun x => { x with value := text }) db.xattrs
      ({ db with xattrs := xattrs }, 0)
    | none =>
      ({ db with xattrs := insertXattr db.xattrs msg.dev (signedIno msg.ino) name text }, 0)

@[simp] theorem pdbRemoveXattr_files (db : Db) (msg : MsgHeader) (value : Bytes) (len : Nat) :
    (pdbRemoveXattr db msg value len).files = db.files := rfl

@[simp] theorem pdbSetXattr_files (sq : Sqlite) (db : Db) (msg : MsgHeader) (value : Bytes)
    (len : Nat) (flags : XattrFlags) :
    (pdbSetXattr sq db msg value len flags).1.files = db.files := by
  unfold pdbSetXattr
  dsimp only
  split
  · rfl
  · split
    · rfl
    · split <;> rfl

/-- The row of a regular file, for the concrete cases. -/
def exRow (path : Bytes) (ino : BitVec 64) : FileRow :=
  { path := path, dev := 1, ino := ino, uid := 0, gid := 0, mode := 0o100644, rdev := 0,
    deleting := 0 }

end Pseudo
